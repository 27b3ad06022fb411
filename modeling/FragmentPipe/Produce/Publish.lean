import FragmentPipe.Pipe.State

/-!
Finishing and publishing fragments. A finished fragment ends with the count of its bytes. Heads are
published in batches; a batch can be flushed early, and unpublished work can be given up.
-/

namespace FragmentPipe.Pipe

/-- Publishes the heads when a batch is complete, and otherwise remembers them. -/
def publishBatched (p : Pipe) : Pipe :=
  let w := p.producer
  let p :=
    if w.countdown - 1 ≤ 0 then
      let asked := Regulator.askOption w.regulator w.slabHead
      { p with
        store.blobHead := w.blobHead
        store.slabHead := w.slabHead
        producer.countdown := w.batch
        producer.delay := asked.1
        producer.regulator := asked.2 }
    else
      { p with
        producer.countdown := w.countdown - 1
        producer.heldBlob := w.blobHead
        producer.heldSlab := w.slabHead }
  { p with store := p.store.noteHead w.slabHead w.blobHead }

/-- The bytes written since the last finished fragment. -/
def uncountedBytes (p : Pipe) : Int := (p.producer.blobHead - p.producer.counted) % blobSpan

/-- Writes the byte count that ends a fragment. -/
def putByteCount (p : Pipe) : Pipe :=
  { p with
    store.slab := p.store.slab.set p.producer.slabHead (Int32.ofInt p.uncountedBytes)
    producer.slabHead := p.producer.slabHead + 1
    producer.counted := p.producer.blobHead
    producer.writeBase := p.producer.blobHead }

/-- Finishes a fragment and publishes in batches; the answer is the number of its bytes. -/
def publishFragment (p : Pipe) : Int × Pipe := (p.uncountedBytes, p.putByteCount.publishBatched)

/-- Publishes what a batch held back. -/
def flushPublished (p : Pipe) : Pipe :=
  let p :=
    if p.store.slabHead < p.producer.heldSlab then
      { p with store.blobHead := p.producer.heldBlob, store.slabHead := p.producer.heldSlab }
    else p
  { p with producer.countdown := p.producer.batch }

/-- Gives up everything that is not published. -/
def abandonWrites (p : Pipe) : Pipe :=
  let slab := p.store.slabHead
  let blob := p.store.blobHead
  { p with
    store := p.store.noteHead slab blob
    producer.slabHead := slab
    producer.blobHead := blob
    producer.writeBase := blob
    producer.counted := blob
    producer.heldSlab := slab
    producer.heldBlob := blob
    producer.countdown := p.producer.batch
    producer.room := p.producer.room.rewind slab p.store.slab.size }

/-- Remembers the place to which a partly written fragment can go back. -/
def markHead (p : Pipe) : Pipe :=
  { p with producer.markSlab := p.producer.slabHead, producer.markBlob := p.producer.blobHead }

/-- Goes back to the remembered place. -/
def resetHead (p : Pipe) : Pipe :=
  { p with producer.slabHead := p.producer.markSlab, producer.blobHead := p.producer.markBlob }

/-- Writes the end mark and publishes it with everything before it. Without two free cells the pipe
is shut down. -/
def publishEnd (p : Pipe) : Except PipeError Unit × Pipe :=
  let position := p.producer.slabHead
  let available := p.store.slabTail + p.store.slab.size - position
  if available < endMarkSize then
    (.error (.insufficientRoom endMarkSize available), (p.shutdown "no room to publish EOF").2)
  else
    let stop := position + endMarkSize
    let p :=
      { p with
        store.slab := (p.store.slab.set position (-1)).set (position + 1) 0
        store.blobHead := p.producer.blobHead
        store.slabHead := stop
        store.endPosition := position
        producer.slabHead := stop
        producer.room := p.producer.room.confirm endMarkSize
        producer.heldSlab := stop
        producer.heldBlob := p.producer.blobHead
        producer.countdown := p.producer.batch }
    let p := { p with store := p.store.noteHead stop p.producer.blobHead }
    (.ok (), p.report (.endPublished p.store.id position))

/-- Publishes in batches of another size from now on. -/
def usePublishBatch (p : Pipe) (size : Nat) : Pipe :=
  { p with producer.batch := size, producer.countdown := size }.report
    (.publishBatchChanged p.store.id size)

/-- Chooses a batch size, of which the rings must hold two. -/
def setPublishBatch (p : Pipe) (size : Nat) : Except PipeError Unit × Pipe :=
  let maximum := p.store.config.maxBatch explicitBatches
  if maximum < size then (.error (.batchSizeTooLarge size maximum), p)
  else (.ok (), p.usePublishBatch size)

/-- Chooses the largest batch size of which the rings hold three. -/
def setMaxPublishBatch (p : Pipe) : Pipe :=
  p.usePublishBatch (p.store.config.maxBatch maximumBatches)

/-- Gives the writing side a regulator, once. -/
def setPublishRegulator (p : Pipe) (r : Regulator) : Except PipeError Unit × Pipe :=
  match p.producer.regulator with
  | some _ => (.error (.invalidConfig (.secondRegulator "producer")), p)
  | none => (.ok (), { p with producer.regulator := some r })

end FragmentPipe.Pipe
