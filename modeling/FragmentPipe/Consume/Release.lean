import FragmentPipe.Consume.Content

/-!
Giving cells and bytes back to the writer. A fragment ends with the count of its bytes, which moves
the base of the next one. Tails are published in batches; releases can be put off and made up for
later, whole or by bytes.
-/

namespace FragmentPipe.Pipe

/-- Notes the reader's positions for display. -/
def noteTail (p : Pipe) : Pipe :=
  { p with store := p.store.noteTail p.consumer.slabTail p.consumer.blobTail }

/-- Reads the byte count that ends a fragment; the next fragment's bytes begin after as many. -/
def takeByteCount (p : Pipe) : Int × Pipe :=
  let (count, p) := p.takeInt
  let base := (p.consumer.readBase + count.toInt) % p.store.blob.size
  (count.toInt, { p with consumer.readBase := base, consumer.blobTail := base })

/-- Publishes tails when a batch is complete, and otherwise remembers them. -/
def releaseBatched (p : Pipe) (slabTail blobTail : Int) : Pipe :=
  let r := p.consumer
  let p :=
    if r.countdown - 1 ≤ 0 then
      let asked := Regulator.askOption r.regulator slabTail
      { p with
        store.blobTail := blobTail
        store.slabTail := slabTail
        consumer.countdown := r.batch
        consumer.delay := asked.1
        consumer.regulator := asked.2 }
    else
      { p with
        consumer.countdown := r.countdown - 1
        consumer.heldBlob := blobTail
        consumer.heldSlab := slabTail }
  p.noteTail

/-- Ends a fragment and releases in batches; the answer is the number of its bytes. -/
def releaseFragment (p : Pipe) : Int × Pipe :=
  let (count, p) := p.takeByteCount
  (count, p.releaseBatched p.consumer.slabTail p.consumer.blobTail)

/-- Publishes the tails that a batch held back. -/
def flushReleased (p : Pipe) : Pipe :=
  let p :=
    if p.store.slabTail < p.consumer.heldSlab then
      { p with store.blobTail := p.consumer.heldBlob, store.slabTail := p.consumer.heldSlab }
    else p
  { p with consumer.countdown := p.consumer.batch }

/-- Publishes the place where the reader stands. -/
def releaseToHere (p : Pipe) : Pipe :=
  { p with
    store.blobTail := p.consumer.blobTail
    store.slabTail := p.consumer.slabTail
    consumer.heldBlob := p.consumer.blobTail
    consumer.heldSlab := p.consumer.slabTail
    consumer.countdown := p.consumer.batch }

/-- A batch that is never complete. -/
def endlessBatch : Int := 0x7FFFFFFF

/-- Holds back every release until it is flushed. -/
def holdReleases (p : Pipe) : Pipe :=
  { p with consumer.batch := endlessBatch, consumer.countdown := endlessBatch }

/-- Ends a fragment and puts its release off; the answer is the number of its bytes. -/
def deferRelease (p : Pipe) : Int × Pipe :=
  let (count, p) := p.takeByteCount
  let entry : Deferred := ⟨p.consumer.slabTail, p.consumer.blobTail, count⟩
  (count, { p with consumer.deferred := p.consumer.deferred ++ [entry] }.noteTail)

/-- Releases the oldest fragment that was put off, if there is one. -/
def releaseDeferred (p : Pipe) : Bool × Pipe :=
  match p.consumer.deferred with
  | [] => (false, p)
  | entry :: rest =>
    (true, { p with consumer.deferred := rest }.releaseBatched entry.slabTail entry.blobTail)

/-- Releases the fragments of a queue in order. -/
def releaseEntries (p : Pipe) : List Deferred → Pipe
  | [] => p
  | entry :: rest => releaseEntries (p.releaseBatched entry.slabTail entry.blobTail) rest

/-- Releases every fragment that was put off. -/
def releaseAllDeferred (p : Pipe) : Pipe :=
  releaseEntries { p with consumer.deferred := [] } p.consumer.deferred

/-- Gives back `count` bytes of fragments that were put off, the oldest first. Fragments whose bytes
are covered are released; of the next one the blob tail moves, its cells stay, and its remaining
length shrinks. -/
def releaseBytes (p : Pipe) (count : Int) : List Deferred → Pipe
  | [] => { p with consumer.deferred := [] }
  | entry :: rest =>
    if count ≤ 0 then { p with consumer.deferred := entry :: rest }
    else if entry.length ≤ count then
      releaseBytes (p.releaseBatched entry.slabTail entry.blobTail) (count - entry.length) rest
    else
      let unread := entry.length - count
      let blobTail := (entry.blobTail - unread) % p.store.blob.size
      { p with
        store.blobTail := blobTail
        consumer.heldBlob := blobTail
        consumer.deferred := { entry with length := unread } :: rest }

/-- Gives back `count` bytes of the fragments that were put off. -/
def releaseDeferredBytes (p : Pipe) (count : Int) : Pipe := p.releaseBytes count p.consumer.deferred

/-- Releases in batches of another size from now on. -/
def useReleaseBatch (p : Pipe) (size : Nat) : Pipe :=
  { p with consumer.batch := size, consumer.countdown := size }.report
    (.releaseBatchChanged p.store.id size)

/-- Chooses a batch size, of which the rings must hold two. -/
def setReleaseBatch (p : Pipe) (size : Nat) : Except PipeError Unit × Pipe :=
  let maximum := p.store.config.maxBatch explicitBatches
  if maximum < size then (.error (.batchSizeTooLarge size maximum), p)
  else (.ok (), p.useReleaseBatch size)

/-- Chooses the largest batch size of which the rings hold three. -/
def setMaxReleaseBatch (p : Pipe) : Pipe :=
  p.useReleaseBatch (p.store.config.maxBatch maximumBatches)

/-- Gives the reading side a regulator, once. -/
def setReleaseRegulator (p : Pipe) (r : Regulator) : Except PipeError Unit × Pipe :=
  match p.consumer.regulator with
  | some _ => (.error (.invalidConfig (.secondRegulator "consumer")), p)
  | none => (.ok (), { p with consumer.regulator := some r })

end FragmentPipe.Pipe
