import FragmentPipe.Consume.Release

/-!
Going back to the first unreleased fragment and reading everything from there again. The place where
the first replay began is remembered until the replay is cancelled or read past it.
-/

namespace FragmentPipe.Pipe

/-- Whether the reader is behind the place where its replay began. -/
def isReplaying (p : Pipe) : Bool := decide (p.consumer.slabTail < p.consumer.resume.slabTail)

/-- Remembers where the reader stands, unless a replay is under way. -/
def rememberPlace (p : Pipe) : Pipe :=
  if p.isReplaying then p
  else
    { p with
      consumer.resume :=
        ⟨p.consumer.slabTail, p.consumer.blobTail, p.consumer.readBase,
          p.consumer.content.confirmed⟩ }

/-- Goes back to the published tails. -/
def replay (p : Pipe) : Pipe :=
  let p := p.rememberPlace
  let p :=
    { p with
      consumer.slabTail := p.store.slabTail
      consumer.blobTail := p.store.blobTail
      consumer.readBase := p.store.blobTail % p.store.blob.size
      consumer.content := p.consumer.content.rewind p.store.slabTail }
  p.noteTail.report
    (.replaying p.store.id p.consumer.slabTail p.consumer.resume.slabTail)

/-- Returns to the place where the replay began. -/
def cancelReplay (p : Pipe) : Pipe :=
  let place := p.consumer.resume
  { p with
    consumer.slabTail := place.slabTail
    consumer.blobTail := place.blobTail
    consumer.readBase := place.readBase
    consumer.content := p.consumer.content.rewind place.confirmed }.noteTail

end FragmentPipe.Pipe
