import FragmentPipe.Capacity.Config
import FragmentPipe.Control.Regulator
import FragmentPipe.Layout.Cells
import FragmentPipe.Pipe.Event
import FragmentPipe.Position.Cache

/-!
The state of a pipe. `Store` is what both sides see: the two rings, the published positions and the
status. `Producer` and `Consumer` are the private positions of the side that writes and of the side
that reads. A slab position counts cells and never wraps; a blob position counts bytes and starts
again at zero after `blobSpan`.

A slab position is a signed 64 bit word. Here it is a number without bound, as are the sizes that are
added to it: as long as the writer is one turn of the largest slab short of `noEnd`, which is the
largest such word, no sum of a position and a size leaves the words (`slab_sums_exact`).
-/

namespace FragmentPipe

/-- The positions of both sides as last noted for display. -/
structure Noted where
  slabHead : Int
  slabTail : Int
  blobHead : Int
  blobTail : Int
  deriving DecidableEq, Repr

/-- What both sides of a pipe see. -/
structure Store where
  id : Nat
  config : Config
  slab : Ring Int32
  blob : Ring UInt8
  /-- Published by the writing side: everything before it may be read. -/
  slabHead : Int
  blobHead : Int
  /-- Published by the reading side: everything before it may be overwritten. -/
  slabTail : Int
  blobTail : Int
  /-- Where the end mark lies; without one the largest 64 bit number. -/
  endPosition : Int
  noted : Noted
  cancelled : Bool
  /-- The first cause given for a shutdown; a pipe with a cause is shut down. -/
  shutdownCause : Option String
  /-- What happened, the latest last. -/
  events : List Event

/-- The place of the end mark in a pipe that has none. -/
def noEnd : Int := 0x7FFFFFFFFFFFFFFF

namespace Store

/-- New rings filled with zeros; every position is zero. -/
def empty (id : Nat) (config : Config) (cancelled : Bool) : Store where
  id := id
  config := config
  slab := .filled config.slabBits 0
  blob := .filled config.blobBits 0
  slabHead := 0
  blobHead := 0
  slabTail := 0
  blobTail := 0
  endPosition := noEnd
  noted := ⟨0, 0, 0, 0⟩
  cancelled := cancelled
  shutdownCause := none
  events := []

/-- Notes an event. -/
def report (s : Store) (e : Event) : Store := { s with events := s.events ++ [e] }

/-- Notes several events. -/
def reportAll (s : Store) (es : List Event) : Store := { s with events := s.events ++ es }

/-- Whether the pipe is shut down. -/
def isShutdown (s : Store) : Bool := s.shutdownCause.isSome

/-- Shuts the pipe down. Only the first request is kept and reported; the answer tells whether this
was the first. -/
def shutdown (s : Store) (cause : String) : Bool × Store :=
  match s.shutdownCause with
  | some _ => (false, s)
  | none => (true, { s with shutdownCause := some cause }.report (.shutDown s.id cause))

/-- Why a waiting call has to give up: a shutdown counts before a cancellation. -/
def interruption (s : Store) : Option PipeError :=
  match s.shutdownCause with
  | some cause => some (.shutdown s.id cause)
  | none => if s.cancelled then some (.interrupted s.id) else none

/-- Sets the cancellation flag; the answer tells whether this was the first time. -/
def cancel (s : Store) : Bool × Store := (!s.cancelled, { s with cancelled := true })

/-- The cells published and not yet released. -/
def contentRemaining (s : Store) : Int := s.slabHead - s.slabTail

/-- The bytes from the released position up to `blobHead`, as far as a circle of the blob's size can
tell them. -/
def bytesUpTo (s : Store) (blobHead : Int) : Int :=
  let used : Int := s.blob.index blobHead - s.blob.index s.blobTail
  if used < 0 then used + s.blob.size else used

/-- Whether a position is at the end mark or after it. -/
def isEnd (s : Store) (position : Int) : Bool := decide (s.endPosition ≤ position)

/-- Notes the positions of the writing side. -/
def noteHead (s : Store) (slab blob : Int) : Store :=
  { s with noted.slabHead := slab, noted.blobHead := blob }

/-- Notes the positions of the reading side. -/
def noteTail (s : Store) (slab blob : Int) : Store :=
  { s with noted.slabTail := slab, noted.blobTail := blob }

/-- Moves every position to one place and forgets the end mark. -/
def moveTo (s : Store) (slab blob : Int) : Store :=
  { s with
    slabHead := slab
    blobHead := blob
    slabTail := slab
    blobTail := blob
    endPosition := noEnd
    noted := ⟨slab, slab, blob, blob⟩ }

/-- Fills both rings with zeros. -/
def clear (s : Store) : Store :=
  { s with slab := .filled s.slab.bits 0, blob := .filled s.blob.bits 0 }

theorem bytesUpTo_eq (s : Store) (blobHead : Int) :
    s.bytesUpTo blobHead = (blobHead - s.blobTail) % s.blob.size := by
  have head := s.blob.natCast_index blobHead
  have tail := s.blob.natCast_index s.blobTail
  have headBelow := s.blob.index_lt blobHead
  have tailBelow := s.blob.index_lt s.blobTail
  have size : s.blob.cells.size = s.blob.size := rfl
  unfold bytesUpTo
  rw [Int.sub_emod blobHead, ← head, ← tail]
  dsimp only
  split
  · rw [← Int.add_emod_right, Int.emod_eq_of_lt (by omega) (by omega)]
  · rw [Int.emod_eq_of_lt (by omega) (by omega)]

theorem isShutdown_shutdown (s : Store) (cause : String) :
    (s.shutdown cause).2.isShutdown = true := by
  unfold shutdown
  split <;> simp_all [isShutdown, report]

end Store

/-- The private state of the writing side. -/
structure Producer where
  /-- The next cell to write. -/
  slabHead : Int
  /-- The next byte to write. -/
  blobHead : Int
  /-- Where the bytes of the current fragment begin. -/
  writeBase : Int
  /-- Up to where the byte counts of finished fragments account for the blob. -/
  counted : Int
  room : RoomCache
  /-- The fragments to finish until the next publication. -/
  countdown : Int
  batch : Int
  /-- The end of the last fragment that a batch held back. -/
  heldSlab : Int
  heldBlob : Int
  /-- The moving average of variable length fields. -/
  average : Int
  /-- Where a partly written fragment can go back to. -/
  markSlab : Int
  markBlob : Int
  /-- Whether a streamed field is open. -/
  fieldOpen : Bool
  lastMessage : Int32
  regulator : Option Regulator
  /-- The delay in nanoseconds that the regulator gave last. -/
  delay : Nat

/-- A fragment that was read but whose release was put off. -/
structure Deferred where
  slabTail : Int
  blobTail : Int
  /-- The bytes of the fragment that are still to release. -/
  length : Int
  deriving DecidableEq, Repr

/-- Where the reading side stood when a replay began. -/
structure Resume where
  slabTail : Int
  blobTail : Int
  readBase : Int
  confirmed : Int
  deriving DecidableEq, Repr

/-- The private state of the reading side. -/
structure Consumer where
  /-- The next cell to read. -/
  slabTail : Int
  /-- The next byte to read. -/
  blobTail : Int
  /-- Where the bytes of the current fragment begin. -/
  readBase : Int
  content : ContentCache
  /-- The fragments to release until the next publication of the tails. -/
  countdown : Int
  batch : Int
  /-- The end of the last fragment whose release a batch held back. -/
  heldSlab : Int
  heldBlob : Int
  /-- The fragments whose release was put off, the oldest first. -/
  deferred : List Deferred
  resume : Resume
  lastMessage : Int32
  regulator : Option Regulator
  /-- The delay in nanoseconds that the regulator gave last. -/
  delay : Nat

/-- A pipe in use: the common store and its two sides. -/
structure Pipe where
  store : Store
  producer : Producer
  consumer : Consumer

namespace Pipe

/-- The two sides take up their work where the store stands. -/
def start (s : Store) : Pipe where
  store := s
  producer :=
    { slabHead := s.slabHead
      blobHead := s.blobHead
      writeBase := s.blobHead
      counted := s.blobHead
      room := .start s.slabHead s.slab.size
      countdown := s.config.publishBatch
      batch := s.config.publishBatch
      heldSlab := s.slabHead
      heldBlob := s.blobHead
      average := 0
      markSlab := s.slabHead
      markBlob := s.blobHead
      fieldOpen := false
      lastMessage := -1
      regulator := none
      delay := 0 }
  consumer :=
    { slabTail := s.slabTail
      blobTail := s.blobTail
      readBase := s.blobTail
      content := .start s.slabTail
      countdown := s.config.releaseBatch
      batch := s.config.releaseBatch
      heldSlab := s.slabTail
      heldBlob := s.blobTail
      deferred := []
      resume := ⟨s.slabTail, s.blobTail, s.blobTail, s.slabTail⟩
      lastMessage := -1
      regulator := none
      delay := 0 }

/-- The schema of the pipe. -/
def schema (p : Pipe) : Schema := p.store.config.schema

/-- Notes an event. -/
def report (p : Pipe) (e : Event) : Pipe := { p with store := p.store.report e }

/-- Shuts the pipe down; the answer tells whether this was the first request. -/
def shutdown (p : Pipe) (cause : String) : Bool × Pipe :=
  ((p.store.shutdown cause).1, { p with store := (p.store.shutdown cause).2 })

/-- Whether the pipe is shut down. -/
def isShutdown (p : Pipe) : Bool := p.store.isShutdown

end Pipe

/-- What a waiting call comes to while the other side stands still. -/
inductive Wait (α : Type) where
  | done (a : α)
  | failed (e : PipeError)
  /-- Nothing but a step of the other side can end the wait. -/
  | blocked
  deriving Repr

end FragmentPipe
