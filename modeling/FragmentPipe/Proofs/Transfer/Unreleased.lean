import FragmentPipe.Proofs.Transfer.Batching

/-!
The bytes that are not yet released, as a stretch of the blob. `Pipe.Unreleased` says that they lie
from one position up to the one where the writer stands; the positions of the pipe name only cells of
the ring, so they tell the stretch up to whole turns. Main statement: `unreleased_of_reaches`, in every
run the stretch goes from the last fragment that is given back to the last byte written.
-/

namespace FragmentPipe

/-- The bytes from `released` up to `reached` are those that are not yet released. -/
structure Pipe.Unreleased (p : Pipe) (released reached : Int) : Prop where
  le : released ≤ reached
  tail : p.store.blobTail % (p.store.blob.size : Int) = released % (p.store.blob.size : Int)
  head : p.producer.blobHead % (p.store.blob.size : Int) = reached % (p.store.blob.size : Int)

/-- Blob positions go around a ring that a pipe may have a whole number of times. -/
theorem Ring.size_dvd_blobSpan {r : Ring UInt8} (small : r.bits ≤ maxBits) :
    (r.size : Int) ∣ blobSpan := by
  have whole : blobSpan = ((1 <<< 31 : Nat) : Int) := by decide
  rw [whole]
  exact r.size_dvd (Nat.le_succ_of_le small)

namespace Pipe.Unreleased

variable {p q : Pipe} {released reached : Int}

/-- The stretch grows as the blob head moves. -/
theorem advance (u : p.Unreleased released reached) (turn : (p.store.blob.size : Int) ∣ blobSpan)
    {count : Nat} (size : q.store.blob.size = p.store.blob.size)
    (tail : q.store.blobTail = p.store.blobTail)
    (head : q.producer.blobHead = (p.producer.blobHead + count) % blobSpan) :
    q.Unreleased released (reached + count) := by
  have le := u.le
  refine ⟨by omega, ?_, ?_⟩
  · rw [tail, size]
    exact u.tail
  · rw [head, size, Int.emod_emod_of_dvd _ turn]
    exact Int.add_emod_eq_add_emod_right _ u.head

end Pipe.Unreleased

namespace Session

variable {s : Session}

/-- The stretch in a session: from the first fragment that is not given back to the last byte of the
fragment that is being written. -/
theorem Batched.unreleased {publish release n k : Nat} (b : s.Batched publish release n k) :
    s.pipe.Unreleased (s.blobAt s.released) (s.blobAt s.written.length + s.current.taken) := by
  have released := s.blobAt_mono b.recorded.aligned.released_le
  refine ⟨by omega, b.tail.given, ?_⟩
  rw [b.recorded.blob.head, Int.emod_emod_of_dvd _ b.recorded.turn]

theorem unreleased_of_reaches {registry : Registry} {config : Config} {slab blob : Int} {p : Pipe}
    (prepared : registry.Prepares config slab blob p) {rule : Session → Action → Prop}
    (run : Reaches rule (Session.start p) s) :
    s.pipe.Unreleased (s.blobAt s.released) (s.blobAt s.written.length + s.current.taken) := by
  obtain ⟨n, k, counted⟩ := tallied_of_reaches run
  exact ((batched_of_prepares prepared).of_tallied counted).unreleased

end Session

/-! ## A pipe that one message can fill -/

/-- Messages of one field of bytes. -/
def noteSchema : Schema where
  name := "Notes"
  fragments := [⟨"Note", [.bytes], true⟩]
  absentInt := Schema.defaultAbsentInt
  absentLong := Schema.defaultAbsentLong
  hasMessage := rfl

/-- Rings of 8 cells and 64 bytes, and batches of one. -/
def noteConfig : Config := ⟨noteSchema, 3, 6, #[], 1, 1, by decide, by decide⟩

/-- The pipe in use. -/
def notePipe : Pipe := .start ((Store.empty 0 noteConfig false).moveTo 0 0)

theorem open?_note : Registry.empty.open? noteConfig 0 0 = some notePipe := by
  rfl

/-- A message with so many bytes is published, and the next one is started. -/
def noteSample (count : Nat) : List Action :=
  [.begin .waiting 0, .put (.entry (.content (.bytes (List.replicate count 1)))), .confirm, .publish,
    .begin .waiting 0]

end FragmentPipe
