import FragmentPipe.Proofs.Transfer.Fifo

/-!
Where the reader stands in the blob. A field of the blob moves the blob position of the reader by
its bytes, a reference to the constants does not. So within a fragment the position follows from the
fields that are taken, and at the end of the fragment from the count that stands there. Main
statements: `takeField_blobTail` of one field, and `passing_of_reaches` of every run.
-/

namespace FragmentPipe

/-! ## One field -/

/-- How far the field moves the blob position. -/
def Descriptor.moves (d : Descriptor) : Nat :=
  match d.origin with
  | .blob _ => d.size
  | .constants _ => 0

theorem Descriptor.moves_eq_zero {d : Descriptor} (absent : d.length ≤ 0) : d.moves = 0 := by
  unfold moves
  split
  · exact Int.toNat_eq_zero.mpr absent
  · rfl

/-- A field that was written moves the blob position by the bytes that it takes. -/
theorem Content.moves_descriptor {constants : Buffer} {c : Content} (sound : c.Sound constants)
    (offset : Int) : (c.descriptor offset).moves = (Entry.content c).taken := by
  cases checked : c.checked? with
  | some length =>
    have told := sound.told length checked
    have blob : (c.descriptor offset).moves = c.length.toNat := by
      cases c with
      | constant start count => cases checked
      | _ => rfl
    rw [blob, length_eq_of_checked checked, told]
    show (min (c.bytesIn.length : Int) Pipe.maxInt).toNat = min c.bytesIn.length 0x7FFFFFFF
    unfold Pipe.maxInt
    omega
  | none =>
    rw [Entry.taken_eq_of_bytesIn (e := .content c) (sound.bare checked)]
    cases c with
    | constant start count => rfl
    | _ =>
      refine Descriptor.moves_eq_zero ?_
      simp only [descriptor, length, checked, Option.getD_none]
      decide

namespace Pipe

variable {p : Pipe} {d : Descriptor}

theorem locate_blobTail (p : Pipe) (offset length : Int) :
    (p.locate offset length).2.consumer.blobTail % (p.store.blob.size : Int) =
      (p.consumer.blobTail + length.toNat) % (p.store.blob.size : Int) := by
  unfold locate
  dsimp only
  split
  · next present => rw [Int.emod_emod, Int.toNat_of_nonneg present, Int.add_comm]
  · next absent =>
    rw [Int.toNat_eq_zero.mpr (by omega)]
    exact congrArg (· % _) (Int.add_zero _).symm

theorem passField_blobTail (p : Pipe) (d : Descriptor) :
    (p.passField d).consumer.blobTail % (p.store.blob.size : Int) =
      (p.consumer.blobTail + d.moves) % (p.store.blob.size : Int) := by
  unfold passField Descriptor.moves
  cases d.origin with
  | constants offset => exact congrArg (· % _) (Int.add_zero _).symm
  | blob offset => exact p.locate_blobTail offset d.length

/-- A field without bytes is where the reader stands already. -/
theorem blobTail_of_absent (absent : d.length ≤ 0) :
    p.consumer.blobTail % (p.store.blob.size : Int) =
      (p.consumer.blobTail + d.moves) % (p.store.blob.size : Int) := by
  rw [Descriptor.moves_eq_zero absent]
  exact congrArg (· % _) (Int.add_zero _).symm

theorem readBytes_blobTail (p : Pipe) (d : Descriptor) :
    (p.readBytes d).2.consumer.blobTail % (p.store.blob.size : Int) =
      (p.consumer.blobTail + d.moves) % (p.store.blob.size : Int) := by
  unfold readBytes
  split
  · next absent => exact blobTail_of_absent absent
  · exact p.passField_blobTail d

theorem readLowBytes_blobTail (p : Pipe) (d : Descriptor) :
    (p.readLowBytes d).2.consumer.blobTail % (p.store.blob.size : Int) =
      (p.consumer.blobTail + d.moves) % (p.store.blob.size : Int) := p.readBytes_blobTail d

theorem readUtf8_blobTail (p : Pipe) (d : Descriptor) :
    (p.readUtf8 d).2.consumer.blobTail % (p.store.blob.size : Int) =
      (p.consumer.blobTail + d.moves) % (p.store.blob.size : Int) := by
  unfold readUtf8
  split
  · next absent => exact blobTail_of_absent absent
  · exact p.passField_blobTail d

/-- Whatever a field is read as, it is passed if it is present. -/
theorem readPresent_blobTail {α : Type} {read : Pipe → Descriptor → (Nat × α) × Pipe}
    (passes : ∀ p d, (read p d).2.consumer.blobTail % (p.store.blob.size : Int) =
      (p.consumer.blobTail + d.moves) % (p.store.blob.size : Int)) (p : Pipe) (d : Descriptor) :
    (readPresent read p d).2.consumer.blobTail % (p.store.blob.size : Int) =
      (p.consumer.blobTail + d.moves) % (p.store.blob.size : Int) := by
  unfold readPresent
  split
  · next absent => exact blobTail_of_absent (Int.le_of_lt absent)
  · exact passes p d

/-- A field of variable length is passed, whatever it is taken as. -/
theorem takeField_blobTail_variable {kind : FieldKind} (isVariable : kind.isVariable = true) :
    (p.takeField kind).2.consumer.blobTail % (p.store.blob.size : Int) =
      (p.consumer.blobTail + p.takeDescriptor.1.moves) % (p.store.blob.size : Int) := by
  cases kind with
  | bytes => exact readPresent_blobTail readBytes_blobTail p.takeDescriptor.2 p.takeDescriptor.1
  | ascii =>
    exact readPresent_blobTail readLowBytes_blobTail p.takeDescriptor.2 p.takeDescriptor.1
  | utf8 => exact readPresent_blobTail readUtf8_blobTail p.takeDescriptor.2 p.takeDescriptor.1
  | _ => cases isVariable

/-- The descriptor of a field that was written moves the blob position by the bytes of the field. -/
theorem moves_takeDescriptor {c : Content} {offset : Nat}
    (cells : p.store.slab.Holds p.consumer.slabTail
      ((Entry.content c).cells p.schema ((offset : Int) % blobSpan)))
    (sound : (Entry.content c).Sound p.store.config.constants) :
    p.takeDescriptor.1.moves = (Entry.content c).taken := by
  have descriptor : p.takeDescriptor.1 = c.descriptor ((offset : Int) % blobSpan) := by
    rw [takeDescriptor_of_cells cells]
    exact Content.ofCells_descriptor sound (Int.emod_nonneg _ (by decide))
      (Int.emod_lt_of_pos _ (by decide))
  rw [descriptor, Content.moves_descriptor sound]

/-- Taking a field that was written moves the blob position by the bytes that the field takes. -/
theorem takeField_blobTail {e : Entry} {kind : FieldKind} {offset : Nat} (fits : e.fits kind = true)
    (cells : p.store.slab.Holds p.consumer.slabTail (e.cells p.schema ((offset : Int) % blobSpan)))
    (sound : e.Sound p.store.config.constants) :
    (p.takeField kind).2.consumer.blobTail % (p.store.blob.size : Int) =
      (p.consumer.blobTail + e.taken) % (p.store.blob.size : Int) := by
  cases e with
  | scalar v =>
    have still : (p.takeField kind).2.consumer.blobTail = p.consumer.blobTail := by
      cases v <;> cases kind <;> first | rfl | cases fits
    rw [still]
    exact congrArg (· % _) (Int.add_zero _).symm
  | content c => rw [takeField_blobTail_variable fits, moves_takeDescriptor cells sound]

end Pipe

/-! ## Runs -/

namespace Session

/-- The bytes of the fields that the reader has taken of its fragment. -/
def passedBytes (s : Session) : Nat :=
  match s.reading, s.next? with
  | some c, some w => ((w.entries.take c.fields.length).map Entry.taken).sum
  | _, _ => 0

/-- The blob position of the reader is behind the bytes that it has passed, on the circle of the
blob. -/
def Passing (s : Session) : Prop :=
  s.pipe.consumer.blobTail % (s.pipe.store.blob.size : Int) =
    (s.blobAt s.received.length + s.passedBytes) % (s.pipe.store.blob.size : Int)

variable {s t : Session} {a : Action}

theorem passedBytes_of_idle (idle : s.reading = none) : s.passedBytes = 0 := by
  rw [passedBytes, idle]

theorem passedBytes_of_reading {c : Reading} {w : Written} (reading : s.reading = some c)
    (next : s.next? = some w) :
    s.passedBytes = ((w.entries.take c.fields.length).map Entry.taken).sum := by
  rw [passedBytes, reading, next]

/-- Between fragments the reader is at the end of those that it has received. -/
theorem Passing.of_idle (idle : s.reading = none)
    (here : s.pipe.consumer.blobTail % (s.pipe.store.blob.size : Int) =
      s.blobAt s.received.length % (s.pipe.store.blob.size : Int)) : s.Passing := by
  rw [Passing, passedBytes_of_idle idle, here]
  exact congrArg (· % _) (Int.add_zero _).symm

theorem Passing.idle (h : s.Passing) (idle : s.reading = none) :
    s.pipe.consumer.blobTail % (s.pipe.store.blob.size : Int) =
      s.blobAt s.received.length % (s.pipe.store.blob.size : Int) := by
  rw [Passing, passedBytes_of_idle idle] at h
  exact h.trans (congrArg (· % _) (Int.add_zero _))

/-- The writer does not move the reader, nor the fragments that it has before it. -/
theorem Passing.of_written (h : s.Passing) (aligned : s.Aligned) (change : s.WriterChange a t) :
    t.Passing := by
  have side := change.sameReader
  have size := (Change.sameCapacity (.inl change)).blob
  have same := (aligned.front (.inl change)).2
  have place := blobAt_eq_of_take side.blobStart same aligned.2.received_le
  have passed : t.passedBytes = s.passedBytes := by
    cases reading : s.reading with
    | none => rw [passedBytes_of_idle reading, passedBytes_of_idle (side.reading.trans reading)]
    | some c =>
      have behind := aligned.2.received_lt (by rw [reading]; rfl)
      have next : t.next? = s.next? := by
        rw [next?, next?, side.received]
        exact getElem?_eq_of_take same behind
      rw [passedBytes, passedBytes, side.reading, next]
  unfold Passing at h ⊢
  rw [side.consumer, size, side.received, place, passed]
  exact h

theorem Passing.of_read (h : s.Passing) (recorded : s.Recorded) (change : s.ReaderChange a t)
    (after : t.Recorded) : t.Passing := by
  cases change with
  | looked => exact h
  | @opened w seen idle next =>
    have here := h.idle idle
    have found : s.written[s.received.length]? = some w := next
    have stays (p : Pipe) (number : Option Int32)
        (stands : p.consumer.blobTail % (p.store.blob.size : Int) =
          s.blobAt s.received.length % (p.store.blob.size : Int)) :
        Passing { s with pipe := p, reading := some ⟨number, [], false⟩ } := by
      let t : Session := { s with pipe := p, reading := some ⟨number, [], false⟩ }
      have fresh : t.passedBytes = 0 := passedBytes_of_reading (s := t) rfl found
      rw [Passing, fresh]
      exact stands.trans (congrArg (· % _) (Int.add_zero _).symm)
    unfold openNext
    split
    · exact stays _ _ here
    · exact stays _ _ here
  | @took c w e kind reading next entry fits =>
    have cells := recorded.cells_of_reading reading next entry
    have sound := recorded.sound.written w (List.mem_of_getElem? next) e (List.mem_of_getElem? entry)
    have tail := Pipe.takeField_blobTail fits cells sound
    have one : (s.takeNext c kind).passedBytes = s.passedBytes + e.taken := by
      have after : (s.takeNext c kind).next? = some w := next
      rw [passedBytes_of_reading reading next, passedBytes_of_reading rfl after]
      simp only [List.length_append, List.length_cons, List.length_nil, Nat.zero_add,
        List.take_add_one, entry, Option.toList_some, List.map_append, List.map_cons, List.map_nil,
        List.sum_append, List.sum_cons, List.sum_nil, Nat.add_zero]
    have size : (s.takeNext c kind).pipe.store.blob.size = s.pipe.store.blob.size :=
      (Change.sameCapacity (.inr (.took reading next entry fits))).blob
    unfold Passing at h ⊢
    rw [size, one]
    show (s.pipe.takeField kind).2.consumer.blobTail % _ = (s.blobAt s.received.length + _) % _
    rw [tail, Int.natCast_add, ← Int.add_assoc]
    exact Int.add_emod_eq_add_emod_right _ h
  | @passed c w reading next =>
    let t : Session := { s with
      pipe := s.pipe.confirmRead w.size
      reading := some { c with confirmed := true } }
    have same : t.passedBytes = s.passedBytes := by
      rw [passedBytes_of_reading reading next]
      exact passedBytes_of_reading (s := t) (c := { c with confirmed := true }) rfl next
    unfold Passing at h ⊢
    rw [same]
    exact h
  | @released c reading closed =>
    refine .of_idle rfl ?_
    obtain ⟨_, _, _, _, _, _, moved⟩ := s.pipe.takeByteCount.2.releaseBatched_eq
      s.pipe.takeByteCount.2.consumer.slabTail s.pipe.takeByteCount.2.consumer.blobTail
    have released : (s.releaseNext c).pipe = _ := moved
    have tail : (s.releaseNext c).pipe.consumer.blobTail =
        (s.releaseNext c).pipe.consumer.readBase := by
      rw [released]
      rfl
    rw [tail]
    exact after.base
  | flushedReleased =>
    obtain ⟨_, _, moved⟩ := s.pipe.flushReleased_eq
    rw [moved]
    exact h
  | releasedToHere idle => exact h

theorem Passing.change (h : s.Passing) (recorded : s.Recorded) (change : s.Change a t) :
    t.Passing := by
  have after := recorded.change change
  rcases change with writes | reads
  · exact h.of_written recorded.aligned writes
  · exact h.of_read recorded reads after

theorem passing_start {store : Store} (same : store.blobTail = store.blobHead) :
    (Session.start (.start store)).Passing := by
  have first : (Session.start (.start store)).blobAt 0 = store.blobHead := Int.add_zero _
  refine .of_idle rfl ?_
  show store.blobTail % (store.blob.size : Int) = (Session.start (.start store)).blobAt 0 % _
  rw [first, same]
  rfl

theorem passing_of_open? {registry : Registry} {config : Config} {slab blob : Int} {p : Pipe}
    (opened : registry.open? config slab blob = some p) : (Session.start p).Passing := by
  rw [Registry.eq_of_open? opened]
  exact passing_start rfl

/-- Throughout every run the reader is behind the bytes that it has passed. -/
theorem passing_of_reaches {rule : Session → Action → Prop} (first : s.Recorded) (here : s.Passing)
    (run : Reaches rule s t) : t.Passing := by
  induction run with
  | refl => exact here
  | step run _ call ih =>
    exact ih.change (recorded_of_reaches first run) (change_of_step call)

end Session

end FragmentPipe
