import FragmentPipe.Proofs.Transfer.Batching
import FragmentPipe.Proofs.Transfer.SlabSafety

/-!
Slab positions as 64 bit words. All positions that the two sides work with lie between the start of
the run, less one turn of the slab, and the writer's head: what a side remembers it once saw the other
side, or itself, stand at. Main statement: `slab_sums_exact`, so no sum of a position and a size leaves
the words before the writer comes within one turn of their end.
-/

namespace FragmentPipe

/-- The slab positions that both sides of a pipe work with. What is kept in a mark, in a release that
is put off or at the beginning of a replay was one of them. -/
def Pipe.slabPositions (p : Pipe) : List Int :=
  [p.store.slabTail, p.consumer.slabTail, p.store.slabHead, p.producer.slabHead,
    p.producer.heldSlab, p.producer.room.tailSeen, p.producer.room.target,
    p.consumer.heldSlab, p.consumer.content.headSeen, p.consumer.content.confirmed]

namespace Session

variable {s t : Session} {a : Action}

/-! ## What a side remembers -/

/-- What a side remembers after a call it remembered before, or it is where a side stands. -/
structure Remembers (s t : Session) : Prop where
  tailSeen : t.pipe.producer.room.tailSeen = s.pipe.producer.room.tailSeen ∨
    t.pipe.producer.room.tailSeen = s.pipe.store.slabTail
  heldHead : t.pipe.producer.heldSlab = s.pipe.producer.heldSlab ∨
    t.pipe.producer.heldSlab = t.pipe.producer.slabHead
  headSeen : t.pipe.consumer.content.headSeen = s.pipe.consumer.content.headSeen ∨
    t.pipe.consumer.content.headSeen = s.pipe.store.slabHead
  heldTail : t.pipe.consumer.heldSlab = s.pipe.consumer.heldSlab ∨
    t.pipe.consumer.heldSlab = t.pipe.consumer.slabTail

theorem WriterChange.remembers (change : s.WriterChange a t) : s.Remembers t := by
  cases change with
  | asked sees => exact ⟨sees, .inl rfl, .inl rfl, .inl rfl⟩
  | begun _ _ _ sees => exact ⟨sees, .inl rfl, .inl rfl, .inl rfl⟩
  | nested _ _ _ sees => exact ⟨sees, .inl rfl, .inl rfl, .inl rfl⟩
  | published =>
    by_cases complete : s.pipe.producer.countdown - 1 ≤ 0
    · rw [Pipe.publishBatched_of_complete (p := s.pipe.putByteCount) complete]
      exact ⟨.inl rfl, .inl rfl, .inl rfl, .inl rfl⟩
    · rw [Pipe.publishBatched_of_partial (p := s.pipe.putByteCount) complete]
      exact ⟨.inl rfl, .inr rfl, .inl rfl, .inl rfl⟩
  | flushed =>
    obtain ⟨_, _, moved⟩ := s.pipe.flushPublished_eq
    rw [moved]
    exact ⟨.inl rfl, .inl rfl, .inl rfl, .inl rfl⟩
  | abandoned => exact ⟨.inl rfl, .inr rfl, .inl rfl, .inl rfl⟩
  | finished => exact ⟨.inl rfl, .inr rfl, .inl rfl, .inl rfl⟩
  | _ => exact ⟨.inl rfl, .inl rfl, .inl rfl, .inl rfl⟩

theorem ReaderChange.remembers (change : s.ReaderChange a t) : s.Remembers t := by
  cases change with
  | looked sees => exact ⟨.inl rfl, .inl rfl, sees, .inl rfl⟩
  | opened _ _ sees =>
    unfold openNext
    split
    · exact ⟨.inl rfl, .inl rfl, sees, .inl rfl⟩
    · exact ⟨.inl rfl, .inl rfl, sees, .inl rfl⟩
  | @took c w e kind =>
    obtain ⟨_, _, moved⟩ := s.pipe.takeField_eq kind
    unfold takeNext
    dsimp only
    rw [moved]
    exact ⟨.inl rfl, .inl rfl, .inl rfl, .inl rfl⟩
  | passed => exact ⟨.inl rfl, .inl rfl, .inl rfl, .inl rfl⟩
  | @released c =>
    have released : (s.releaseNext c).pipe = s.pipe.takeByteCount.2.releaseBatched
      s.pipe.takeByteCount.2.consumer.slabTail s.pipe.takeByteCount.2.consumer.blobTail := rfl
    by_cases complete : s.pipe.consumer.countdown - 1 ≤ 0
    · rw [Pipe.releaseBatched_of_complete (p := s.pipe.takeByteCount.2) complete] at released
      exact ⟨.inl (congrArg (·.producer.room.tailSeen) released),
        .inl (congrArg (·.producer.heldSlab) released),
        .inl (congrArg (·.consumer.content.headSeen) released),
        .inl (congrArg (·.consumer.heldSlab) released)⟩
    · rw [Pipe.releaseBatched_of_partial (p := s.pipe.takeByteCount.2) complete] at released
      have stands : (s.releaseNext c).pipe.consumer.slabTail =
          s.pipe.takeByteCount.2.consumer.slabTail := congrArg (·.consumer.slabTail) released
      exact ⟨.inl (congrArg (·.producer.room.tailSeen) released),
        .inl (congrArg (·.producer.heldSlab) released),
        .inl (congrArg (·.consumer.content.headSeen) released),
        .inr ((congrArg (·.consumer.heldSlab) released).trans stands.symm)⟩
  | flushedReleased =>
    obtain ⟨_, _, moved⟩ := s.pipe.flushReleased_eq
    rw [moved]
    exact ⟨.inl rfl, .inl rfl, .inl rfl, .inl rfl⟩
  | releasedToHere => exact ⟨.inl rfl, .inl rfl, .inl rfl, .inr rfl⟩

theorem Change.remembers (change : s.Change a t) : s.Remembers t := by
  rcases change with writes | reads
  · exact writes.remembers
  · exact reads.remembers

/-! ## Between the start and the writer -/

theorem start_le_slabAt (s : Session) (k : Nat) : s.slabStart ≤ s.slabAt k := by
  rw [← s.slabAt_zero]
  exact s.slabAt_mono (Nat.zero_le k)

/-- What a side remembers does not lie before the start. -/
structure SinceStart (s : Session) : Prop where
  tailSeen : s.slabStart ≤ s.pipe.producer.room.tailSeen
  heldHead : s.slabStart ≤ s.pipe.producer.heldSlab
  headSeen : s.slabStart ≤ s.pipe.consumer.content.headSeen
  heldTail : s.slabStart ≤ s.pipe.consumer.heldSlab

theorem SinceStart.change (since : s.SinceStart) (aligned : s.Aligned) (change : s.Change a t) :
    t.SinceStart := by
  have start := change.sameCapacity.slabStart
  obtain ⟨tailSeen, heldHead, headSeen, heldTail⟩ := change.remembers
  obtain ⟨tailSince, headSince, seenSince, givenSince⟩ := since
  have tail := s.start_le_slabAt s.released
  have visible := s.start_le_slabAt s.published
  have given := aligned.2.given
  have shown := aligned.1.visible
  obtain ⟨writer, reader⟩ := (aligned.change change).1
  have head := writer.head
  have reads := reader.tail
  have written := t.start_le_slabAt t.written.length
  have received := t.start_le_slabAt t.received.length
  constructor
  · omega
  · omega
  · omega
  · omega

/-- The reader has confirmed no cells that are not published. -/
theorem Aligned.confirmed_le (aligned : s.Aligned) :
    s.pipe.consumer.content.confirmed ≤ s.pipe.store.slabHead := by
  obtain ⟨writer, reader⟩ := aligned
  have confirmed := reader.confirmed
  have visible := writer.visible
  cases reading : s.reading with
  | none =>
    have here := s.slabAt_mono reader.received_le
    have stands := (reader.idle reading).2
    omega
  | some c =>
    obtain ⟨w, next⟩ := reader.next writer reading
    have behind : s.slabAt (s.received.length + 1) ≤ s.slabAt s.published :=
      s.slabAt_mono (reader.received_lt (by rw [reading]; rfl))
    have place := slabAt_succ next
    simp only [readCells, reading, next] at confirmed
    split at confirmed
    · omega
    · omega

/-- Every position that a side works with lies between the start, less one turn, and the working
head. -/
theorem SinceStart.between {z : Int} (since : s.SinceStart) (aligned : s.Aligned)
    (kept : z ∈ s.pipe.slabPositions) :
    s.slabStart - s.pipe.store.slab.size ≤ z ∧ z ≤ s.pipe.producer.slabHead := by
  obtain ⟨tailSince, headSince, seenSince, givenSince⟩ := since
  have working := aligned.within
  have confirmed := aligned.confirmed_le
  have visible := aligned.tail_le_visible
  have head := aligned.visible_le_head
  obtain ⟨writer, reader⟩ := aligned
  have tail := s.start_le_slabAt s.released
  have written := s.start_le_slabAt s.written.length
  have received := s.start_le_slabAt s.received.length
  have below := s.slabAt_mono (Nat.le_trans reader.received_le writer.visible_le)
  have given := reader.given
  have stands := writer.head
  have read := reader.confirmed
  have target := writer.target
  have admitted := writer.admitted
  have seen := writer.seen
  have found := reader.seen
  have shown := writer.visible
  have heldHead := writer.held_le
  have heldTail := reader.held_le
  have reserved : s.confirmedCells ≤ s.reserved := by
    unfold confirmedCells reserved
    cases s.draft with
    | none => exact Nat.le_refl _
    | some d =>
      show (if d.confirmed then d.fragment.size else 0) ≤ d.fragment.size
      split
      · exact Nat.le_refl _
      · exact Nat.zero_le _
  simp only [Pipe.slabPositions, List.mem_cons, List.not_mem_nil, or_false] at kept
  rcases kept with rfl | rfl | rfl | rfl | rfl | rfl | rfl | rfl | rfl | rfl
  all_goals omega

theorem sinceStart_of_reaches {rule : Session → Action → Prop} (since : s.SinceStart)
    (aligned : s.Aligned) (run : Reaches rule s t) : t.SinceStart ∧ t.Aligned := by
  induction run with
  | refl => exact ⟨since, aligned⟩
  | step _ _ call ih =>
    have change := change_of_step call
    exact ⟨ih.1.change ih.2 change, (ih.2.change change).1⟩

end Session

/-- Words of 64 bits are as good as slab positions. In every run of a prepared pipe that starts two
turns of the largest slab after the least word, while the writer is one such turn short of the largest
word: the sum of a position that a side works with and any number of cells up to the size of the slab,
forwards or backwards, is the same in words as in numbers. -/
theorem slab_sums_exact {registry : Registry} {config : Config} {slab blob : Int} {p : Pipe}
    {s : Session} {z cells : Int} (prepared : registry.Prepares config slab blob p)
    (run : Reaches anyCall (Session.start p) s)
    (low : 2 * (1 <<< maxBits : Nat) - noEnd ≤ slab)
    (high : s.pipe.producer.slabHead + (1 <<< maxBits : Nat) ≤ noEnd)
    (kept : z ∈ s.pipe.slabPositions) (turn : cells.natAbs ≤ config.slabSize) :
    (Int64.ofInt z + Int64.ofInt cells).toInt = z + cells := by
  have first := (Session.batched_of_prepares prepared).recorded.aligned
  have same := Session.sameCapacity_of_reaches run
  have small := config.slabSize_le
  obtain ⟨start, size, since⟩ : (Session.start p).slabStart = slab ∧
      (Session.start p).pipe.store.slab.size = config.slabSize ∧ (Session.start p).SinceStart := by
    obtain ⟨q, publish, release, events, opened, rfl⟩ := prepared.eq_inBatches
    rw [Registry.eq_of_open? opened]
    exact ⟨rfl, Ring.size_filled _ _,
      ⟨Int.le_refl _, Int.le_refl _, Int.le_refl _, Int.le_refl _⟩⟩
  obtain ⟨since, aligned⟩ := Session.sinceStart_of_reaches since first run
  obtain ⟨least, most⟩ := since.between aligned kept
  rw [same.slabStart, same.slab, start, size] at least
  rw [← Int64.ofInt_add]
  unfold noEnd at low high
  exact Int64.toInt_ofInt_of_le (by omega) (by omega)

end FragmentPipe
