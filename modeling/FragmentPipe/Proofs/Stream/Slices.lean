import FragmentPipe.Proofs.Transfer.Reading

/-!
Fields moved slice by slice. A field of the blob goes out through a small buffer, so it is read in
slices of some size, and into a sink in the two segments that do not go around the ring. Main
statements: `Pipe.readBytesBy_eq` and `Pipe.writeFieldToBy_eq`, the slices make no difference,
whatever their size, not even where the sink fails between them.
-/

namespace FragmentPipe

/-! ## Slices of a run -/

namespace ByteStore

variable {σ : Type} [ByteStore σ]

/-- The slices that are still to read of `length` bytes from a position on after `copied` of them,
each of at most `most` bytes. -/
def slices (s : σ) (position : Int) (most length copied : Nat) : List (List UInt8) :=
  if copied < length ∧ 0 < most then
    let run := min (length - copied) most
    getList s ((position + copied) % wordSpan) run :: slices s position most length (copied + run)
  else []
termination_by length - copied
decreasing_by omega

end ByteStore

theorem Utf8.Folds.getList {σ : Type} [ByteStore σ] {s : σ} (folds : Utf8.Folds s) (p : Int)
    (count : Nat) : ByteStore.getList s (p % wordSpan) count = ByteStore.getList s p count := by
  refine List.map_congr_left fun k _ => ?_
  rw [← folds, Int.emod_add_emod, folds]

/-- The slices are the run, part by part. -/
theorem Utf8.Folds.flatten_slices {σ : Type} [ByteStore σ] {s : σ} (folds : Utf8.Folds s)
    (position : Int) {most : Nat} (positive : 0 < most) (length copied : Nat) :
    (ByteStore.slices s position most length copied).flatten =
      ByteStore.getList s (position + copied) (length - copied) := by
  fun_induction ByteStore.slices s position most length copied with
  | case1 copied more run ih =>
    have parts : length - copied = run + (length - (copied + run)) := by omega
    rw [List.flatten_cons, ih, folds.getList, parts, ByteStore.getList_add, Int.natCast_add,
      Int.add_assoc]
  | case2 copied done =>
    have done : length - copied = 0 := by omega
    rw [done]
    rfl

namespace Ring

/-- The two runs of cells that `length` bytes from a position on lie in: where the first one starts,
how long it is, and how long the second one is, which starts at the first cell. -/
def segments (r : Ring UInt8) (position : Int) (length : Nat) : Nat × Nat × Nat :=
  let start := r.index position
  let first := min length (r.size - start)
  (start, first, length - first)

theorem getList_congr {r : Ring UInt8} {p q : Int}
    (same : p % (r.size : Int) = q % (r.size : Int)) (count : Nat) :
    ByteStore.getList r p count = ByteStore.getList r q count := by
  refine List.map_congr_left fun k _ => ?_
  exact r.get_congr (r.index_eq_iff.mpr (Int.add_emod_eq_add_emod_right _ same))

/-- The segments hold the run: one up to the end of the ring, one from its beginning on. -/
theorem getList_segments (r : Ring UInt8) (position : Int) (length : Nat) :
    ByteStore.getList r position length =
      ByteStore.getList r (r.segments position length).1 (r.segments position length).2.1 ++
        ByteStore.getList r 0 (r.segments position length).2.2 := by
  have inside : r.index position < r.size := r.index_lt position
  have positive : (0 : Int) < r.size := by exact_mod_cast r.size_pos
  have start := r.natCast_index position
  have place : position % (r.size : Int) = (r.index position : Int) % r.size := by
    rw [start, Int.emod_emod]
  unfold segments
  dsimp only
  by_cases around : r.size - r.index position < length
  · have first : min length (r.size - r.index position) = r.size - r.index position := by omega
    have parts : length = (r.size - r.index position) + (length - (r.size - r.index position)) := by
      omega
    have turned : ((r.index position : Int) + (r.size - r.index position : Nat)) % r.size =
        0 % r.size := by
      have whole : (r.index position : Int) + (r.size - r.index position : Nat) = r.size := by omega
      rw [whole, Int.emod_self, Int.zero_emod]
    rw [first, getList_congr place, ← getList_congr turned, ← ByteStore.getList_add, ← parts]
  · have first : min length (r.size - r.index position) = length := by omega
    rw [first, Nat.sub_self, getList_congr place]
    exact (List.append_nil _).symm

/-- Slices of the segments make up the run. -/
theorem flatten_segments {r : Ring UInt8} (folds : Utf8.Folds r) (position : Int) {most : Nat}
    (positive : 0 < most) (length : Nat) :
    (ByteStore.slices r (r.segments position length).1 most (r.segments position length).2.1 0 ++
        ByteStore.slices r 0 most (r.segments position length).2.2 0).flatten =
      ByteStore.getList r position length := by
  rw [List.flatten_append, folds.flatten_slices _ positive, folds.flatten_slices _ positive,
    Int.natCast_zero, Int.add_zero, Int.add_zero, Nat.sub_zero, Nat.sub_zero, ← getList_segments]

end Ring

/-! ## Slices into a sink -/

namespace Sink

/-- Hands pieces to the sink, one after the other, until one is not taken. -/
def writeAll (s : Sink) : List (List UInt8) → Except StreamFault Unit × Sink
  | [] => (.ok (), s)
  | piece :: rest =>
    match s.write piece with
    | (.ok _, s) => s.writeAll rest
    | (.error fault, s) => (.error fault, s)

theorem write_nil (s : Sink) : s.write [] = (.ok (), s) := by
  have nothing : s.takes 0 = 0 := by
    unfold takes
    split
    · rfl
    · exact Nat.zero_min _
  simp [write, nothing]

theorem takes_le (s : Sink) (count : Nat) : s.takes count ≤ count := by
  unfold takes
  split
  · exact Nat.le_refl _
  · exact Nat.min_le_left ..

/-- A sink that takes some bytes takes of more bytes as many as it then has room for. -/
theorem takes_add (s : Sink) (front : List UInt8) (more : Nat) :
    s.takes (front.length + more) =
      if s.takes front.length < front.length then s.takes front.length
      else front.length + ({ s with received := s.received ++ front } : Sink).takes more := by
  unfold takes
  cases s.capacity with
  | none => exact (if_neg (Nat.lt_irrefl _)).symm
  | some capacity =>
    dsimp only
    rw [List.length_append]
    split <;> omega

/-- A sink that takes the first bytes goes on with the others, and one that does not fails there. -/
theorem write_append (s : Sink) (front rest : List UInt8) :
    s.write (front ++ rest) =
      match s.write front with
      | (.ok _, s) => s.write rest
      | (.error fault, s) => (.error fault, s) := by
  have count := s.takes_add front rest.length
  by_cases full : s.takes front.length < front.length
  · rw [if_pos full] at count
    have short : s.takes front.length < front.length + rest.length := by omega
    simp only [write, List.length_append, count, if_pos full, if_pos short,
      List.take_append_of_le_length (Nat.le_of_lt full)]
  · rw [if_neg full] at count
    have all : s.takes front.length = front.length := Nat.le_antisymm (s.takes_le _) (by omega)
    simp only [write, List.length_append, count, all, if_neg (Nat.lt_irrefl front.length),
      List.take_length, List.take_length_add_append, Nat.add_lt_add_iff_left,
      List.append_assoc]

/-- Pieces are taken as their bytes are. -/
theorem writeAll_eq (s : Sink) (pieces : List (List UInt8)) :
    s.writeAll pieces = s.write pieces.flatten := by
  induction pieces generalizing s with
  | nil => exact s.write_nil.symm
  | cons piece rest ih =>
    rw [writeAll, List.flatten_cons, write_append]
    simp only [ih]

/-- A sink takes the bytes if it takes as many as there are, and fails if it does not. -/
theorem write_eq (s : Sink) (bytes : List UInt8) : s.write bytes =
    if s.takes bytes.length = bytes.length then
      (.ok (), { s with received := s.received ++ bytes })
    else (.error .sinkFull,
      { s with received := s.received ++ bytes.take (s.takes bytes.length) }) := by
  have most := s.takes_le bytes.length
  rw [write]
  by_cases all : s.takes bytes.length = bytes.length
  · rw [if_pos all, all, if_neg (Nat.lt_irrefl _), List.take_length]
  · rw [if_neg all, if_pos (by omega)]

end Sink

/-! ## Fields -/

namespace Pipe

/-- Reads the bytes of a field through a buffer of `most` bytes. -/
def readBytesBy (most : Nat) (p : Pipe) (d : Descriptor) : (Nat × List UInt8) × Pipe :=
  if d.length ≤ 0 then ((0, []), p)
  else
    match d.origin with
    | .constants offset => ((d.size, (p.constantBytes offset d.length).toList), p)
    | .blob offset =>
      let (position, q) := p.locate offset d.length
      ((d.size, (ByteStore.slices p.store.blob position most d.size 0).flatten), q)

/-- Reads the next field into a sink, each segment through a buffer of `most` bytes. -/
def writeFieldToBy (most : Nat) (p : Pipe) (sink : Sink) : Except PipeError Int × Sink × Pipe :=
  let (d, p) := p.takeDescriptor
  if d.length ≤ 0 then (.ok d.length, sink, p)
  else
    let (pieces, p) :=
      match d.origin with
      | .constants offset => ([(p.constantBytes offset d.length).toList], p)
      | .blob offset =>
        let (position, q) := p.locate offset d.length
        let (start, first, second) := p.store.blob.segments position d.size
        (ByteStore.slices p.store.blob start most first 0 ++
          ByteStore.slices p.store.blob 0 most second 0, q)
    let (written, sink) := sink.writeAll pieces
    ((written.mapError PipeError.stream).map fun _ => d.length, sink, p)

variable {p : Pipe} {most : Nat}

theorem locate_fst (p : Pipe) (offset length : Int) :
    (p.locate offset length).1 = p.restorePosition offset := by
  unfold locate
  dsimp only
  split <;> rfl

/-- Slices of any size make up the bytes of a field. -/
theorem readBytesBy_eq (turn : (p.store.blob.size : Int) ∣ wordSpan) (positive : 0 < most) (d : Descriptor) :
    p.readBytesBy most d = p.readBytes d := by
  have folds : Utf8.Folds p.store.blob := folds_ring turn
  unfold readBytesBy readBytes fieldBytes passField
  cases d.origin with
  | constants offset => rfl
  | blob offset =>
    have whole := folds.flatten_slices (p.restorePosition offset) positive d.size 0
    rw [Int.natCast_zero, Int.add_zero, Nat.sub_zero] at whole
    simp only [locate_fst, whole]

/-- Nor does it matter to a sink that a field comes in segments and slices. -/
theorem writeFieldToBy_eq (turn : (p.store.blob.size : Int) ∣ wordSpan) (positive : 0 < most)
    (sink : Sink) : p.writeFieldToBy most sink = p.writeFieldTo sink := by
  have same : (p.takeDescriptor.2.store.blob.size : Int) ∣ wordSpan := by
    rw [takeDescriptor_snd]
    exact turn
  unfold writeFieldToBy writeFieldTo fieldBytes passField
  generalize p.takeDescriptor = taken at same ⊢
  obtain ⟨⟨origin, length⟩, q⟩ := taken
  have folds : Utf8.Folds q.store.blob := folds_ring same
  by_cases absent : length ≤ 0
  · simp only [if_pos absent]
  · simp only [if_neg absent, Sink.writeAll_eq]
    cases origin with
    | constants offset =>
      rw [List.flatten_cons, List.flatten_nil, List.append_nil]
      cases sink.write (q.constantBytes offset length).toList with
      | mk answer sink => cases answer <;> rfl
    | blob offset =>
      dsimp only
      rw [locate_fst, Ring.flatten_segments folds _ positive]
      cases sink.write (ByteStore.getList q.store.blob (q.restorePosition offset) _) with
      | mk answer sink => cases answer <;> rfl

end Pipe

end FragmentPipe
