import FragmentPipe.Proofs.Transfer.Regular

/-!
A pipe under a load it was made for. The fragments that are not given back lie in the slab, whose
cells bound their variable length fields; fields of at most the limit for the moving average then
never fill the blob, and none of them is refused. Main statement: `capacity_suffices`.
-/

namespace FragmentPipe

/-- Every field is the next one of the schema and asks for at most `limit` bytes. -/
def sized (limit : Nat) (s : Session) (a : Action) : Prop :=
  following s a ∧ a.OnPut fun w => w.asked ≤ limit

instance (limit : Nat) (s : Session) (a : Action) : Decidable (sized limit s a) :=
  inferInstanceAs (Decidable (_ ∧ _))

/-- A limit that the moving average may reach leaves room for that many bytes in every place of the
slab. -/
theorem Config.mul_varFieldsInSlab_le {c : Config} {limit : Nat} (small : limit ≤ c.maxAverage) :
    limit * c.schema.varFieldsInSlab c.slabBits ≤ c.blobSize := by
  unfold maxAverage at small
  split at small
  · have zero : limit = 0 := Nat.le_zero.mp small
    rw [zero, Nat.zero_mul]
    exact Nat.zero_le _
  · exact (Nat.le_div_iff_mul_le (c.schema.varFieldsInSlab_pos _)).mp small

namespace Session

variable {s t : Session} {limit : Nat}

/-! ## The load -/

/-- What is written follows the schema, no field is longer than the limit, and the moving average is
not above it. -/
structure LoadAt (s : Session) (limit : Nat) : Prop where
  short : s.Every fun e => e.bytesIn.length ≤ limit
  regular : s.Regular
  average : 0 ≤ s.pipe.producer.average ∧ s.pipe.producer.average ≤ limit

/-- The bytes that are not given back fit the blob. -/
theorem LoadAt.unreleasedBytes_le (l : s.LoadAt limit) (aligned : s.Aligned)
    (size : s.pipe.store.slab.size = s.pipe.store.config.slabSize)
    (small : limit ≤ s.pipe.store.config.maxAverage) :
    s.unreleasedBytes ≤ s.pipe.store.config.blobSize := by
  calc s.unreleasedBytes
      ≤ limit * s.pipe.schema.varFieldsInSlab s.pipe.store.config.slabBits :=
        l.regular.unreleasedBytes_le aligned size l.short
    _ ≤ s.pipe.store.config.blobSize := Config.mul_varFieldsInSlab_le small

/-- Lengths up to the limit leave the moving average below it. -/
theorem LoadAt.nextAverage_le (l : s.LoadAt limit) {length : Int} (low : 0 ≤ length)
    (high : length ≤ limit) (small : limit ≤ 1 <<< maxBits) :
    0 ≤ s.pipe.nextAverage length ∧ s.pipe.nextAverage length ≤ limit := by
  obtain ⟨least, most⟩ := l.average
  have bound : (1 <<< maxBits) = 0x40000000 := by decide
  unfold Pipe.nextAverage Pipe.clampInt Pipe.maxInt
  omega

theorem LoadAt.averageAfter_le (l : s.LoadAt limit) {w : Stroke} (fits : w.asked ≤ limit)
    (small : limit ≤ 1 <<< maxBits) :
    0 ≤ w.averageAfter s.pipe ∧ w.averageAfter s.pipe ≤ limit := by
  unfold Stroke.averageAfter
  cases checked : w.checked? with
  | none => exact l.average
  | some length =>
    obtain ⟨low, high⟩ := Stroke.checked_le_asked checked
    exact l.nextAverage_le low (Int.le_trans high (Int.ofNat_le.mpr fits)) small

theorem LoadAt.change {a : Action} (l : s.LoadAt limit) (aligned : s.Aligned)
    (change : s.Change a t) (kept : sized limit s a) (small : limit ≤ 1 <<< maxBits) :
    t.LoadAt limit := by
  rcases change with writes | reads
  · refine ⟨?_, l.regular.change aligned writes kept.1, ?_⟩
    · refine l.short.change writes ?_
      rintro w e blob rfl stores
      exact Nat.le_trans stores.length_le_asked kept.2
    · rcases writes.average with same | ⟨w, rfl, after⟩
      · rw [same]
        exact l.average
      · rw [after]
        exact l.averageAfter_le kept.2 small
  · have side := reads.sameWriter
    refine ⟨l.short.of_read side, l.regular.of_read side, ?_⟩
    rw [side.producer]
    exact l.average

/-- No field up to the limit is refused. -/
theorem LoadAt.isRefusal_eq_false (l : s.LoadAt limit) {w : Stroke} {x : PipeError}
    (fits : w.asked ≤ limit) (small : limit ≤ s.pipe.store.config.maxAverage)
    (denied : (w.run s.pipe).1 = .error x) : x.isRefusal = false := by
  have bound : limit ≤ 1 <<< maxBits :=
    Nat.le_trans small (Nat.le_trans (Config.maxAverage_le _) (Config.blobSize_le _))
  cases refusal : x.isRefusal with
  | false => rfl
  | true =>
    -- The length and the average before it are at most the limit, so their mean is.
    obtain ⟨length, checked, tooLong⟩ := Stroke.exceeds_of_refusal denied refusal
    obtain ⟨low, high⟩ := Stroke.checked_le_asked checked
    have below := l.nextAverage_le low (Int.le_trans high (Int.ofNat_le.mpr fits)) bound
    omega

theorem loadAt_start (store : Store) : (Session.start (.start store)).LoadAt limit :=
  ⟨⟨nofun, nofun⟩, .of_idle nofun rfl, Int.le_refl _, Int.natCast_nonneg _⟩

/-- The invariant holds throughout every run under the load. -/
theorem loadAt_of_reaches (first : s.Aligned) (load : s.LoadAt limit)
    (small : limit ≤ 1 <<< maxBits) (run : Reaches (sized limit) s t) :
    t.Aligned ∧ t.LoadAt limit := by
  induction run with
  | refl => exact ⟨first, load⟩
  | step _ kept call ih =>
    have change := change_of_step call
    exact ⟨(ih.1.change change).1, ih.2.change ih.1 change kept small⟩

end Session

/-- The widths chosen for a load suffice for it: the slab holds the fragments, the moving average
may reach the longest field, and with any constants and batches, in every run that writes the fields
of the schema and none longer than the load allows, the unreleased bytes never exceed the blob and
no field is refused for its length. -/
theorem capacity_suffices {schema : Schema} {minFragments maxVarLen : Nat} {base : Config}
    (made : Config.forCapacity schema minFragments maxVarLen = .ok base)
    (var : schema.hasVarFields = true) (positive : 1 ≤ maxVarLen) :
    max minFragments 1 * schema.maxFragmentSize ≤ base.slabSize ∧
    maxVarLen ≤ base.maxAverage ∧
    ∀ (constants : Buffer) (publishBatch releaseBatch : Nat) (registry : Registry)
      (slab blob : Int) (p : Pipe) (s : Session),
      registry.open? { base with constants, publishBatch, releaseBatch } slab blob = some p →
      Reaches (sized maxVarLen) (Session.start p) s →
      s.unreleasedBytes ≤ base.blobSize ∧
      ∀ w x, sized maxVarLen s (.put w) → (w.run s.pipe).1 = .error x → x.isRefusal = false := by
  have average := Config.le_maxAverage_of_forCapacity made var positive
  refine ⟨Config.le_slabSize_of_forCapacity made, average, ?_⟩
  intro constants publishBatch releaseBatch registry slab blob p s opened run
  have short : maxVarLen ≤ 1 <<< maxBits :=
    Nat.le_trans average (Nat.le_trans base.maxAverage_le base.blobSize_le)
  obtain ⟨config, size⟩ := Session.capacity_of_reaches opened run
  rw [← config] at size
  have small : maxVarLen ≤ s.pipe.store.config.maxAverage := by
    rw [config]
    exact average
  have first : (Session.start p).Aligned ∧ (Session.start p).LoadAt maxVarLen := by
    rw [Registry.eq_of_open? opened]
    exact ⟨Session.aligned_start rfl, Session.loadAt_start _⟩
  obtain ⟨aligned, load⟩ := Session.loadAt_of_reaches first.1 first.2 short run
  have room := load.unreleasedBytes_le aligned size small
  rw [config] at room
  exact ⟨room, fun w x kept denied => load.isRefusal_eq_false kept.2 small denied⟩

/-- Six messages with five bytes each: they are 30 cells and 30 bytes, in 32 cells and 64 bytes. -/
theorem capacity_suffices_sample :
    ∃ base p s, Config.forCapacity sampleSchema 6 5 = .ok base ∧
      Registry.empty.open? { base with publishBatch := 2 } 3 30 = some p ∧
      play (sized 5) (Session.start p)
        (List.replicate 6 (writeSample none [1, 2, 3, 4, 5])).flatten = some s ∧
      30 ≤ base.slabSize ∧ 5 ≤ base.maxAverage ∧ s.unreleasedBytes ≤ base.blobSize := by
  have made : Config.forCapacity sampleSchema 6 5 =
      .ok ⟨sampleSchema, 5, 6, #[], 0, 0, by decide, by decide⟩ := by rfl
  obtain ⟨cells, average, runs⟩ := capacity_suffices made (by decide) (by decide)
  obtain ⟨p, opened⟩ : ∃ p, Registry.empty.open? ⟨sampleSchema, 5, 6, #[], 2, 0, by decide,
      by decide⟩ 3 30 = some p := ⟨_, rfl⟩
  obtain ⟨s, played⟩ : ∃ s, play (sized 5) (Session.start p)
      (List.replicate 6 (writeSample none [1, 2, 3, 4, 5])).flatten = some s := by
    cases opened
    exact Option.isSome_iff_exists.mp (by decide +kernel)
  exact ⟨_, p, s, made, opened, played, cells, average,
    (runs #[] 2 0 .empty 3 30 p s opened (Reaches.of_play played)).1⟩

end FragmentPipe
