import FragmentPipe.Proofs.Transfer.Fifo
import FragmentPipe.Proofs.Transfer.Regular

/-!
When a field that is accepted destroys bytes that are still to be read. The blob has no other guard
than the moving average of the lengths, so the answer is in terms of the unreleased bytes. Main
statement: `sparing_iff_fitting`, the fields of a run leave every unreleased byte alone exactly if
they go around the blob at most once together with these. What the guard itself keeps to is
`Guarded.unreleasedBytes_le`, about two turns of the blob.
-/

namespace FragmentPipe

namespace Session

/-- All bytes that a field may change lie in places of their own, and in no place of an unreleased
byte. -/
structure Spares (s : Session) (w : Stroke) : Prop where
  others : ∀ (i : Nat) (x : Int), i < w.reach s.pipe → s.blobAt s.released ≤ x →
    x < s.blobAt s.written.length + s.current.taken →
    s.pipe.store.blob.index (s.pipe.producer.blobHead + i) ≠ s.pipe.store.blob.index x
  own : ∀ i j : Nat, i < j → j < w.reach s.pipe →
    s.pipe.store.blob.index (s.pipe.producer.blobHead + i) ≠
      s.pipe.store.blob.index (s.pipe.producer.blobHead + j)

end Session

/-- Every field that is accepted spares the unreleased bytes. -/
def sparing (s : Session) (a : Action) : Prop :=
  a.OnPut fun w => (w.run s.pipe).1.isOk = true → s.Spares w

namespace Session

variable {s t : Session}

/-- What is stored behind the blob head goes to the cells behind the end of the unreleased bytes. -/
theorem Recorded.index_head (h : s.Recorded) (i : Nat) :
    s.pipe.store.blob.index (s.pipe.producer.blobHead + i) =
      s.pipe.store.blob.index (s.blobAt s.written.length + s.current.taken + i) :=
  (Ring.index_eq_iff _).mpr (Int.add_emod_eq_add_emod_right _ h.head_emod)

theorem Roomy.spares_of_fits {w : Stroke} (y : s.Roomy) (h : s.Recorded)
    (fits : s.unreleasedBytes + w.reach s.pipe ≤ s.pipe.store.blob.size) : s.Spares w := by
  have bytes_eq := unreleasedBytes_eq y.short
  refine ⟨?_, ?_⟩
  · intro i x inside unreleased before
    rw [h.index_head]
    exact (Ring.index_ne_of_lt _ (by omega) (by omega)).symm
  · intro i j before inside
    exact Ring.index_ne_of_lt _ (by omega) (by omega)

/-- One byte more than there is room for meets the first unreleased byte, or the first byte of its
own field. -/
theorem Roomy.fits_of_spares {w : Stroke} (y : s.Roomy) (h : s.Recorded) (spares : s.Spares w) :
    s.unreleasedBytes + w.reach s.pipe ≤ s.pipe.store.blob.size := by
  have bytes_eq := unreleasedBytes_eq y.short
  have room := y.room
  have turn : ∀ x : Int, s.pipe.store.blob.index (x + s.pipe.store.blob.size) =
      s.pipe.store.blob.index x := by
    intro x
    rw [Ring.index_eq_iff, Int.add_emod_right]
  rcases Nat.lt_or_ge s.pipe.store.blob.size (s.unreleasedBytes + w.reach s.pipe) with more | fits
  · rcases Nat.eq_zero_or_pos s.unreleasedBytes with free | held
    · -- Only the field itself is there to be met.
      have positive := s.pipe.store.blob.size_pos
      have meets := spares.own 0 s.pipe.store.blob.size positive (by omega)
      rw [turn] at meets
      exact absurd (congrArg _ (Int.add_zero _)) meets
    · have meets := spares.others (s.pipe.store.blob.size - s.unreleasedBytes)
        (s.blobAt s.released) (by omega) (Int.le_refl _) (by omega)
      have first : s.blobAt s.written.length + s.current.taken +
          ((s.pipe.store.blob.size - s.unreleasedBytes : Nat) : Int) =
            s.blobAt s.released + s.pipe.store.blob.size := by omega
      rw [h.index_head, first, turn] at meets
      exact absurd rfl meets
  · exact fits

theorem Roomy.sparing_iff {a : Action} (y : s.Roomy) (h : s.Recorded) :
    sparing s a ↔ fitting s a := by
  cases a with
  | put w =>
    constructor
    · intro kept accepted
      rw [← h.size]
      exact y.fits_of_spares h (kept accepted)
    · intro kept accepted
      refine y.spares_of_fits h ?_
      rw [h.size]
      exact kept accepted
  | _ => exact Iff.rfl

theorem roomy_of_reaches (first : s.Recorded) (room : s.Roomy) (run : Reaches fitting s t) :
    t.Recorded ∧ t.Roomy := by
  induction run with
  | refl => exact ⟨first, room⟩
  | step _ kept call ih =>
    have change := change_of_step call
    exact ⟨ih.1.change change, ih.2.change ih.1 change kept⟩

theorem reaches_sparing_iff (first : s.Recorded) (room : s.Roomy) :
    Reaches sparing s t ↔ Reaches fitting s t := by
  constructor
  · intro run
    induction run with
    | refl => exact .refl
    | step _ kept call ih =>
      obtain ⟨recorded, roomy⟩ := roomy_of_reaches first room ih
      exact ih.step ((roomy.sparing_iff recorded).mp kept) call
  · intro run
    induction run with
    | refl => exact .refl
    | step run kept call ih =>
      obtain ⟨recorded, roomy⟩ := roomy_of_reaches first room run
      exact ih.step ((roomy.sparing_iff recorded).mpr kept) call

/-! ## What the guard keeps to -/

/-- An accepted field is at most twice as long as the moving average may be, and one byte more. -/
theorem length_bytesIn_le {w : Stroke} {e : Entry} {p : Pipe} {blob : Ring UInt8}
    (stores : w.Stores p e blob) (low : 0 ≤ p.producer.average)
    (small : p.store.config.maxAverage < 0x3FFFFFFF) :
    e.bytesIn.length ≤ 2 * p.store.config.maxAverage + 1 := by
  cases checked : w.checked? with
  | none =>
    rw [stores.bare checked]
    exact Nat.zero_le _
  | some length =>
    have within := stores.allowed checked
    have told := stores.told checked
    unfold Pipe.nextAverage Pipe.clampInt Pipe.maxInt at within
    unfold Pipe.fieldLength Pipe.maxInt at told
    omega

theorem averageAfter_nonneg {p : Pipe} (w : Stroke) (low : 0 ≤ p.producer.average) :
    0 ≤ w.averageAfter p := by
  unfold Stroke.averageAfter
  cases checked : w.checked? with
  | none => exact low
  | some length =>
    have positive := (Stroke.checked_le_asked checked).1
    show 0 ≤ p.nextAverage length
    unfold Pipe.nextAverage Pipe.clampInt Pipe.maxInt
    omega

/-- What the guard lets pass follows the schema, and no field is longer than it may be. -/
structure Guarded (s : Session) : Prop where
  regular : s.Regular
  average : 0 ≤ s.pipe.producer.average
  short : s.Every fun e => e.bytesIn.length ≤ 2 * s.pipe.store.config.maxAverage + 1

theorem Guarded.change {a : Action} (g : s.Guarded) (aligned : s.Aligned)
    (change : s.Change a t) (kept : following s a)
    (small : s.pipe.store.config.maxAverage < 0x3FFFFFFF) : t.Guarded := by
  have config := change.sameCapacity.config
  rcases change with writes | reads
  · refine ⟨g.regular.change aligned writes kept, ?_, ?_⟩
    · rcases writes.average with same | ⟨w, rfl, after⟩
      · rw [same]
        exact g.average
      · rw [after]
        exact averageAfter_nonneg w g.average
    · rw [config]
      exact g.short.change writes fun _ _ _ _ stores =>
        length_bytesIn_le stores g.average small
  · have side := reads.sameWriter
    refine ⟨g.regular.of_read side, ?_, ?_⟩
    · rw [side.producer]
      exact g.average
    · rw [config]
      exact g.short.of_read side

theorem guarded_start (store : Store) : (Session.start (.start store)).Guarded :=
  ⟨.of_idle nofun rfl, Int.le_refl _, ⟨nofun, nofun⟩⟩

theorem guarded_of_reaches (first : s.Aligned) (guarded : s.Guarded)
    (small : s.pipe.store.config.maxAverage < 0x3FFFFFFF) (run : Reaches following s t) :
    t.Aligned ∧ t.Guarded := by
  induction run with
  | refl => exact ⟨first, guarded⟩
  | step run kept call ih =>
    have change := change_of_step call
    refine ⟨(ih.1.change change).1, ih.2.change ih.1 change kept ?_⟩
    rw [(sameCapacity_of_reaches run).config]
    exact small

end Session

/-- The accepted fields of a run, however they are written, spare every unreleased byte exactly if
with all the bytes that each of them may change the unreleased bytes go around the blob at most once.
They then never exceed the blob, and if no field is refused they lie there as they were written. The
moving average alone, in runs that write the fields of the schema, keeps them to twice its limit and
one byte in each place of the slab. -/
theorem sparing_iff_fitting {registry : Registry} {config : Config} {slab blob : Int} {p : Pipe}
    {s : Session} (opened : registry.open? config slab blob = some p) :
    (Reaches sparing (Session.start p) s ↔ Reaches fitting (Session.start p) s) ∧
    (Reaches fitting (Session.start p) s → s.unreleasedBytes ≤ config.blobSize) ∧
    (Reaches lossless (Session.start p) s →
      ∀ (k : Nat) (w : Written), s.written[k]? = some w → s.released ≤ k →
        s.pipe.store.blob.Holds (s.blobAt k) w.bytes) ∧
    (Reaches following (Session.start p) s → config.maxAverage < 0x3FFFFFFF →
      s.unreleasedBytes ≤
        (2 * config.maxAverage + 1) * config.schema.varFieldsInSlab config.slabBits) := by
  have recorded := Session.recorded_of_open? opened
  have faithful := Session.faithful_start recorded
  refine ⟨Session.reaches_sparing_iff recorded faithful.roomy, ?_, ?_, ?_⟩
  · intro run
    obtain ⟨same, -⟩ := Session.capacity_of_reaches opened run
    obtain ⟨later, roomy⟩ := Session.roomy_of_reaches recorded faithful.roomy run
    have room := roomy.room
    rwa [later.size, same] at room
  · intro run
    exact (Session.faithful_of_reaches faithful run).intact.records
  · intro run small
    have start : Reaches following (Session.start p) (Session.start p) := .refl
    obtain ⟨first, -⟩ := Session.capacity_of_reaches opened start
    obtain ⟨same, size⟩ := Session.capacity_of_reaches opened run
    have guarded : (Session.start p).Guarded := by
      rw [Registry.eq_of_open? opened]
      exact Session.guarded_start _
    obtain ⟨aligned, later⟩ := Session.guarded_of_reaches recorded.aligned guarded
      (by rwa [first]) run
    rw [← same] at size
    have bytes := later.regular.unreleasedBytes_le aligned size later.short
    unfold Pipe.schema at bytes
    rwa [same] at bytes

/-- A message of nine bytes and one of one byte leave room for 22 more. The moving average alone
would let pass 63 bytes. -/
theorem sparing_iff_fitting_sample :
    ∃ s, play (fun s a => lossless s a ∧ following s a) (Session.start samplePipe)
        (writeSample (some 7) [1, 2, 3, 4, 5, 6, 7, 8, 9] ++ writeSample none [10]) = some s ∧
      Reaches sparing (Session.start samplePipe) s ∧ s.unreleasedBytes ≤ 32 ∧
      (∀ (k : Nat) (w : Written), s.written[k]? = some w → s.released ≤ k →
        s.pipe.store.blob.Holds (s.blobAt k) w.bytes) ∧
      s.unreleasedBytes ≤ 63 := by
  obtain ⟨s, played⟩ : ∃ s, play (fun s a => lossless s a ∧ following s a)
      (Session.start samplePipe)
      (writeSample (some 7) [1, 2, 3, 4, 5, 6, 7, 8, 9] ++ writeSample none [10]) = some s :=
    Option.isSome_iff_exists.mp (by decide +kernel)
  have run := Reaches.of_play played
  have keeps : Reaches lossless (Session.start samplePipe) s := run.mono fun _ _ kept => kept.1
  have follows : Reaches following (Session.start samplePipe) s := run.mono fun _ _ kept => kept.2
  have fits := keeps.mono fitting_of_lossless
  obtain ⟨spares, room, held, guard⟩ := sparing_iff_fitting (s := s) open?_sample
  exact ⟨s, played, spares.mpr fits, room fits, held keeps, guard follows (by decide)⟩

/-- The moving average lets 34 unreleased bytes into a blob of 32: six messages of which each is
accepted, and the last one lies on the first byte of the first. -/
theorem overflows_blob :
    (play (fun s a => accepting s a ∧ following s a) (Session.start samplePipe)
      (writeSample (some 1) [1, 2, 3, 4, 5, 6, 7, 8, 9] ++
        (List.replicate 5 (writeSample (some 2) [11, 12, 13, 14, 15])).flatten)).any
      fun s => s.released = 0 ∧ sampleConfig.blobSize < s.unreleasedBytes ∧
        (s.written[0]?.bind fun w => w.bytes[0]?) = some 1 ∧
        s.pipe.store.blob.get (s.blobAt 0) = 14 := by
  decide +kernel

end FragmentPipe
