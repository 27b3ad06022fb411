import FragmentPipe.Proofs.Capacity.Sizing
import FragmentPipe.Proofs.Transfer.Batching
import FragmentPipe.Proofs.Transfer.Fifo

/-!
Batches cannot block a pipe. The batch sizes that a capacity admits are so small that the fragments
which both sides hold back leave room in the slab for one more. Main statement: `progress`, between
fragments there is content for the reader or room for the writer.
-/

namespace FragmentPipe

/-! ## Batch sizes of a capacity -/

namespace Config

variable {c : Config}

theorem batches_le_of_validate (valid : c.validate = .ok ()) :
    c.publishBatch ≤ c.maxBatch explicitBatches ∧ c.releaseBatch ≤ c.maxBatch explicitBatches := by
  unfold validate at valid
  dsimp only at valid
  split at valid
  · cases valid
  · next publish =>
    split at valid
    · cases valid
    · next release => exact ⟨Nat.le_of_not_lt publish, Nat.le_of_not_lt release⟩

theorem maxBatch_le_fragments (c : Config) (mustFit : Nat) :
    c.maxBatch mustFit ≤ c.slabSize / max c.schema.maxFragmentSize 1 / max mustFit 1 := by
  unfold maxBatch
  dsimp only
  split
  · exact Nat.le_refl _
  · exact Nat.min_le_right _ _

/-- Beside the fragments that both sides hold back, the slab has room for one more. -/
theorem held_succ_mul_le (held : Nat) (valid : c.validate = .ok ())
    (large : c.schema.maxFragmentSize ≤ c.slabSize)
    (few : held + 2 ≤ max c.publishBatch 1 + max c.releaseBatch 1) :
    (held + 1) * c.schema.maxFragmentSize ≤ c.slabSize := by
  obtain ⟨publish, release⟩ := batches_le_of_validate valid
  have half := c.maxBatch_le_fragments explicitBatches
  have two := c.schema.two_le_maxFragmentSize
  have positive : max c.schema.maxFragmentSize 1 = c.schema.maxFragmentSize := by omega
  have parts : max explicitBatches 1 = 2 := rfl
  rw [positive, parts] at half
  have one : 1 ≤ c.slabSize / c.schema.maxFragmentSize :=
    (Nat.le_div_iff_mul_le (by omega)).mpr (by omega)
  have fragments : held + 1 ≤ c.slabSize / c.schema.maxFragmentSize := by omega
  calc (held + 1) * c.schema.maxFragmentSize
      ≤ c.slabSize / c.schema.maxFragmentSize * c.schema.maxFragmentSize :=
        Nat.mul_le_mul_right _ fragments
    _ ≤ c.slabSize := Nat.div_mul_le_self _ _

end Config

theorem Registry.validate_of_open? {registry : Registry} {config : Config} {slab blob : Int}
    {p : Pipe} (opened : registry.open? config slab blob = some p) : config.validate = .ok () := by
  unfold open? create at opened
  cases valid : config.validate with
  | error e =>
    rw [valid] at opened
    cases opened
  | ok u => rfl

/-! ## Sizes of fragments -/

namespace Session

/-- No fragment is larger than the largest one of the schema. -/
structure Sized (s : Session) : Prop where
  written : ∀ w ∈ s.written, w.size ≤ s.pipe.schema.maxFragmentSize
  draft : ∀ d, s.draft = some d → d.fragment.size ≤ s.pipe.schema.maxFragmentSize

variable {s t : Session} {a : Action}

theorem Sized.idle (z : s.Sized) (schema : t.pipe.schema = s.pipe.schema)
    (written : ∀ w ∈ t.written, w ∈ s.written) (closed : t.draft = none) : t.Sized := by
  constructor
  · intro w member
    rw [schema]
    exact z.written w (written w member)
  · intro d draft
    rw [closed] at draft
    cases draft

theorem Sized.append {w : Written} (z : s.Sized) (schema : t.pipe.schema = s.pipe.schema)
    (written : t.written = s.written ++ [w]) (closed : t.draft = none)
    (fits : w.size ≤ s.pipe.schema.maxFragmentSize) : t.Sized := by
  constructor
  · intro x member
    rw [written, List.mem_append, List.mem_singleton] at member
    rw [schema]
    rcases member with member | rfl
    · exact z.written x member
    · exact fits
  · intro d draft
    rw [closed] at draft
    cases draft

theorem Sized.begin {f : Fragment} {content : Written} {p : Pipe} (z : s.Sized)
    (schema : p.schema = s.pipe.schema) (member : f ∈ s.pipe.schema.fragments) :
    { s with pipe := p, draft := some ⟨f, content, false⟩ }.Sized := by
  constructor
  · intro w inside
    rw [schema]
    exact z.written w inside
  · intro d draft
    cases draft
    rw [schema]
    exact s.pipe.schema.size_le_maxFragmentSize member

theorem Sized.change (z : s.Sized) (aligned : s.Aligned) (change : s.Change a t) : t.Sized := by
  have schema := change.sameCapacity.schema
  rcases change with writes | reads
  · cases writes with
    | begun idle fragment =>
      unfold Schema.fragment? at fragment
      split at fragment
      · cases fragment
      · exact z.begin rfl (List.mem_of_getElem? fragment)
    | nested idle fragment => exact z.begin rfl (List.mem_of_getElem? fragment)
    | put draft =>
      have inside := z.draft _ draft
      refine ⟨z.written, ?_⟩
      rintro d' ⟨⟩
      exact inside
    | confirmed draft =>
      have inside := z.draft _ draft
      refine ⟨z.written, ?_⟩
      rintro d' ⟨⟩
      exact inside
    | published draft closed =>
      have full := aligned.1.full _ draft closed
      exact z.append schema rfl rfl (full ▸ z.draft _ draft)
    | flushed =>
      obtain ⟨_, _, moved⟩ := s.pipe.flushPublished_eq
      rw [moved]
      exact { z with }
    | abandoned => exact z.idle rfl (fun w member => List.mem_of_mem_take member) rfl
    | finished idle => exact z.append rfl rfl idle s.pipe.schema.two_le_maxFragmentSize
    | _ => exact { z with }
  · have side := reads.sameWriter
    constructor
    · rw [side.written, schema]
      exact z.written
    · rw [side.draft, schema]
      exact z.draft

theorem sized_of_reaches {rule : Session → Action → Prop} (first : s.Sized) (aligned : s.Aligned)
    (run : Reaches rule s t) : t.Sized := by
  induction run with
  | refl => exact first
  | step run _ call ih => exact ih.change (aligned_of_reaches aligned run) (change_of_step call)

/-- How far apart two fragments lie at most. -/
theorem Sized.slabAt_le (z : s.Sized) (j n : Nat) :
    s.slabAt (j + n) ≤ s.slabAt j + (n * s.pipe.schema.maxFragmentSize : Nat) := by
  induction n with
  | zero => simp
  | succ n ih =>
    rw [← Nat.add_assoc, Nat.succ_mul]
    cases found : s.written[j + n]? with
    | none =>
      have ends : s.slabAt (j + n + 1) = s.slabAt (j + n) := by
        have outside := List.getElem?_eq_none_iff.mp found
        rw [slabAt, slabAt, List.take_of_length_le outside,
          List.take_of_length_le (Nat.le_succ_of_le outside)]
      omega
    | some w =>
      have next := slabAt_succ found
      have fits := z.written w (List.mem_of_getElem? found)
      omega

/-! ## Room -/

/-- Between fragments the writer finds room for so many cells exactly if they fit in behind the
fragments that are not given back. -/
theorem Aligned.hasRoom_iff (aligned : s.Aligned) (idle : s.draft = none) (size : Int) :
    (s.pipe.hasRoom size).1 = true ↔
      s.slabAt s.written.length + size ≤ s.slabAt s.released + s.pipe.store.slab.size := by
  have target := aligned.1.target
  have unread : (s.confirmedCells : Int) = 0 := by
    rw [confirmedCells, idle]
    rfl
  have answer : (s.pipe.hasRoom size).1 =
      decide (s.pipe.producer.room.target + size ≤ s.pipe.store.slabTail) := by
    show (reaches _ _ _).answer = _
    exact reaches_answer aligned.1.seen
  rw [answer, decide_eq_true_iff, aligned.2.given, target]
  omega

end Session

/-- The batches that a capacity admits cannot block the pipe. Wherever both sides stand between
fragments, there is content to read or room for the largest fragment. -/
theorem progress {registry : Registry} {config : Config} {slab blob : Int} {p : Pipe} {s : Session}
    (opened : registry.open? config slab blob = some p)
    (large : config.schema.maxFragmentSize ≤ config.slabSize)
    (run : Reaches anyCall (Session.start p) s) (writes : s.draft = none)
    (reads : s.reading = none) :
    s.pipe.hasContent.1 = true ∨ (s.pipe.hasRoom config.schema.maxFragmentSize).1 = true := by
  obtain ⟨n, k, counted⟩ := Session.tallied_of_reaches run
  have batched := (Session.batched_of_prepares (.opened opened)).of_tallied counted
  have aligned := batched.recorded.aligned
  obtain ⟨capacity, cells⟩ := Session.capacity_of_reaches opened run
  have valid := Registry.validate_of_open? opened
  have schema : s.pipe.schema = config.schema := congrArg Config.schema capacity
  have fresh : (Session.start p).Sized := by
    constructor
    · intro w member
      cases member
    · intro d draft
      cases draft
  have sized := Session.sized_of_reaches fresh (Session.recorded_of_open? opened).aligned run
  by_cases content : s.received.length < s.published
  · exact .inl ((aligned.hasContent_iff reads).mpr content)
  · -- All that is published is received, so only the batches hold fragments in the slab.
    right
    have unpublished := batched.publishes.count.held_lt
    have unreleased := batched.releases.count.held_lt
    rw [Registry.eq_of_open? opened] at unpublished unreleased
    change _ < _ + max config.publishBatch 1 at unpublished
    change _ < _ + max config.releaseBatch 1 at unreleased
    have behind := aligned.released_le
    obtain ⟨held, split⟩ := Nat.exists_eq_add_of_le behind
    have room := Config.held_succ_mul_le held valid large (by omega)
    have far := sized.slabAt_le s.released held
    rw [← split, schema] at far
    rw [aligned.hasRoom_iff writes, cells]
    rw [Nat.succ_mul] at room
    omega

/-- Both sides hold back a message, nothing is left to read, and there is room for another one. -/
theorem progress_sample :
    ∃ s, play anyCall (Session.start samplePipe)
        (writeSample (some 1) [1] ++ .flush :: readSample ++ writeSample none [2]) = some s ∧
      s.published = 1 ∧ s.written.length = 2 ∧ s.released = 0 ∧ s.pipe.hasContent.1 = false ∧
      (s.pipe.hasRoom sampleSchema.maxFragmentSize).1 = true := by
  obtain ⟨s, played, checked⟩ : ∃ s, play anyCall (Session.start samplePipe)
        (writeSample (some 1) [1] ++ .flush :: readSample ++ writeSample none [2]) = some s ∧
      (s.draft.isNone ∧ s.reading.isNone ∧ s.published = 1 ∧ s.written.length = 2 ∧
        s.released = 0 ∧ s.pipe.hasContent.1 = false) := by
    have evaluated : (play anyCall (Session.start samplePipe)
        (writeSample (some 1) [1] ++ .flush :: readSample ++ writeSample none [2])).any fun s =>
          s.draft.isNone ∧ s.reading.isNone ∧ s.published = 1 ∧ s.written.length = 2 ∧
            s.released = 0 ∧ s.pipe.hasContent.1 = false := by decide +kernel
    obtain ⟨s, played, checked⟩ := (Option.any_eq_true ..).mp evaluated
    exact ⟨s, played, of_decide_eq_true checked⟩
  obtain ⟨writes, reads, published, written, released, content⟩ := checked
  have either := progress open?_sample (by decide) (Reaches.of_play played)
    (Option.isNone_iff_eq_none.mp writes) (Option.isNone_iff_eq_none.mp reads)
  rw [content] at either
  exact ⟨s, played, published, written, released, content, either.resolve_left Bool.false_ne_true⟩

end FragmentPipe
