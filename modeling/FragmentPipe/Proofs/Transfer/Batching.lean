import FragmentPipe.Proofs.Transfer.Contents

/-!
What is visible in batches. A side publishes its position after every so many fragments, and on
demand; in between it holds the fragments back. `Tallied` counts the fragments of either side since
it last held none, and `InBatches` says what follows from such a count. Main statement:
`batches_exact`, the published positions are ends of fragments, and the fragments held back are
those that are left over when the count is divided into batches.
-/

namespace FragmentPipe

/-! ## Counting in batches -/

/-- Of `all` fragments `done` are through. Of the `n` that were counted those are missing that begin
a batch, which waits for `countdown` more; a batch of size zero has one fragment. -/
structure InBatches (size : Nat) (countdown : Int) (n done all : Nat) : Prop where
  held : done + n % max size 1 = all
  waits : countdown = size - (n % max size 1 : Nat)

namespace InBatches

variable {size n done all : Nat} {countdown : Int}

theorem reset (size all : Nat) : InBatches size size 0 all all := by
  constructor
  · simp
  · simp

theorem held_lt (h : InBatches size countdown n done all) : all < done + max size 1 := by
  have rest := Nat.mod_lt n (Nat.lt_of_lt_of_le Nat.one_pos (Nat.le_max_right size 1))
  have held := h.held
  omega

/-- The number of fragments that begin the batch, with one more fragment. -/
theorem succ_mod (n m : Nat) : (n % m + 1 = m → (n + 1) % m = 0) ∧
    (n % m + 1 < m → (n + 1) % m = n % m + 1) := by
  have split := Nat.div_add_mod n m
  constructor
  · intro full
    have turns : n + 1 = m * (n / m + 1) := by
      rw [Nat.mul_succ]
      omega
    rw [turns, Nat.mul_mod_right]
  · intro part
    have turns : n + 1 = m * (n / m) + (n % m + 1) := by omega
    rw [turns, Nat.mul_add_mod, Nat.mod_eq_of_lt part]

/-- The fragment that the batch waits for takes all with it. -/
theorem complete (h : InBatches size countdown n done all) (last : countdown - 1 ≤ 0) :
    InBatches size size (n + 1) (all + 1) (all + 1) := by
  have rest := Nat.mod_lt n (Nat.lt_of_lt_of_le Nat.one_pos (Nat.le_max_right size 1))
  have waits := h.waits
  have full : (n + 1) % max size 1 = 0 := (succ_mod n (max size 1)).1 (by omega)
  constructor
  · rw [full]
  · rw [full]
    exact (Int.sub_zero _).symm

/-- Any other fragment is held back. -/
theorem hold (h : InBatches size countdown n done all) (early : ¬countdown - 1 ≤ 0) :
    InBatches size (countdown - 1) (n + 1) done (all + 1) := by
  have held := h.held
  have waits := h.waits
  have more : (n + 1) % max size 1 = n % max size 1 + 1 := (succ_mod n (max size 1)).2 (by omega)
  constructor
  · rw [more]
    omega
  · rw [more]
    omega

end InBatches

/-! ## Batch sizes -/

/-- A pipe that is opened, with the batch sizes of its capacity or with others that are chosen
before its first use. -/
inductive Registry.Prepares (r : Registry) (config : Config) (slab blob : Int) : Pipe → Prop where
  | opened {p : Pipe} (opened : r.open? config slab blob = some p) : Prepares r config slab blob p
  | publishBatch {p : Pipe} (before : Prepares r config slab blob p) (size : Nat) :
    Prepares r config slab blob (p.setPublishBatch size).2
  | largestPublishBatch {p : Pipe} (before : Prepares r config slab blob p) :
    Prepares r config slab blob p.setMaxPublishBatch
  | releaseBatch {p : Pipe} (before : Prepares r config slab blob p) (size : Nat) :
    Prepares r config slab blob (p.setReleaseBatch size).2
  | largestReleaseBatch {p : Pipe} (before : Prepares r config slab blob p) :
    Prepares r config slab blob p.setMaxReleaseBatch
  | heldReleases {p : Pipe} (before : Prepares r config slab blob p) :
    Prepares r config slab blob p.holdReleases

/-- The pipe at the beginning of batches of other sizes. -/
def Pipe.inBatches (p : Pipe) (publish release : Nat) (events : List Event) : Pipe :=
  { p with
    producer.batch := publish
    producer.countdown := publish
    consumer.batch := release
    consumer.countdown := release
    store.events := events }

/-- Nothing but the batch sizes and the report is prepared. -/
theorem Registry.Prepares.eq_inBatches {r : Registry} {config : Config} {slab blob : Int} {p : Pipe}
    (prepared : r.Prepares config slab blob p) :
    ∃ q publish release events, r.open? config slab blob = some q ∧
      p = q.inBatches publish release events := by
  induction prepared with
  | @opened p opened =>
    refine ⟨p, config.publishBatch, config.releaseBatch, p.store.events, opened, ?_⟩
    rw [Registry.eq_of_open? opened]
    rfl
  | publishBatch before size ih =>
    obtain ⟨q, publish, release, events, opened, rfl⟩ := ih
    unfold Pipe.setPublishBatch
    dsimp only
    split
    · exact ⟨q, publish, release, events, opened, rfl⟩
    · exact ⟨q, size, release, _, opened, rfl⟩
  | largestPublishBatch before ih =>
    obtain ⟨q, publish, release, events, opened, rfl⟩ := ih
    exact ⟨q, _, release, _, opened, rfl⟩
  | releaseBatch before size ih =>
    obtain ⟨q, publish, release, events, opened, rfl⟩ := ih
    unfold Pipe.setReleaseBatch
    dsimp only
    split
    · exact ⟨q, publish, release, events, opened, rfl⟩
    · exact ⟨q, publish, size, _, opened, rfl⟩
  | largestReleaseBatch before ih =>
    obtain ⟨q, publish, release, events, opened, rfl⟩ := ih
    exact ⟨q, publish, _, _, opened, rfl⟩
  | heldReleases before ih =>
    obtain ⟨q, publish, release, events, opened, rfl⟩ := ih
    exact ⟨q, publish, 0x7FFFFFFF, events, opened, rfl⟩

namespace Session

/-! ## Counting the fragments -/

/-- The fragments that the writer has finished since it last published or gave up all of them, after
a call that leads from `s` to `t`. -/
def finishedSince (s t : Session) (n : Nat) : Action → Nat
  | .publish => n + 1
  | .flush | .abandon => 0
  | .finish => if s.written.length < t.written.length then 0 else n
  | _ => n

/-- The fragments that the reader has released since it last published all releases, after a
call. -/
def releasedSince (k : Nat) : Action → Nat
  | .release => k + 1
  | .flushReleased | .releaseToHere => 0
  | _ => k

/-- The sessions that calls lead to, with the fragments that were finished and released since the
side last held none back. -/
inductive Tallied (s : Session) : Session → Nat → Nat → Prop where
  | refl : Tallied s s 0 0
  | step {t u : Session} {n k : Nat} {a : Action} (run : Tallied s t n k)
    (call : t.step a = some u) : Tallied s u (t.finishedSince u n a) (releasedSince k a)

variable {s t : Session} {n k : Nat}

/-- Every run can be counted. -/
theorem tallied_of_reaches {rule : Session → Action → Prop} (run : Reaches rule s t) :
    ∃ n k, Tallied s t n k := by
  induction run with
  | refl => exact ⟨0, 0, .refl⟩
  | step _ _ call ih =>
    obtain ⟨n, k, run⟩ := ih
    exact ⟨_, _, run.step call⟩

/-- Makes calls one after the other and counts the fragments. -/
def tally (s : Session) (n k : Nat) : List Action → Option (Session × Nat × Nat)
  | [] => some (s, n, k)
  | a :: rest => (s.step a).bind fun t => tally t (s.finishedSince t n a) (releasedSince k a) rest

theorem Tallied.of_tally {u : Session} {i j : Nat} {calls : List Action} (run : Tallied s t n k)
    (counted : tally t n k calls = some (u, i, j)) : Tallied s u i j := by
  induction calls generalizing t n k with
  | nil =>
    cases counted
    exact run
  | cons a rest ih =>
    rw [tally, Option.bind_eq_some_iff] at counted
    obtain ⟨v, call, later⟩ := counted
    exact ih (run.step call) later

end Session

/-! ## The writer's batches -/

/-- Whether a call can end a batch of the writer. -/
def Action.endsPublishing : Action → Bool
  | .publish | .flush | .abandon | .finish => true
  | _ => false

/-- Whether a call can end a batch of the reader. -/
def Action.endsReleasing : Action → Bool
  | .release | .flushReleased | .releaseToHere => true
  | _ => false

namespace Session

variable {s t : Session} {m n k size : Nat} {a : Action}

theorem finishedSince_of_quiet (quiet : a.endsPublishing = false) : s.finishedSince t n a = n := by
  cases a <;> first | rfl | cases quiet

theorem releasedSince_of_quiet (quiet : a.endsReleasing = false) : releasedSince k a = k := by
  cases a <;> first | rfl | cases quiet

/-- The writer publishes in batches of `size`, and `n` fragments are counted. -/
structure PublishesIn (s : Session) (size n : Nat) : Prop where
  batch : s.pipe.producer.batch = size
  count : InBatches size s.pipe.producer.countdown n s.published s.written.length

/-- Other calls leave the writer's batch alone. -/
theorem Change.same_publishing (change : s.Change a t) (quiet : a.endsPublishing = false) :
    t.written = s.written ∧ t.published = s.published ∧
      t.pipe.producer.countdown = s.pipe.producer.countdown ∧
      t.pipe.producer.batch = s.pipe.producer.batch := by
  rcases change with writes | reads
  · cases writes with
    | published => cases quiet
    | flushed => cases quiet
    | abandoned => cases quiet
    | finished => cases quiet
    | _ => exact ⟨rfl, rfl, rfl, rfl⟩
  · have side := reads.sameWriter
    rw [side.producer]
    exact ⟨side.written, side.published, rfl, rfl⟩

theorem PublishesIn.publish (b : s.PublishesIn size n) (aligned : s.Aligned)
    (call : s.step .publish = some t) (after : t.Aligned) : t.PublishesIn size (n + 1) := by
  have count := b.count
  simp only [step] at call
  split at call
  · next d draft =>
    split at call
    · next closed =>
      have moved : s.pipe.publishFragment.2 = s.pipe.putByteCount.publishBatched := rfl
      rw [moved] at call
      by_cases last : s.pipe.producer.countdown - 1 ≤ 0
      · rw [Pipe.publishBatched_of_complete (p := s.pipe.putByteCount) last] at call
        cases call
        have all := after.1.published_of_head rfl rfl
        refine ⟨b.batch, ?_⟩
        rw [all, List.length_append]
        show InBatches size s.pipe.producer.batch (n + 1) _ _
        rw [b.batch]
        exact count.complete last
      · rw [Pipe.publishBatched_of_partial (p := s.pipe.putByteCount) last] at call
        have same : t.published = s.published := by
          cases call
          exact aligned.1.published_of_append (w := d.content) rfl rfl rfl
        cases call
        refine ⟨b.batch, ?_⟩
        rw [same, List.length_append]
        exact count.hold last
    · cases call
  · cases call

/-- After a flush and after giving up, nothing is held back. -/
theorem PublishesIn.reset (batch : t.pipe.producer.batch = size)
    (countdown : t.pipe.producer.countdown = size) (all : t.published = t.written.length) :
    t.PublishesIn size 0 := by
  refine ⟨batch, ?_⟩
  rw [countdown, all]
  exact .reset size _

theorem PublishesIn.finish (b : s.PublishesIn size n) (call : s.step .finish = some t)
    (after : t.Aligned) : t.PublishesIn size (s.finishedSince t n .finish) := by
  simp only [step] at call
  split at call
  · next idle =>
    unfold finishAll at call
    rcases s.pipe.publishEnd_eq with ⟨-, -, ended⟩ | ⟨e, events, cause, refused⟩
    · rw [ended] at call
      cases call
      have longer : s.written.length < (s.written ++ [Written.endMark]).length := by simp
      have all := after.1.published_of_head (Option.isNone_iff_eq_none.mp idle) rfl
      rw [finishedSince, if_pos longer]
      exact .reset b.batch b.batch all
    · rw [refused] at call
      cases call
      rw [finishedSince, if_neg (Nat.lt_irrefl _)]
      exact ⟨b.batch, b.count⟩
  · cases call

theorem PublishesIn.step (b : s.PublishesIn size n) (aligned : s.Aligned)
    (call : s.step a = some t) (after : t.Aligned) :
    t.PublishesIn size (s.finishedSince t n a) := by
  have change := change_of_step call
  have flushed : ∀ p : Pipe, p.flushPublished.producer.batch = p.producer.batch ∧
      p.flushPublished.producer.countdown = p.producer.batch := by
    intro p
    unfold Pipe.flushPublished
    split
    · exact ⟨rfl, rfl⟩
    · exact ⟨rfl, rfl⟩
  by_cases quiet : a.endsPublishing = false
  · obtain ⟨written, published, countdown, batch⟩ := change.same_publishing quiet
    rw [finishedSince_of_quiet quiet]
    refine ⟨batch.trans b.batch, ?_⟩
    rw [written, published, countdown]
    exact b.count
  · cases a with
    | publish => exact b.publish aligned call after
    | finish => exact b.finish call after
    | flush =>
      cases call
      obtain ⟨batch, countdown⟩ := flushed s.pipe
      exact .reset (batch.trans b.batch) (countdown.trans b.batch) aligned.1.flush.published_eq
    | abandon =>
      cases call
      have all : s.abandonAll.published = s.abandonAll.written.length := by
        rw [aligned.1.abandon.published_eq, aligned.1.length_abandonAll]
      exact .reset b.batch b.batch all
    | _ => exact absurd rfl quiet

/-! ## The reader's batches -/

/-- The reader releases in batches of `size`, and `k` fragments are counted. -/
structure ReleasesIn (s : Session) (size k : Nat) : Prop where
  batch : s.pipe.consumer.batch = size
  count : InBatches size s.pipe.consumer.countdown k s.released s.received.length

/-- The writer does not change how much is given back. -/
theorem WriterChange.same_released (change : s.WriterChange a t) (aligned : s.Aligned) :
    t.released = s.released := by
  obtain ⟨m', grows, writer, same⟩ := aligned.1.change change
  exact (aligned.2.of_written change.sameReader same grows).released_eq writer

/-- Other calls leave the reader's batch alone. -/
theorem Change.same_releasing (change : s.Change a t) (aligned : s.Aligned)
    (quiet : a.endsReleasing = false) :
    t.received = s.received ∧ t.released = s.released ∧
      t.pipe.consumer.countdown = s.pipe.consumer.countdown ∧
      t.pipe.consumer.batch = s.pipe.consumer.batch := by
  rcases change with writes | reads
  · have side := writes.sameReader
    rw [side.consumer]
    exact ⟨side.received, writes.same_released aligned, rfl, rfl⟩
  · cases reads with
    | opened =>
      unfold openNext
      split
      · exact ⟨rfl, rfl, rfl, rfl⟩
      · exact ⟨rfl, rfl, rfl, rfl⟩
    | @took c w e kind =>
      obtain ⟨_, _, moved⟩ := s.pipe.takeField_eq kind
      unfold takeNext
      dsimp only
      rw [moved]
      exact ⟨rfl, rfl, rfl, rfl⟩
    | released => cases quiet
    | flushedReleased => cases quiet
    | releasedToHere => cases quiet
    | _ => exact ⟨rfl, rfl, rfl, rfl⟩

/-- A fragment that completes a batch takes all before it with it; another one is held back. -/
theorem Aligned.released_release {c : Reading} (aligned : s.Aligned) (reading : s.reading = some c)
    (closed : c.confirmed = true) :
    (s.pipe.consumer.countdown - 1 ≤ 0 → (s.releaseNext c).released = s.received.length + 1) ∧
      (¬s.pipe.consumer.countdown - 1 ≤ 0 → (s.releaseNext c).released = s.released) := by
  obtain ⟨w, -, -, tail, -⟩ := aligned.2.before_release aligned.1 reading closed
  have inside := aligned.2.received_lt (by rw [reading]; rfl)
  have visible := aligned.1.visible_le
  have released : (s.releaseNext c).pipe = s.pipe.takeByteCount.2.releaseBatched
    s.pipe.takeByteCount.2.consumer.slabTail s.pipe.takeByteCount.2.consumer.blobTail := rfl
  constructor
  · intro last
    rw [Pipe.releaseBatched_of_complete (p := s.pipe.takeByteCount.2) last] at released
    refine released_of_given ?_ (Nat.le_trans inside visible)
    rw [released]
    exact tail
  · intro early
    rw [Pipe.releaseBatched_of_partial (p := s.pipe.takeByteCount.2) early] at released
    refine released_of_given ?_ aligned.released_le
    rw [released]
    exact aligned.2.given

theorem Aligned.released_flush (aligned : s.Aligned) :
    Session.released { s with pipe := s.pipe.flushReleased } = s.received.length :=
  (aligned.2.flush aligned.1).released_eq
    (aligned.1.of_read (ReaderChange.flushedReleased (s := s)).sameWriter
      (aligned.slabTail_le (.inr .flushedReleased)))

theorem Aligned.released_releaseToHere (aligned : s.Aligned) (idle : s.reading = none) :
    Session.released { s with pipe := s.pipe.releaseToHere } = s.received.length := by
  have change := ReaderChange.releasedToHere idle
  exact (aligned.2.releaseToHere idle).released_eq
    (aligned.1.of_read change.sameWriter (aligned.slabTail_le (.inr change)))

theorem ReleasesIn.release {c : Reading} (b : s.ReleasesIn size k) (aligned : s.Aligned)
    (reading : s.reading = some c) (closed : c.confirmed = true) :
    (s.releaseNext c).ReleasesIn size (k + 1) := by
  have count := b.count
  have outcome := aligned.released_release reading closed
  have released : (s.releaseNext c).pipe = s.pipe.takeByteCount.2.releaseBatched
    s.pipe.takeByteCount.2.consumer.slabTail s.pipe.takeByteCount.2.consumer.blobTail := rfl
  have received : (s.releaseNext c).received.length = s.received.length + 1 := by simp [releaseNext]
  by_cases last : s.pipe.consumer.countdown - 1 ≤ 0
  · rw [Pipe.releaseBatched_of_complete (p := s.pipe.takeByteCount.2) last] at released
    constructor
    · rw [released]
      exact b.batch
    · rw [outcome.1 last, received, released]
      show InBatches size s.pipe.consumer.batch (k + 1) _ _
      rw [b.batch]
      exact count.complete last
  · rw [Pipe.releaseBatched_of_partial (p := s.pipe.takeByteCount.2) last] at released
    constructor
    · rw [released]
      exact b.batch
    · rw [outcome.2 last, received, released]
      exact count.hold last

/-- After a flush and after a direct release, nothing is held back. -/
theorem ReleasesIn.reset (batch : t.pipe.consumer.batch = size)
    (countdown : t.pipe.consumer.countdown = size) (all : t.released = t.received.length) :
    t.ReleasesIn size 0 := by
  refine ⟨batch, ?_⟩
  rw [countdown, all]
  exact .reset size _

theorem ReleasesIn.step (b : s.ReleasesIn size k) (aligned : s.Aligned)
    (call : s.step a = some t) : t.ReleasesIn size (releasedSince k a) := by
  by_cases quiet : a.endsReleasing = false
  · have change := change_of_step call
    obtain ⟨received, released, countdown, batch⟩ := change.same_releasing aligned quiet
    rw [releasedSince_of_quiet quiet]
    refine ⟨batch.trans b.batch, ?_⟩
    rw [received, released, countdown]
    exact b.count
  · cases a with
    | release =>
      obtain ⟨c, reading, closed, rfl⟩ := release_of_step call
      exact b.release aligned reading closed
    | flushReleased =>
      cases call
      have fresh : s.pipe.flushReleased.consumer.batch = s.pipe.consumer.batch ∧
          s.pipe.flushReleased.consumer.countdown = s.pipe.consumer.batch := by
        unfold Pipe.flushReleased
        split
        · exact ⟨rfl, rfl⟩
        · exact ⟨rfl, rfl⟩
      exact .reset (fresh.1.trans b.batch) (fresh.2.trans b.batch) aligned.released_flush
    | releaseToHere =>
      obtain ⟨idle, rfl⟩ := releaseToHere_of_step call
      exact .reset b.batch b.batch (aligned.released_releaseToHere idle)
    | _ => exact absurd rfl quiet

/-! ## The blob tail -/

/-- The blob tails of the reader are ends of fragments too: the published one goes with the slab
tail, the one that a batch holds back with the last fragment received, and between fragments the
reader stands at its base. -/
structure BlobTailAt (s : Session) : Prop where
  given : s.pipe.store.blobTail % (s.pipe.store.blob.size : Int) =
    s.blobAt s.released % (s.pipe.store.blob.size : Int)
  held : s.released < s.received.length →
    s.pipe.consumer.heldBlob % (s.pipe.store.blob.size : Int) =
      s.blobAt s.received.length % (s.pipe.store.blob.size : Int)
  here : s.reading = none → s.pipe.consumer.blobTail = s.pipe.consumer.readBase

theorem WriterChange.same_blobTail (change : s.WriterChange a t) :
    t.pipe.store.blobTail = s.pipe.store.blobTail := by
  cases change with
  | published =>
    obtain ⟨_, _, _, _, _, _, moved⟩ := s.pipe.putByteCount.publishBatched_eq
    rw [moved]
    rfl
  | flushed =>
    obtain ⟨_, _, moved⟩ := s.pipe.flushPublished_eq
    rw [moved]
    rfl
  | _ => rfl

theorem BlobTailAt.of_written (b : s.BlobTailAt) (aligned : s.Aligned)
    (change : s.WriterChange a t) : t.BlobTailAt := by
  have side := change.sameReader
  have size := (Change.sameCapacity (.inl change)).blob
  have released := change.same_released aligned
  have same := (aligned.front (.inl change)).2
  have upto := aligned.2.received_le
  have place : ∀ k, k ≤ s.received.length → t.blobAt k = s.blobAt k :=
    fun k inside => blobAt_eq_of_take side.blobStart same (Nat.le_trans inside upto)
  constructor
  · rw [change.same_blobTail, size, released, place _ aligned.2.given_le]
    exact b.given
  · rw [side.consumer, size, released, side.received, place _ (Nat.le_refl _)]
    exact b.held
  · rw [side.consumer, side.reading]
    exact b.here

theorem BlobTailAt.release {c : Reading} (b : s.BlobTailAt) (aligned : s.Aligned)
    (after : (s.releaseNext c).Recorded) (reading : s.reading = some c)
    (closed : c.confirmed = true) : (s.releaseNext c).BlobTailAt := by
  have outcome := aligned.released_release reading closed
  have released : (s.releaseNext c).pipe = s.pipe.takeByteCount.2.releaseBatched
    s.pipe.takeByteCount.2.consumer.slabTail s.pipe.takeByteCount.2.consumer.blobTail := rfl
  have received : (s.releaseNext c).received.length = s.received.length + 1 := by simp [releaseNext]
  have base := after.base
  unfold BaseAt at base
  rw [received] at base
  by_cases last : s.pipe.consumer.countdown - 1 ≤ 0
  · rw [Pipe.releaseBatched_of_complete (p := s.pipe.takeByteCount.2) last] at released
    constructor
    · rw [outcome.1 last, ← base, released]
      rfl
    · intro short
      rw [outcome.1 last, received] at short
      exact absurd short (Nat.lt_irrefl _)
    · intro _
      rw [released]
      rfl
  · rw [Pipe.releaseBatched_of_partial (p := s.pipe.takeByteCount.2) last] at released
    constructor
    · rw [outcome.2 last, released]
      exact b.given
    · intro _
      rw [received, ← base, released]
      rfl
    · intro _
      rw [released]
      rfl

theorem BlobTailAt.flush (b : s.BlobTailAt) (aligned : s.Aligned) :
    { s with pipe := s.pipe.flushReleased }.BlobTailAt := by
  have all := aligned.released_flush
  have given := aligned.2.given
  have held_le := aligned.2.held_le
  have received_le := Nat.le_trans aligned.2.received_le aligned.1.visible_le
  unfold Pipe.flushReleased at all ⊢
  rcases Nat.lt_or_eq_of_le aligned.2.given_le with part | all_given
  · have held := aligned.2.held part
    have far := slabAt_lt part received_le
    rw [if_pos (by omega)] at all ⊢
    refine ⟨?_, ?_, b.here⟩
    · rw [all]
      exact b.held part
    · intro short
      rw [all] at short
      exact absurd short (Nat.lt_irrefl _)
  · rw [all_given] at given
    rw [if_neg (by omega)]
    exact { b with }

theorem BlobTailAt.of_read (b : s.BlobTailAt) (h : s.Recorded) (change : s.ReaderChange a t)
    (after : t.Recorded) : t.BlobTailAt := by
  cases change with
  | looked => exact { b with }
  | opened =>
    unfold openNext
    split
    · exact { b with here := nofun }
    · exact { b with here := nofun }
  | @took c w e kind =>
    obtain ⟨_, _, moved⟩ := s.pipe.takeField_eq kind
    unfold takeNext
    dsimp only
    rw [moved]
    exact { b with here := nofun }
  | passed => exact { b with here := nofun }
  | released reading closed => exact b.release h.aligned after reading closed
  | flushedReleased => exact b.flush h.aligned
  | releasedToHere idle =>
    have all := h.aligned.released_releaseToHere idle
    refine ⟨?_, ?_, b.here⟩
    · rw [all]
      show s.pipe.consumer.blobTail % _ = _
      rw [b.here idle]
      exact h.base
    · intro short
      rw [all] at short
      exact absurd short (Nat.lt_irrefl _)

theorem BlobTailAt.change (b : s.BlobTailAt) (h : s.Recorded) (change : s.Change a t)
    (after : t.Recorded) : t.BlobTailAt := by
  rcases change with writes | reads
  · exact b.of_written h.aligned writes
  · exact b.of_read h reads after

/-! ## Runs -/

/-- Both sides work in batches, `n` fragments of the writer and `k` of the reader are counted. -/
structure Batched (s : Session) (publish release n k : Nat) : Prop where
  recorded : s.Recorded
  publishes : s.PublishesIn publish n
  releases : s.ReleasesIn release k
  tail : s.BlobTailAt

variable {publish release : Nat}

theorem Batched.step (b : s.Batched publish release n k) (call : s.step a = some t) :
    t.Batched publish release (s.finishedSince t n a) (releasedSince k a) := by
  have change := change_of_step call
  have after := b.recorded.change change
  have aligned := b.recorded.aligned
  exact ⟨after, b.publishes.step aligned call after.aligned, b.releases.step aligned call,
    b.tail.change b.recorded change after⟩

theorem Batched.of_tallied (first : s.Batched publish release 0 0) (run : Tallied s t n k) :
    t.Batched publish release n k := by
  induction run with
  | refl => exact first
  | step _ call ih => exact ih.step call

/-- A prepared pipe has nothing to hold back. -/
theorem batched_of_prepares {registry : Registry} {config : Config} {slab blob : Int} {p : Pipe}
    (prepared : registry.Prepares config slab blob p) :
    (Session.start p).Batched p.producer.batch.toNat p.consumer.batch.toNat 0 0 := by
  obtain ⟨q, publish, release, events, opened, rfl⟩ := prepared.eq_inBatches
  have recorded := recorded_of_open? opened
  have fresh : (Session.start (q.inBatches publish release events)).Recorded := by
    obtain ⟨⟨writer, reader⟩, blob, records, sound, base, size⟩ := recorded
    have aligned : (Session.start (q.inBatches publish release events)).Aligned :=
      ⟨{ writer with }, { reader with }⟩
    exact ⟨aligned, { blob with }, { records with }, { sound with }, base, size⟩
  refine ⟨fresh, ⟨rfl, .reset publish 0⟩, ⟨rfl, .reset release 0⟩, ?_, ?_, ?_⟩
  · rw [Registry.eq_of_open? opened]
    exact congrArg (· % _) (Int.add_zero _).symm
  · intro short
    exact absurd short (Nat.lt_irrefl 0)
  · intro _
    rw [Registry.eq_of_open? opened]
    rfl

/-! ## What is visible -/

/-- The published heads are where the fragments that are visible end; those that begin a batch are
not visible. -/
structure HeadsAt (s : Session) (size n : Nat) : Prop where
  visible : s.published + n % max size 1 = s.written.length
  slab : s.pipe.store.slabHead = s.slabAt s.published
  blob : s.pipe.store.blobHead = s.blobAt s.published % blobSpan

/-- The published tails are where the fragments that are given back end, the blob tail on the circle
of the blob; those that begin a batch are not given back. -/
structure TailsAt (s : Session) (size k : Nat) : Prop where
  given : s.released + k % max size 1 = s.received.length
  slab : s.pipe.store.slabTail = s.slabAt s.released
  blob : s.pipe.store.blobTail % (s.pipe.store.config.blobSize : Int) =
    s.blobAt s.released % (s.pipe.store.config.blobSize : Int)

/-- No published position goes back, neither along the cells nor along the bytes, and what is
published stays as it is. -/
structure Forward (s t : Session) : Prop where
  front : t.written.take s.published = s.written.take s.published
  slabHead : s.pipe.store.slabHead ≤ t.pipe.store.slabHead
  blobHead : s.blobAt s.published ≤ t.blobAt t.published
  slabTail : s.pipe.store.slabTail ≤ t.pipe.store.slabTail
  blobTail : s.blobAt s.released ≤ t.blobAt t.released

theorem Batched.headsAt (b : s.Batched publish release n k) : s.HeadsAt publish n :=
  ⟨b.publishes.count.held, b.recorded.aligned.1.visible, b.recorded.blob.visible⟩

theorem Batched.tailsAt (b : s.Batched publish release n k) : s.TailsAt release k := by
  have tail := b.tail.given
  rw [b.recorded.size] at tail
  exact ⟨b.releases.count.held, b.recorded.aligned.2.given, tail⟩

theorem Aligned.forward (aligned : s.Aligned) (change : s.Change a t) : s.Forward t := by
  obtain ⟨after, gives⟩ := aligned.change change
  obtain ⟨shows, front⟩ := aligned.front change
  have side := change.sameCapacity
  have inside : s.released ≤ s.published :=
    Nat.le_trans aligned.2.given_le aligned.2.received_le
  have cell : t.slabAt s.published = s.slabAt s.published :=
    slabAt_eq_of_take side.slabStart front (Nat.le_refl _)
  have byte : ∀ k, k ≤ s.published → t.blobAt k = s.blobAt k :=
    fun k => blobAt_eq_of_take side.blobStart front
  refine ⟨front, ?_, ?_, aligned.slabTail_le change, ?_⟩
  · rw [aligned.1.visible, after.1.visible, ← cell]
    exact t.slabAt_mono shows
  · rw [← byte _ (Nat.le_refl _)]
    exact t.blobAt_mono shows
  · rw [← byte _ inside]
    exact t.blobAt_mono gives

end Session

/-- Fragments become visible whole and in batches. In every run with batch sizes that are not
changed, with flushes and with fragments given up at any time, the published heads are where a
fragment ends, the visible fragments are all but those that are left over when the ones finished
since the last reset are divided into batches, and the tails are the same for the fragments that are
released. No call moves a published position back. -/
theorem batches_exact {registry : Registry} {config : Config} {slab blob : Int} {p : Pipe}
    {s : Session} {n k : Nat} (prepared : registry.Prepares config slab blob p)
    (run : Session.Tallied (Session.start p) s n k) :
    s.HeadsAt p.producer.batch.toNat n ∧ s.TailsAt p.consumer.batch.toNat k ∧
      ∀ a t, s.step a = some t → s.Forward t := by
  have batched := (Session.batched_of_prepares prepared).of_tallied run
  exact ⟨batched.headsAt, batched.tailsAt,
    fun a t call => batched.recorded.aligned.forward (Session.change_of_step call)⟩

/-- Calls that hold back a fragment on either side: three messages of which a flush in the midst of
the fourth shows all, the fourth itself, and the first one read. -/
def heldBack : List Action :=
  writeSample (some 1) [1] ++ writeSample (some 2) [2, 3] ++ writeSample (some 3) [] ++
    [.begin .asking 0, .put (.entry (.scalar (.optionalInt (some 4)))), .flush,
      .put (.entry (.content (.bytes [4]))), .confirm, .publish] ++ readSample

theorem batches_exact_sample :
    ∃ s, Session.Tallied (Session.start samplePipe) s 1 1 ∧ s.published = 3 ∧
      s.written.length = 4 ∧ s.HeadsAt 2 1 ∧ s.TailsAt 2 1 := by
  obtain ⟨s, counted, published, written⟩ :
      ∃ s, Session.tally (Session.start samplePipe) 0 0 heldBack = some (s, 1, 1) ∧
        s.published = 3 ∧ s.written.length = 4 := by
    have evaluated : (Session.tally (Session.start samplePipe) 0 0 heldBack).any fun u =>
        u.2 = (1, 1) ∧ u.1.published = 3 ∧ u.1.written.length = 4 := by decide +kernel
    obtain ⟨⟨s, counts⟩, counted, checked⟩ := (Option.any_eq_true ..).mp evaluated
    obtain ⟨same, published, written⟩ := of_decide_eq_true checked
    cases same
    exact ⟨s, counted, published, written⟩
  have run := Session.Tallied.refl.of_tally counted
  obtain ⟨heads, tails, -⟩ := batches_exact (.opened open?_sample) run
  exact ⟨s, run, published, written, heads, tails⟩

end FragmentPipe
