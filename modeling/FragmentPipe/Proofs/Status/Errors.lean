import FragmentPipe.Pipe.Lifecycle
import FragmentPipe.Proofs.Status.Calls
import FragmentPipe.Proofs.Transfer.Session

/-!
What errors tell about a pipe, over its whole life. Every call keeps `Handle.Sound`, so that at most
one request for a shutdown ever counts as the first. Main statement: `Handle.errors_tell_status`, an
error tells whether the pipe is shut down, and a call that finds it shut down is told the cause that
was given first.
-/

namespace FragmentPipe

/-- A call of a pipe, or of one of its sides. -/
inductive Job : Type 1 where
  | makeRings
  | reset
  | resetTo (slab blob : Int)
  | split
  | cancel
  | shutdown (cause : String)
  | observe {α : Type} (look : Store → α)
  | move (m : Move)
  | attempt (a : Attempt)

/-- Makes a call. The sides exist once the pipe is split; before that nothing can be asked of
them. -/
def Job.run (h : Handle) : Job → Answer × Handle
  | makeRings => (.done, h.makeRings)
  | reset => (.ofExcept h.reset.1, h.reset.2)
  | resetTo slab blob => (.ofExcept (h.resetTo slab blob).1, (h.resetTo slab blob).2)
  | split => (.ofExcept h.split.1, h.split.2)
  | cancel => (.done, h.cancel.2)
  | shutdown cause => (.requested (h.shutdown cause).1, (h.shutdown cause).2)
  | observe look => (.ofExcept (h.observe look), h)
  | move m =>
    match h.pipe? with
    | none => (.done, h)
    | some p => (.done, h.withPipe (m.run p))
  | attempt a =>
    match h.pipe? with
    | none => (.done, h)
    | some p => ((a.run p).1, h.withPipe (a.run p).2)

namespace Handle

/-- The pipe after some calls. -/
def after (h : Handle) : List Job → Handle
  | [] => h
  | job :: rest => (job.run h).2.after rest

/-- The requests for a shutdown that counted as the first. -/
def firstRequests (h : Handle) : List String :=
  match h.store? with
  | none => []
  | some s => s.firstRequests

/-- The rings belong to the pipe, and what counted as the first request is the cause that is
kept. -/
def Sound (h : Handle) : Prop := ∀ s, h.store? = some s → s.id = h.id ∧ s.Sole

variable {g h : Handle} {s : Store}

/-! ## One call -/

theorem id_run (h : Handle) (job : Job) : (job.run h).2.id = h.id := by
  obtain ⟨id, config, stage⟩ := h
  cases stage <;> cases job <;> rfl

/-- With rings, a call answers as the store reacts. -/
theorem reacts_run (has : h.store? = some s) (job : Job) :
    ∃ t, (job.run h).2.store? = some t ∧ s.Reacts (job.run h).1 t := by
  obtain ⟨id, config, stage⟩ := h
  cases stage with
  | created cancelled => cases has
  | ready store =>
    cases has
    cases job with
    | makeRings => exact ⟨_, rfl, .done (Store.sameStatus_report rfl)⟩
    | shutdown cause => exact ⟨_, rfl, .requested cause⟩
    | _ => exact ⟨_, rfl, .done ⟨rfl, rfl, rfl⟩⟩
  | split p =>
    cases has
    cases job with
    | makeRings => exact ⟨_, rfl, .done (Store.sameStatus_report rfl)⟩
    | reset | resetTo _ _ | split => exact ⟨_, rfl, .mild (.refl p.store) rfl⟩
    | shutdown cause => exact ⟨_, rfl, .requested cause⟩
    | move m => exact ⟨_, rfl, .done (m.calm p)⟩
    | attempt a => exact ⟨_, rfl, a.reacts p⟩
    | _ => exact ⟨_, rfl, .done ⟨rfl, rfl, rfl⟩⟩

theorem store?_shutdown (has : h.store? = some s) (cause : String) :
    (h.shutdown cause).2.store? = some (s.shutdown cause).2 := by
  obtain ⟨id, config, stage⟩ := h
  cases stage with
  | created cancelled => cases has
  | ready store => cases has; rfl
  | split p => cases has; rfl

/-- New rings have no request for a shutdown. -/
theorem sole_empty (id : Nat) (config : Config) (cancelled : Bool) :
    (Store.empty id config cancelled).Sole := by
  show causesOf [] = none.toList
  rfl

theorem sound_run_of_created (storeless : h.store? = none) (job : Job) : (job.run h).2.Sound := by
  obtain ⟨id, config, stage⟩ := h
  cases stage with
  | created cancelled =>
    intro s made
    cases job with
    | makeRings =>
      cases made
      exact ⟨rfl, sole_empty id config cancelled⟩
    | _ => cases made
  | ready store => cases storeless
  | split p => cases storeless

theorem Sound.run (sound : h.Sound) (job : Job) : (job.run h).2.Sound := by
  cases has : h.store? with
  | none => exact sound_run_of_created has job
  | some s =>
    obtain ⟨own, sole⟩ := sound s has
    obtain ⟨t, kept, reacts⟩ := reacts_run has job
    intro u given
    cases kept.symm.trans given
    exact ⟨(reacts.follows.id.trans own).trans (h.id_run job).symm, reacts.follows.sole sole⟩

/-! ## Any number of calls -/

theorem Sound.after (sound : h.Sound) (jobs : List Job) : (h.after jobs).Sound := by
  induction jobs generalizing h with
  | nil => exact sound
  | cons job rest ih => exact ih (sound.run job)

theorem follows_after (has : h.store? = some s) (jobs : List Job) :
    ∃ t, (h.after jobs).store? = some t ∧ s.Follows t := by
  induction jobs generalizing h s with
  | nil => exact ⟨s, has, .same (.refl s)⟩
  | cons job rest ih =>
    obtain ⟨t, kept, reacts⟩ := reacts_run has job
    obtain ⟨u, later, follows⟩ := ih kept
    exact ⟨u, later, reacts.follows.trans follows⟩

theorem firstRequests_eq (has : h.store? = some s) : h.firstRequests = s.firstRequests := by
  rw [firstRequests, has]

theorem isShutdown_eq (has : h.store? = some s) : h.isShutdown = s.isShutdown := by
  rw [isShutdown, has]
  rfl

theorem sound_of_created {r r' : Registry} {config : Config}
    (created : r.create config = (.ok h, r')) : h.Sound := by
  unfold Registry.create at created
  split at created
  · cases created
  · cases created
    intro s made
    cases made

/-! ## What errors tell -/

/-- Over the whole life of a pipe, no more than one request for a shutdown counts as the first, and
one does exactly if the pipe is shut down; it stays shut down and keeps that request. A request says
whether it was the first. After a call that failed the pipe is shut down if the error says so, and
otherwise exactly if it was before; and a call that is told of a shutdown is told the cause that was
given first. -/
theorem errors_tell_status {r r' : Registry} {config : Config} {new h : Handle} {jobs : List Job}
    (created : r.create config = (.ok new, r')) (reached : new.after jobs = h)
    (ready : h.isReady = true) :
    h.firstRequests.length ≤ 1 ∧ (h.isShutdown = true ↔ h.firstRequests ≠ []) ∧
    (∀ cause, h.isShutdown = false → (h.shutdown cause).2.firstRequests = [cause]) ∧
    (∀ later : List Job, h.firstRequests <+: (h.after later).firstRequests ∧
      (h.isShutdown = true → (h.after later).isShutdown = true)) ∧
    ∀ (job : Job) (answer : Answer) (t : Handle), job.run h = (answer, t) →
      (∀ e, answer = .failed e → t.isShutdown = (e.shutsDownPipe || h.isShutdown)) ∧
      (∀ pipe cause, answer = .failed (.shutdown pipe cause) →
        pipe = h.id ∧ h.firstRequests = [cause]) ∧
      ∀ first, answer = .requested first →
        t.isShutdown = true ∧ (first = true ↔ h.firstRequests = []) := by
  have sound : h.Sound := reached ▸ (sound_of_created created).after jobs
  obtain ⟨s, has⟩ : ∃ s, h.store? = some s := Option.isSome_iff_exists.mp ready
  obtain ⟨own, sole⟩ := sound s has
  have requests := firstRequests_eq has
  have shut := isShutdown_eq has
  refine ⟨?_, ?_, ?_, ?_, ?_⟩
  · exact requests ▸ sole.length_le
  · rw [requests, shut]
    exact sole.isShutdown_iff
  · intro cause running
    rw [firstRequests_eq (store?_shutdown has cause)]
    exact sole.firstRequests_shutdown (shut ▸ running) cause
  · intro later
    obtain ⟨t, kept, follows⟩ := follows_after has later
    rw [requests, shut, firstRequests_eq kept, isShutdown_eq kept]
    exact ⟨follows.firstRequests, follows.isShutdown⟩
  · intro job answer t ran
    obtain ⟨u, kept, reacts⟩ := reacts_run has job
    rw [ran] at kept reacts
    rw [requests, shut, isShutdown_eq kept]
    refine ⟨?_, ?_, ?_⟩
    · rintro e rfl
      exact reacts.isShutdown_eq
    · rintro pipe cause rfl
      have told := reacts.told_eq sole
      exact ⟨told.1.trans own, told.2⟩
    · rintro first rfl
      obtain ⟨counts, stopped⟩ := reacts.requested_eq
      exact ⟨stopped, by rw [counts, Bool.not_eq_true', sole.isShutdown_eq_false_iff]⟩

/-- A pipe whose writing side closed a field that was not open, and that is shut down once more. -/
def brokenSample : List Job := [.makeRings, .split, .attempt .closeField, .shutdown "late"]

/-- A reader that waits is told of the misuse. -/
theorem errors_tell_status_sample :
    ∃ (new h : Handle) (r' : Registry), Registry.empty.create sampleConfig = (.ok new, r') ∧
      new.after brokenSample = h ∧ h.isReady = true ∧
      ((Job.attempt .awaitContent).run h).1 =
        .failed (.shutdown 0 "blob field write closed without being opened") ∧
      ((Job.attempt .awaitContent).run h).2.isShutdown = true ∧
      h.firstRequests = ["blob field write closed without being opened"] := by
  let new : Handle := ⟨0, sampleConfig, .created false⟩
  have created : Registry.empty.create sampleConfig = (.ok new, ⟨1⟩) := by rfl
  have ready : (new.after brokenSample).isReady = true := by decide +kernel
  have told : ((Job.attempt .awaitContent).run (new.after brokenSample)).1 =
      .failed (.shutdown 0 "blob field write closed without being opened") := by decide +kernel
  obtain ⟨-, -, -, -, tells⟩ := errors_tell_status created rfl ready
  obtain ⟨status, cause, -⟩ := tells (.attempt .awaitContent) _ _ rfl
  exact ⟨new, new.after brokenSample, ⟨1⟩, created, rfl, ready, told, status _ told,
    (cause _ _ told).2⟩

end Handle

end FragmentPipe
