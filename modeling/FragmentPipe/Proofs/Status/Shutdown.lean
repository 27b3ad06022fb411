import FragmentPipe.Pipe.State

/-!
Being shut down. A pipe keeps the first cause that was given, and reports the request that counted
as the first. `Store.Follows` says how far the status can move at once, and `Store.Reacts` what a
call may answer beside it. Main statements: `Reacts.isShutdown_eq`, an error tells whether the pipe
is shut down after it, and `Follows.sole`, no more than one request ever counts as the first.
-/

namespace FragmentPipe

/-- The cause that an event tells, if it is the first request for a shutdown. -/
def Event.cause? : Event → Option String
  | .shutDown _ cause => some cause
  | .brokenUtf8 .. | .alreadyInitialized .. | .unreservedFragment .. | .endPublished ..
  | .varLengthRefused .. | .publishBatchChanged .. | .releaseBatchChanged .. | .replaying .. => none

/-- The causes that events tell, in their order. -/
def causesOf (events : List Event) : List String := events.filterMap Event.cause?

/-- What a call answers, as far as the status is concerned: that it came to its end, an error, or
whether a request for a shutdown was the first. -/
inductive Answer where
  | done
  | failed (e : PipeError)
  | requested (first : Bool)
  deriving DecidableEq

/-- The answer of a call that may be refused. -/
def Answer.ofExcept {α : Type} : Except PipeError α → Answer
  | .ok _ => done
  | .error e => failed e

/-- The answer of a call that may have to wait; that it goes on waiting is no error. -/
def Answer.ofWait {α : Type} : Wait α → Answer
  | .done _ | .blocked => done
  | .failed e => failed e

/-- Whether an error is one for which the pipe is shut down on the spot. -/
def PipeError.stops : PipeError → Bool
  | .shutdown .. => false
  | e => e.shutsDownPipe

theorem PipeError.shutsDownPipe_of_stops {e : PipeError} (stops : e.stops = true) :
    e.shutsDownPipe = true := by
  cases e <;> first | rfl | cases stops

namespace Store

/-- The requests for a shutdown that counted as the first. -/
def firstRequests (s : Store) : List String := causesOf s.events

/-- The status stays as it is. -/
structure SameStatus (s t : Store) : Prop where
  id : t.id = s.id
  cause : t.shutdownCause = s.shutdownCause
  firstRequests : t.firstRequests = s.firstRequests

/-- The status stays as it is, or a first request for a shutdown is kept and reported. -/
inductive Follows (s t : Store) : Prop where
  | same (same : s.SameStatus t)
  | first {cause : String} (id : t.id = s.id) (running : s.shutdownCause = none)
    (kept : t.shutdownCause = some cause)
    (counted : t.firstRequests = s.firstRequests ++ [cause])

/-- The requests that counted as the first are the cause that is kept. -/
def Sole (s : Store) : Prop := s.firstRequests = s.shutdownCause.toList

variable {s t u : Store} {e : PipeError}

/-! ## The status moves -/

theorem SameStatus.refl (s : Store) : s.SameStatus s := ⟨rfl, rfl, rfl⟩

theorem SameStatus.trans (first : s.SameStatus t) (second : t.SameStatus u) : s.SameStatus u :=
  ⟨second.id.trans first.id, second.cause.trans first.cause,
    second.firstRequests.trans first.firstRequests⟩

theorem SameStatus.isShutdown_eq (same : s.SameStatus t) : t.isShutdown = s.isShutdown :=
  congrArg Option.isSome same.cause

theorem causesOf_append (a b : List Event) : causesOf (a ++ b) = causesOf a ++ causesOf b :=
  List.filterMap_append

/-- What is reported apart from a shutdown does not touch the status. -/
theorem sameStatus_reportAll {events : List Event} (quiet : causesOf events = []) :
    s.SameStatus (s.reportAll events) := by
  refine ⟨rfl, rfl, ?_⟩
  show causesOf (s.events ++ events) = _
  rw [causesOf_append, quiet, List.append_nil]
  rfl

theorem sameStatus_report {event : Event} (quiet : event.cause? = none) :
    s.SameStatus (s.report event) := by
  have causeless : causesOf [event] = [] := by simp [causesOf, quiet]
  exact sameStatus_reportAll causeless

theorem isShutdown_of_cause {cause : String} (kept : s.shutdownCause = some cause) :
    s.isShutdown = true := by
  rw [isShutdown, kept]
  rfl

theorem Follows.id (follows : s.Follows t) : t.id = s.id := by
  cases follows with
  | same same => exact same.id
  | first id => exact id

theorem Follows.trans (first : s.Follows t) (second : t.Follows u) : s.Follows u := by
  cases first with
  | same same =>
    cases second with
    | same same' => exact .same (same.trans same')
    | first id running kept counted =>
      exact .first (id.trans same.id) (same.cause ▸ running) kept (same.firstRequests ▸ counted)
  | first id running kept counted =>
    cases second with
    | same same =>
      exact .first (same.id.trans id) running (same.cause.trans kept)
        (same.firstRequests.trans counted)
    | first _ running' =>
      rw [kept] at running'
      cases running'

/-- A pipe that is shut down stays so. -/
theorem Follows.isShutdown (follows : s.Follows t) (shut : s.isShutdown = true) :
    t.isShutdown = true := by
  cases follows with
  | same same => rw [same.isShutdown_eq, shut]
  | first _ _ kept => exact isShutdown_of_cause kept

/-- Requests that counted as the first are not forgotten. -/
theorem Follows.firstRequests (follows : s.Follows t) : s.firstRequests <+: t.firstRequests := by
  cases follows with
  | same same => exact same.firstRequests ▸ List.prefix_refl _
  | first _ _ _ counted => exact counted ▸ List.prefix_append _ _

/-- No more than one request counts as the first, and it is its cause that is kept. -/
theorem Follows.sole (follows : s.Follows t) (sole : s.Sole) : t.Sole := by
  unfold Sole at sole ⊢
  cases follows with
  | same same => rw [same.firstRequests, same.cause, sole]
  | first _ running kept counted =>
    rw [counted, sole, running, kept]
    rfl

theorem follows_shutdown (s : Store) (cause : String) : s.Follows (s.shutdown cause).2 := by
  unfold shutdown
  cases kept : s.shutdownCause with
  | some earlier => exact .same (.refl s)
  | none => exact .first rfl kept rfl (causesOf_append s.events [.shutDown s.id cause])

theorem Sole.length_le (sole : s.Sole) : s.firstRequests.length ≤ 1 := by
  rw [sole]
  cases s.shutdownCause with
  | none => exact Nat.zero_le 1
  | some cause => exact Nat.le_refl 1

theorem Sole.isShutdown_eq_false_iff (sole : s.Sole) :
    s.isShutdown = false ↔ s.firstRequests = [] := by
  rw [sole, isShutdown]
  cases s.shutdownCause with
  | none => decide
  | some cause =>
    constructor
    · intro running
      cases running
    · intro requests
      cases requests

theorem Sole.isShutdown_iff (sole : s.Sole) : s.isShutdown = true ↔ s.firstRequests ≠ [] := by
  rw [Ne, ← sole.isShutdown_eq_false_iff, Bool.not_eq_false]

/-- While no request counted, the next one does. -/
theorem Sole.firstRequests_shutdown (sole : s.Sole) (running : s.isShutdown = false)
    (cause : String) : (s.shutdown cause).2.firstRequests = [cause] := by
  have before : causesOf s.events = [] := sole.isShutdown_eq_false_iff.mp running
  unfold shutdown
  cases kept : s.shutdownCause with
  | some earlier =>
    rw [isShutdown_of_cause kept] at running
    cases running
  | none =>
    show causesOf (s.events ++ [.shutDown s.id cause]) = [cause]
    rw [causesOf_append, before]
    rfl

theorem shutdown_fst (s : Store) (cause : String) : (s.shutdown cause).1 = !s.isShutdown := by
  unfold shutdown isShutdown
  cases s.shutdownCause <;> rfl

/-! ## What a call answers -/

/-- What a call may answer, and what it does to the status. -/
inductive Reacts (s : Store) : Answer → Store → Prop where
  | done {t : Store} (same : s.SameStatus t) : Reacts s .done t
  /-- An error that leaves the pipe in use. -/
  | mild {e : PipeError} {t : Store} (same : s.SameStatus t) (mild : e.shutsDownPipe = false) :
    Reacts s (.failed e) t
  /-- A waiting call is told why the pipe was shut down before. -/
  | told {cause : String} {t : Store} (same : s.SameStatus t)
    (kept : s.shutdownCause = some cause) : Reacts s (.failed (.shutdown s.id cause)) t
  /-- The call shuts the pipe down for its error. -/
  | stopped {e : PipeError} {t : Store} (follows : s.Follows t) (shut : t.isShutdown = true)
    (stops : e.stops = true) : Reacts s (.failed e) t
  | requested (cause : String) :
    Reacts s (.requested (s.shutdown cause).1) (s.shutdown cause).2

variable {answer : Answer}

theorem Reacts.follows (reacts : s.Reacts answer t) : s.Follows t := by
  cases reacts with
  | done same => exact .same same
  | mild same => exact .same same
  | told same => exact .same same
  | stopped follows => exact follows
  | requested cause => exact s.follows_shutdown cause

/-- The pipe is shut down after an error that says so, and otherwise exactly if it was before. -/
theorem Reacts.isShutdown_eq (reacts : s.Reacts (.failed e) t) :
    t.isShutdown = (e.shutsDownPipe || s.isShutdown) := by
  cases reacts with
  | mild same mild => rw [same.isShutdown_eq, mild, Bool.false_or]
  | told same kept => rw [same.isShutdown_eq, isShutdown_of_cause kept, Bool.or_true]
  | stopped _ shut stops => rw [shut, PipeError.shutsDownPipe_of_stops stops, Bool.true_or]

/-- A call that is told of a shutdown is told the cause of the one request that counted. -/
theorem Reacts.told_eq {pipe : Nat} {cause : String} (sole : s.Sole)
    (reacts : s.Reacts (.failed (.shutdown pipe cause)) t) :
    pipe = s.id ∧ s.firstRequests = [cause] := by
  cases reacts with
  | mild _ mild => cases mild
  | told _ kept =>
    refine ⟨rfl, ?_⟩
    rw [sole, kept]
    rfl
  | stopped _ _ stops => cases stops

theorem Reacts.requested_eq {first : Bool} (reacts : s.Reacts (.requested first) t) :
    first = !s.isShutdown ∧ t.isShutdown = true := by
  cases reacts with
  | requested cause => exact ⟨s.shutdown_fst cause, s.isShutdown_shutdown cause⟩

/-- A call goes on after a part that did not fail. -/
theorem Reacts.after (same : s.SameStatus t) (reacts : t.Reacts answer u) (quiet : ∀ first,
    answer ≠ .requested first) : s.Reacts answer u := by
  cases reacts with
  | done later => exact .done (same.trans later)
  | mild later mild => exact .mild (same.trans later) mild
  | @told cause _ later kept =>
    rw [same.id]
    exact .told (same.trans later) (same.cause ▸ kept)
  | stopped follows shut stops => exact .stopped (.trans (.same same) follows) shut stops
  | requested cause => exact absurd rfl (quiet _)

/-- A call that failed may tidy up. -/
theorem Reacts.before (reacts : s.Reacts (.failed e) t) (same : t.SameStatus u) :
    s.Reacts (.failed e) u := by
  cases reacts with
  | mild earlier mild => exact .mild (earlier.trans same) mild
  | told earlier kept => exact .told (earlier.trans same) kept
  | stopped follows shut stops =>
    exact .stopped (follows.trans (.same same)) (by rw [same.isShutdown_eq, shut]) stops

/-- What interrupts a waiting call says how it is with the pipe. -/
theorem reacts_interruption (interrupted : s.interruption = some e) : s.Reacts (.failed e) s := by
  unfold interruption at interrupted
  split at interrupted
  · next cause kept =>
    cases interrupted
    exact .told (.refl s) kept
  · split at interrupted
    · cases interrupted
      exact .mild (.refl s) rfl
    · cases interrupted

end Store

end FragmentPipe
