import FragmentPipe.Proofs.Deferral.Replay

/-!
Going back to what is not released, and returning from there. A replay remembers where the reader
stood, and its cancellation returns to that place; neither looks at what was released meanwhile.
`Rereader.Placed` says where the reader, its batch and the remembered place stand. Main statement:
`working_within`, the reader works on what is published and not released exactly as long as it does
not flush ahead of itself and does not return to a place that is released.
-/

namespace FragmentPipe

/-! ## Turns -/

/-- A call of either side, or one that goes back to what is not released or returns from there. -/
inductive Turn where
  | plain (a : Action)
  | replay
  | cancel

/-- A session whose reader can go back. Where a replay began, it had received the fragments
`resumed`. -/
structure Rereader where
  session : Session
  resumed : List Receipt

namespace Rereader

/-- Two sides that take up their work. -/
def start (p : Pipe) : Rereader := ⟨.start p, []⟩

/-- One call. The reader goes back and returns between fragments. -/
def turn (x : Rereader) : Turn → Option Rereader
  | .plain a => (x.session.step a).map fun s => ⟨s, x.resumed⟩
  | .replay =>
    if x.session.reading.isNone then
      some ⟨x.session.rewound,
        if x.session.pipe.isReplaying then x.resumed else x.session.received⟩
    else none
  | .cancel =>
    if x.session.reading.isNone then
      some ⟨{ x.session with pipe := x.session.pipe.cancelReplay, received := x.resumed },
        x.resumed⟩
    else none

/-- What is held back is not published ahead of the reader, and the reader does not return to a
place that is released. -/
def guarded (x : Rereader) : Turn → Prop
  | .plain .flushReleased =>
    x.session.pipe.consumer.heldSlab ≤ x.session.pipe.store.slabTail ∨
      x.session.pipe.consumer.heldSlab ≤ x.session.pipe.consumer.slabTail
  | .cancel => x.session.pipe.store.slabTail ≤ x.session.pipe.consumer.resume.slabTail
  | _ => True

/-- What is held back is not published during a replay, and only a replay is cancelled. -/
def attentive (x : Rereader) : Turn → Prop
  | .plain .flushReleased => x.session.pipe.isReplaying = false
  | .cancel => x.session.pipe.isReplaying = true
  | _ => True

/-- Every call. -/
def anyTurn (_ : Rereader) (_ : Turn) : Prop := True

instance (x : Rereader) (c : Turn) : Decidable (x.attentive c) :=
  match c with
  | .plain .flushReleased => inferInstanceAs (Decidable (_ = _))
  | .cancel => inferInstanceAs (Decidable (_ = _))
  | .replay | .plain (.askRoom _) | .plain (.begin _ _) | .plain (.nest _) | .plain (.put _)
  | .plain .confirm | .plain .publish | .plain .flush | .plain .abandon | .plain .finish
  | .plain .look | .plain .receive | .plain (.take _) | .plain .pass | .plain .release
  | .plain .releaseToHere => .isTrue trivial

instance (x : Rereader) (c : Turn) : Decidable (anyTurn x c) := .isTrue trivial

/-- The states that calls lead to which the protocol and a rule allow. -/
inductive Turns (rule : Rereader → Turn → Prop) (x : Rereader) : Rereader → Prop where
  | refl : Turns rule x x
  | step {y z : Rereader} {c : Turn} (run : Turns rule x y) (kept : rule y c)
      (turn : y.turn c = some z) : Turns rule x z

/-- Makes calls one after the other, as long as the protocol and the rule allow them. -/
def play (rule : Rereader → Turn → Prop) [∀ x c, Decidable (rule x c)] (x : Rereader) :
    List Turn → Option Rereader
  | [] => some x
  | c :: rest => if rule x c then (x.turn c).bind fun y => play rule y rest else none

variable {rule : Rereader → Turn → Prop} {x y z : Rereader} {c : Turn}

theorem Turns.of_play [∀ x c, Decidable (rule x c)] {turns : List Turn} (run : Turns rule x y)
    (played : play rule y turns = some z) : Turns rule x z := by
  induction turns generalizing y with
  | nil =>
    cases played
    exact run
  | cons c rest ih =>
    rw [play] at played
    split at played
    · next kept =>
      rw [Option.bind_eq_some_iff] at played
      obtain ⟨v, turn, later⟩ := played
      exact ih (run.step kept turn) later
    · cases played

end Rereader

/-! ## Single calls -/

namespace Pipe

theorem releaseBatched_holding (p : Pipe) (cell after slabTail blobTail : Int) :
    ((p.holding cell).releaseBatched slabTail blobTail).holding after =
      (p.releaseBatched slabTail blobTail).holding after := by
  by_cases complete : p.consumer.countdown - 1 ≤ 0
  · rw [releaseBatched_of_complete complete,
      releaseBatched_of_complete (p := p.holding cell) complete]
    rfl
  · rw [releaseBatched_of_partial complete,
      releaseBatched_of_partial (p := p.holding cell) complete]
    rfl

/-- The place to return to is the one where the first replay began. -/
theorem resume_replay (p : Pipe) :
    p.replay.consumer.resume =
      if p.isReplaying then p.consumer.resume
      else
        ⟨p.consumer.slabTail, p.consumer.blobTail, p.consumer.readBase,
          p.consumer.content.confirmed⟩ := by
  show p.rememberPlace.consumer.resume = _
  unfold rememberPlace
  split
  · rfl
  · rfl

theorem heldSlab_replay (p : Pipe) : p.replay.consumer.heldSlab = p.consumer.heldSlab := by
  obtain ⟨_, _, _, moved⟩ := Session.replay_eq p
  rw [moved]

/-- Flushing publishes what is held back if it is ahead of what is published. -/
theorem slabTail_flushReleased (p : Pipe) :
    (p.store.slabTail < p.consumer.heldSlab ∧
      p.flushReleased.store.slabTail = p.consumer.heldSlab) ∨
    (p.consumer.heldSlab ≤ p.store.slabTail ∧
      p.flushReleased.store.slabTail = p.store.slabTail) := by
  unfold flushReleased
  split
  · next ahead => exact .inl ⟨ahead, rfl⟩
  · next not_ahead => exact .inr ⟨Int.not_lt.mp not_ahead, rfl⟩

end Pipe

namespace Session

variable {s t : Session} {a : Action} {m r : Nat}

/-- No plain call touches the place that a replay remembers. -/
theorem Change.same_resume (change : s.Change a t) :
    t.pipe.consumer.resume = s.pipe.consumer.resume := by
  rcases change with writes | reads
  · rw [writes.sameReader.consumer]
  · cases reads with
    | opened =>
      unfold openNext
      split
      · rfl
      · rfl
    | @took c w e kind =>
      obtain ⟨_, _, moved⟩ := s.pipe.takeField_eq kind
      unfold takeNext
      dsimp only
      rw [moved]
      rfl
    | @released c =>
      obtain ⟨_, _, _, _, _, _, moved⟩ := s.pipe.takeByteCount.2.releaseBatched_eq
        s.pipe.takeByteCount.2.consumer.slabTail s.pipe.takeByteCount.2.consumer.blobTail
      have released : (s.releaseNext c).pipe = _ := moved
      rw [released]
      rfl
    | flushedReleased =>
      obtain ⟨_, _, moved⟩ := s.pipe.flushReleased_eq
      rw [moved]
      rfl
    | _ => rfl

/-- What one state has published, the other has published in the same places. -/
structure Extends (s t : Session) : Prop where
  published : s.published ≤ t.published
  place : ∀ k, k ≤ s.published → t.slabAt k = s.slabAt k

theorem SameWriter.extends (side : s.SameWriter t) : s.Extends t :=
  ⟨Nat.le_of_eq side.published.symm, fun k _ => side.slabAt k⟩

theorem Change.extends (change : s.Change a t) (quiet : a.endsReleasing = false)
    (aligned : s.settled.Aligned) : s.Extends t := by
  have moved := change.settled quiet aligned
  obtain ⟨grows, front⟩ := aligned.front moved
  exact ⟨grows, fun k inside =>
    slabAt_eq_of_take (s := s.settled) (t := t.settled) moved.sameCapacity.slabStart front inside⟩

/-- The settled session after a release does not depend on what was held back before. -/
theorem settled_releaseNext (s : Session) (c : Reading) :
    (s.settled.releaseNext c).settled = (s.releaseNext c).settled := by
  have same := s.pipe.takeByteCount.2.releaseBatched_holding (s.slabAt s.received.length)
    (s.releaseNext c |>.slabAt (s.releaseNext c).received.length)
    s.pipe.takeByteCount.2.consumer.slabTail s.pipe.takeByteCount.2.consumer.blobTail
  exact congrArg (fun q => { s.releaseNext c with pipe := q }) same

/-- A fragment that ends where the reader has been is received. -/
theorem Aligned.le_received {k : Nat} (aligned : s.Aligned) (inside : k ≤ s.published)
    (passed : s.slabAt k ≤ s.pipe.consumer.slabTail) : k ≤ s.received.length := by
  have visible_le := aligned.1.visible_le
  rcases Nat.lt_or_ge s.received.length k with beyond | received
  · have ahead := aligned.2.tail_lt (by omega)
    have later : s.slabAt (s.received.length + 1) ≤ s.slabAt k := s.slabAt_mono beyond
    omega
  · exact received

end Session

/-! ## Places -/

namespace Rereader

variable {x y : Rereader} {c : Turn} {a : Action} {t : Session}

/-- Where the reader stands: all that it has received is published and none of it is released ahead
of it; its batch holds back the end of a fragment, and so is the place to which it returns. -/
structure Placed (x : Rereader) : Prop where
  aligned : x.session.settled.Aligned
  held : ∃ k, k ≤ x.session.published ∧
    x.session.pipe.consumer.heldSlab = x.session.slabAt k
  resumed_le : x.resumed.length ≤ x.session.published
  resume : x.session.pipe.consumer.resume.slabTail = x.session.slabAt x.resumed.length
  confirmed : x.session.pipe.consumer.resume.confirmed = x.session.slabAt x.resumed.length

theorem Placed.released_le_of_place {k : Nat} (h : x.Placed)
    (later : x.session.pipe.store.slabTail ≤ x.session.slabAt k) : x.session.released ≤ k := by
  have given : x.session.pipe.store.slabTail = x.session.slabAt x.session.released :=
    h.aligned.2.given
  have released_le : x.session.released ≤ x.session.written.length := h.aligned.released_le
  rcases Nat.lt_or_ge k x.session.released with short | covered
  · have before := Session.slabAt_lt short released_le
    omega
  · exact covered

/-- A call that does not concern replays keeps the places. -/
theorem Placed.move (h : x.Placed) (aligned : t.settled.Aligned) (more : x.session.Extends t)
    (resume : t.pipe.consumer.resume = x.session.pipe.consumer.resume)
    (held : t.pipe.consumer.heldSlab = x.session.pipe.consumer.heldSlab ∨
      ∃ k, k ≤ t.published ∧ t.pipe.consumer.heldSlab = t.slabAt k) :
    Placed ⟨t, x.resumed⟩ := by
  have here := more.place _ h.resumed_le
  refine ⟨aligned, ?_, Nat.le_trans h.resumed_le more.published, ?_, ?_⟩
  · rcases held with same | ended
    · obtain ⟨k, inside, place⟩ := h.held
      exact ⟨k, Nat.le_trans inside more.published,
        (same.trans place).trans (more.place k inside).symm⟩
    · exact ended
  · exact (congrArg Resume.slabTail resume).trans (h.resume.trans here.symm)
  · exact (congrArg Resume.confirmed resume).trans (h.confirmed.trans here.symm)

theorem Placed.quiet (h : x.Placed) (change : x.session.Change a t)
    (quiet : a.endsReleasing = false) : Placed ⟨t, x.resumed⟩ :=
  h.move (h.aligned.change (change.settled quiet h.aligned)).1 (change.extends quiet h.aligned)
    change.same_resume (.inl (change.sameTails quiet).heldSlab)

/-- What a release holds back is what was held back before, or the fragment that it ends. -/
theorem Placed.heldSlab_release {r : Reading} (h : x.Placed) (reading : x.session.reading = some r)
    (closed : r.confirmed = true) :
    (x.session.releaseNext r).pipe.consumer.heldSlab = x.session.pipe.consumer.heldSlab ∨
      (x.session.releaseNext r).pipe.consumer.heldSlab =
        x.session.slabAt (x.session.received.length + 1) := by
  obtain ⟨w, -, -, tail, -⟩ := h.aligned.2.before_release h.aligned.1 reading closed
  have released : (x.session.releaseNext r).pipe = x.session.pipe.takeByteCount.2.releaseBatched
    x.session.pipe.takeByteCount.2.consumer.slabTail
    x.session.pipe.takeByteCount.2.consumer.blobTail := rfl
  by_cases complete : x.session.pipe.consumer.countdown - 1 ≤ 0
  · left
    rw [released, Pipe.releaseBatched_of_complete (p := x.session.pipe.takeByteCount.2) complete]
    rfl
  · right
    rw [released, Pipe.releaseBatched_of_partial (p := x.session.pipe.takeByteCount.2) complete]
    exact tail

theorem Placed.release {r : Reading} (h : x.Placed) (reading : x.session.reading = some r)
    (closed : r.confirmed = true) : Placed ⟨x.session.releaseNext r, x.resumed⟩ := by
  have change : x.session.ReaderChange .release (x.session.releaseNext r) :=
    .released reading closed
  have side := change.sameWriter
  have behind := h.aligned.2.received_lt (by rw [show x.session.settled.reading = _ from reading]; rfl)
  have after := (h.aligned.change (.inr (.released reading closed))).1
  have aligned := ((Session.passes_settled after).aligned after).1
  refine h.move ?_ side.extends (Session.Change.same_resume (.inr change)) ?_
  · rw [← Session.settled_releaseNext]
    exact aligned
  · refine (h.heldSlab_release reading closed).imp_right fun ended => ?_
    refine ⟨x.session.received.length + 1, ?_, ?_⟩
    · rw [side.published]
      exact behind
    · rw [side.slabAt]
      exact ended

theorem Placed.flush (h : x.Placed) (kept : x.guarded (.plain .flushReleased)) :
    Placed ⟨{ x.session with pipe := x.session.pipe.flushReleased }, x.resumed⟩ := by
  have change : x.session.ReaderChange .flushReleased
    { x.session with pipe := x.session.pipe.flushReleased } := .flushedReleased
  obtain ⟨_, _, moved⟩ := x.session.pipe.flushReleased_eq
  have same : x.session.pipe.flushReleased.consumer.heldSlab =
      x.session.pipe.consumer.heldSlab := by
    rw [moved]
    rfl
  have passes : x.session.settled.Passes
      (x.session.pipe.flushReleased.holding (x.session.slabAt x.session.received.length)) := by
    refine ⟨{ x.session.pipe.keeps_flushReleased with }, rfl, ?_⟩
    rcases x.session.pipe.slabTail_flushReleased with ⟨ahead, given⟩ | ⟨-, given⟩
    · -- The guard tells that the reader has been where the fragment held back ends.
      obtain ⟨k, inside, place⟩ := h.held
      have passed : x.session.slabAt k ≤ x.session.pipe.consumer.slabTail := by
        rcases kept with covered | passed
        · omega
        · omega
      exact ⟨k, h.released_le_of_place (by omega), h.aligned.le_received inside passed,
        given.trans place⟩
    · exact ⟨x.session.released, Nat.le_refl _, h.aligned.2.given_le,
        given.trans h.aligned.2.given⟩
  exact h.move (passes.aligned h.aligned).1 change.sameWriter.extends
    (Session.Change.same_resume (.inr change)) (.inl same)

theorem Placed.releaseToHere (h : x.Placed) (idle : x.session.reading = none) :
    Placed ⟨{ x.session with pipe := x.session.pipe.releaseToHere }, x.resumed⟩ := by
  have change : x.session.ReaderChange .releaseToHere
    { x.session with pipe := x.session.pipe.releaseToHere } := .releasedToHere idle
  obtain ⟨tail, -⟩ := h.aligned.2.idle idle
  have passes : x.session.settled.Passes
      (x.session.pipe.releaseToHere.holding (x.session.slabAt x.session.received.length)) :=
    ⟨{ x.session.pipe.keeps_releaseToHere with }, rfl, x.session.received.length,
      h.aligned.2.given_le, Nat.le_refl _, tail⟩
  exact h.move (passes.aligned h.aligned).1 change.sameWriter.extends
    (Session.Change.same_resume (.inr change)) (.inr ⟨_, h.aligned.2.received_le, tail⟩)

theorem Placed.replay (h : x.Placed) (idle : x.session.reading = none) :
    Placed ⟨x.session.rewound,
      if x.session.pipe.isReplaying then x.resumed else x.session.received⟩ := by
  obtain ⟨tail, confirmed⟩ := h.aligned.2.idle idle
  have side := Session.sameWriter_rewound x.session
  have resume : x.session.rewound.pipe.consumer.resume = _ := x.session.pipe.resume_replay
  obtain ⟨k, inside, place⟩ := h.held
  have held : ∃ k, k ≤ x.session.rewound.published ∧
      x.session.rewound.pipe.consumer.heldSlab = x.session.rewound.slabAt k := by
    refine ⟨k, ?_, ?_⟩
    · rw [side.published]
      exact inside
    · rw [side.slabAt]
      exact (Pipe.heldSlab_replay _).trans place
  have aligned := (Session.aligned_rewound h.aligned).1
  cases replaying : x.session.pipe.isReplaying with
  | true =>
    rw [if_pos replaying] at resume
    exact ⟨aligned, held, side.published ▸ h.resumed_le, by rw [resume, side.slabAt]; exact h.resume,
      by rw [resume, side.slabAt]; exact h.confirmed⟩
  | false =>
    rw [replaying, if_neg Bool.false_ne_true] at resume
    exact ⟨aligned, held, side.published ▸ h.aligned.2.received_le,
      by rw [resume, side.slabAt]; exact tail, by rw [resume, side.slabAt]; exact confirmed⟩

theorem Placed.cancel (h : x.Placed) (idle : x.session.reading = none)
    (kept : x.guarded .cancel) :
    Placed ⟨{ x.session with pipe := x.session.pipe.cancelReplay, received := x.resumed },
      x.resumed⟩ := by
  have later : x.session.pipe.store.slabTail ≤ x.session.slabAt x.resumed.length := by
    rw [← h.resume]
    exact kept
  have aligned : (Session.settled { x.session with
      pipe := x.session.pipe.cancelReplay, received := x.resumed }).Aligned := by
    refine Session.aligned_of_sides (m := x.session.published) (r := x.session.released) ?_ ?_
    · exact h.aligned.1.of_read ⟨rfl, rfl, rfl, rfl, rfl, rfl, rfl, rfl, rfl, rfl⟩ (Int.le_refl _)
    · exact .between idle h.aligned.2.given (h.released_le_of_place later) h.resumed_le
        h.resume (Int.le_refl _) (fun _ => rfl) h.aligned.2.seen h.confirmed
  exact ⟨aligned, h.held, h.resumed_le, h.resume, h.confirmed⟩

/-- The places are kept by every call that is guarded. -/
theorem Placed.turn (h : x.Placed) (turn : x.turn c = some y) (kept : x.guarded c) :
    y.Placed := by
  cases c with
  | plain a =>
    obtain ⟨t, call, rfl⟩ := Option.map_eq_some_iff.mp turn
    by_cases quiet : a.endsReleasing = false
    · exact h.quiet (Session.change_of_step call) quiet
    · cases a with
      | release =>
        obtain ⟨r, reading, closed, rfl⟩ := Session.release_of_step call
        exact h.release reading closed
      | flushReleased =>
        cases call
        exact h.flush kept
      | releaseToHere =>
        obtain ⟨idle, rfl⟩ := Session.releaseToHere_of_step call
        exact h.releaseToHere idle
      | _ => exact absurd rfl quiet
  | replay =>
    simp only [Rereader.turn] at turn
    split at turn
    · next idle =>
      cases turn
      exact h.replay (Option.isNone_iff_eq_none.mp idle)
    · cases turn
  | cancel =>
    simp only [Rereader.turn] at turn
    split at turn
    · next idle =>
      cases turn
      exact h.cancel (Option.isNone_iff_eq_none.mp idle) kept
    · cases turn

theorem placed_of_turns (first : x.Placed) (run : Turns guarded x y) : y.Placed := by
  induction run with
  | refl => exact first
  | step _ kept turn ih => exact ih.turn turn kept

/-! ## Where the reader works -/

/-- The reader works on what is published and not released. -/
structure Within (x : Rereader) : Prop where
  released : x.session.pipe.store.slabTail ≤ x.session.pipe.consumer.slabTail
  published : x.session.pipe.consumer.slabTail ≤ x.session.pipe.store.slabHead

instance (x : Rereader) : Decidable x.Within :=
  decidable_of_iff (_ ∧ _) ⟨fun both => ⟨both.1, both.2⟩, fun h => ⟨h.released, h.published⟩⟩

/-- No release is taken back, and what is published and not released stays as it is. -/
structure Keeps (x y : Rereader) : Prop where
  slabTail : x.session.pipe.store.slabTail ≤ y.session.pipe.store.slabTail
  cells : ∀ position, x.session.pipe.store.slabTail ≤ position →
    position < x.session.pipe.store.slabHead →
    y.session.pipe.store.slab.get position = x.session.pipe.store.slab.get position

theorem Placed.within (h : x.Placed) : x.Within := by
  obtain ⟨released, published⟩ := h.aligned.within
  exact ⟨released, published⟩

theorem Keeps.of_sameWriter (side : x.session.SameWriter y.session)
    (later : x.session.pipe.store.slabTail ≤ y.session.pipe.store.slabTail) : x.Keeps y := by
  refine ⟨later, fun position _ _ => ?_⟩
  rw [side.slab]

theorem Placed.keeps_quiet (h : x.Placed) (change : x.session.Change a t)
    (quiet : a.endsReleasing = false) : x.Keeps ⟨t, x.resumed⟩ := by
  have moved := change.settled quiet h.aligned
  have stores := moved.storesWithin h.aligned
  have head : x.session.pipe.store.slabHead ≤ x.session.pipe.producer.slabHead :=
    h.aligned.visible_le_head
  have later := h.aligned.slabTail_le moved
  refine ⟨later, fun position unreleased before => ?_⟩
  exact stores.kept position unreleased (Int.lt_of_lt_of_le before head)

/-- A release publishes nothing, or the end of its fragment. -/
theorem Placed.keeps_release {r : Reading} (h : x.Placed) (reading : x.session.reading = some r)
    (closed : r.confirmed = true) : x.Keeps ⟨x.session.releaseNext r, x.resumed⟩ := by
  have change : x.session.settled.ReaderChange .release (x.session.settled.releaseNext r) :=
    .released reading closed
  have later := h.aligned.slabTail_le (.inr change)
  have same : (x.session.settled.releaseNext r).pipe.store.slabTail =
      (x.session.releaseNext r).pipe.store.slabTail :=
    congrArg (·.pipe.store.slabTail) (Session.settled_releaseNext x.session r)
  rw [same] at later
  exact .of_sameWriter (Session.ReaderChange.released reading closed).sameWriter later

theorem keeps_flush (x : Rereader) :
    x.Keeps ⟨{ x.session with pipe := x.session.pipe.flushReleased }, x.resumed⟩ := by
  refine .of_sameWriter (Session.sameWriter_of_keeps x.session.pipe.keeps_flushReleased) ?_
  show _ ≤ x.session.pipe.flushReleased.store.slabTail
  rcases x.session.pipe.slabTail_flushReleased with ⟨ahead, given⟩ | ⟨-, given⟩
  · omega
  · omega

/-- No call takes a release back or touches what is published and not released. -/
theorem Placed.keeps (h : x.Placed) (turn : x.turn c = some y) : x.Keeps y := by
  cases c with
  | plain a =>
    obtain ⟨t, call, rfl⟩ := Option.map_eq_some_iff.mp turn
    by_cases quiet : a.endsReleasing = false
    · exact h.keeps_quiet (Session.change_of_step call) quiet
    · cases a with
      | release =>
        obtain ⟨r, reading, closed, rfl⟩ := Session.release_of_step call
        exact h.keeps_release reading closed
      | flushReleased =>
        cases call
        exact x.keeps_flush
      | releaseToHere =>
        obtain ⟨idle, rfl⟩ := Session.releaseToHere_of_step call
        exact .of_sameWriter (Session.sameWriter_of_keeps x.session.pipe.keeps_releaseToHere)
          h.within.released
      | _ => exact absurd rfl quiet
  | replay =>
    simp only [Rereader.turn] at turn
    split at turn
    · cases turn
      obtain ⟨_, _, _, moved⟩ := Session.replay_eq x.session.pipe
      refine .of_sameWriter (Session.sameWriter_rewound x.session) (Int.le_of_eq ?_)
      show _ = x.session.pipe.replay.store.slabTail
      rw [moved]
    · cases turn
  | cancel =>
    simp only [Rereader.turn] at turn
    split at turn
    · cases turn
      exact ⟨Int.le_refl _, fun _ _ _ => rfl⟩
    · cases turn

/-- A call that is not guarded leaves the reader behind what is released, wherever it stood. -/
theorem behind_of_turn (turn : x.turn c = some y) (bad : ¬x.guarded c) :
    y.session.pipe.consumer.slabTail < y.session.pipe.store.slabTail := by
  cases c with
  | plain a =>
    cases a with
    | flushReleased =>
      cases turn
      obtain ⟨uncovered, ahead⟩ := not_or.mp bad
      have stays := x.session.pipe.keeps_flushReleased.slabTail
      show x.session.pipe.flushReleased.consumer.slabTail <
        x.session.pipe.flushReleased.store.slabTail
      rcases x.session.pipe.slabTail_flushReleased with ⟨-, given⟩ | ⟨covered, -⟩
      · omega
      · exact absurd covered uncovered
    | _ => exact absurd trivial bad
  | replay => exact absurd trivial bad
  | cancel =>
    simp only [Rereader.turn] at turn
    split at turn
    · cases turn
      exact Int.not_le.mp bad
    · cases turn

/-! ## Attentive readers -/

/-- What is held back is the end of a fragment that is received, or was when the replay began. -/
def Ahead (x : Rereader) : Prop :=
  x.session.pipe.consumer.heldSlab ≤ x.session.slabAt x.session.received.length ∨
    x.session.pipe.consumer.heldSlab ≤ x.session.pipe.consumer.resume.slabTail

theorem Placed.guarded_of_attentive (h : x.Placed) (ahead : x.Ahead) (kept : x.attentive c) :
    x.guarded c := by
  have working : x.session.pipe.consumer.slabTail =
      x.session.slabAt x.session.received.length + x.session.settled.passedCells := h.aligned.2.tail
  have released := h.within.released
  cases c with
  | plain a =>
    cases a with
    | flushReleased =>
      have through := of_decide_eq_false kept
      rcases ahead with received | resumed
      · exact .inr (by omega)
      · exact .inr (by omega)
    | _ => trivial
  | replay => trivial
  | cancel =>
    have replaying := of_decide_eq_true kept
    show x.session.pipe.store.slabTail ≤ x.session.pipe.consumer.resume.slabTail
    omega

theorem Ahead.plain (ahead : x.Ahead) (h : x.Placed) (call : x.session.step a = some t) :
    Ahead ⟨t, x.resumed⟩ := by
  have change := Session.change_of_step call
  have resume := change.same_resume
  by_cases quiet : a.endsReleasing = false
  · have received := change.same_received quiet
    have place := (change.extends quiet h.aligned).place _ h.aligned.2.received_le
    unfold Ahead
    rw [(change.sameTails quiet).heldSlab, resume, received]
    exact ahead.imp_left fun before => Int.le_trans before (Int.le_of_eq place.symm)
  · cases a with
    | release =>
      obtain ⟨r, reading, closed, rfl⟩ := Session.release_of_step call
      have length : (x.session.releaseNext r).received.length = x.session.received.length + 1 := by
        simp [Session.releaseNext]
      have next := x.session.slabAt_mono (Nat.le_succ x.session.received.length)
      unfold Ahead
      rw [resume, length]
      rcases h.heldSlab_release reading closed with same | ended
      · rw [same]
        exact ahead.imp_left fun before => Int.le_trans before next
      · exact .inl (Int.le_of_eq ended)
    | flushReleased =>
      cases call
      obtain ⟨_, _, moved⟩ := x.session.pipe.flushReleased_eq
      unfold Ahead
      rw [moved]
      exact ahead
    | releaseToHere =>
      obtain ⟨idle, rfl⟩ := Session.releaseToHere_of_step call
      exact .inl (Int.le_of_eq (h.aligned.2.idle idle).1)
    | _ => exact absurd rfl quiet

theorem Ahead.turn (ahead : x.Ahead) (h : x.Placed) (turn : x.turn c = some y)
    (kept : x.attentive c) : y.Ahead := by
  cases c with
  | plain a =>
    obtain ⟨t, call, rfl⟩ := Option.map_eq_some_iff.mp turn
    exact ahead.plain h call
  | replay =>
    simp only [Rereader.turn] at turn
    split at turn
    · next idle =>
      cases turn
      have here : x.session.pipe.consumer.slabTail = x.session.slabAt x.session.received.length :=
        (h.aligned.2.idle (Option.isNone_iff_eq_none.mp idle)).1
      -- The reader is behind the place that it remembers, or remembers the place where it is.
      right
      show x.session.pipe.replay.consumer.heldSlab ≤ x.session.pipe.replay.consumer.resume.slabTail
      rw [Pipe.heldSlab_replay, Pipe.resume_replay]
      split
      · next replaying =>
        have behind := of_decide_eq_true replaying
        rcases ahead with received | resumed
        · omega
        · exact resumed
      · next through =>
        have passed := of_decide_eq_false (Bool.not_eq_true _ ▸ through)
        show x.session.pipe.consumer.heldSlab ≤ x.session.pipe.consumer.slabTail
        rcases ahead with received | resumed
        · omega
        · omega
    · cases turn
  | cancel =>
    simp only [Rereader.turn] at turn
    split at turn
    · next idle =>
      cases turn
      have here : x.session.pipe.consumer.slabTail = x.session.slabAt x.session.received.length :=
        (h.aligned.2.idle (Option.isNone_iff_eq_none.mp idle)).1
      have behind := of_decide_eq_true kept
      right
      show x.session.pipe.consumer.heldSlab ≤ x.session.pipe.consumer.resume.slabTail
      rcases ahead with received | resumed
      · omega
      · exact resumed
    · cases turn

theorem guarded_of_turns (first : x.Placed) (ahead : x.Ahead) (run : Turns attentive x y) :
    Turns guarded x y ∧ y.Ahead := by
  induction run with
  | refl => exact ⟨.refl, ahead⟩
  | step _ kept turn ih =>
    obtain ⟨run, ahead⟩ := ih
    have placed := placed_of_turns first run
    exact ⟨run.step (placed.guarded_of_attentive ahead kept) turn, ahead.turn placed turn kept⟩

theorem placed_start {registry : Registry} {config : Config} {slab blob : Int} {p : Pipe}
    (prepared : registry.Prepares config slab blob p) :
    (Rereader.start p).Placed ∧ (Rereader.start p).Ahead := by
  have aligned := (Session.batched_of_prepares prepared).recorded.aligned
  obtain ⟨q, publish, release, events, opened, rfl⟩ := prepared.eq_inBatches
  have eq := Registry.eq_of_open? opened
  subst eq
  have first := Session.slabAt_zero (Rereader.start ((Pipe.start
    ((Store.empty registry.created config false).moveTo slab (blob % blobSpan))).inBatches publish
      release events)).session
  exact ⟨⟨((Session.passes_settled aligned).aligned aligned).1, ⟨0, Nat.zero_le _, first.symm⟩,
    Nat.zero_le _, first.symm, first.symm⟩, .inr (Int.le_refl _)⟩

end Rereader

/-- The reader works on what is published and not released, however often it goes back and returns,
with batches of any sizes and whatever the writer does meanwhile, exactly as long as it flushes
nothing ahead of itself and does not return to a place that is released: every such call keeps it
there, takes no release back and leaves the cells it has yet to read as they are, and any other call
puts it behind what is released. A reader that flushes outside of replays and cancels nothing but
replays is such a reader. -/
theorem working_within {registry : Registry} {config : Config} {slab blob : Int} {p : Pipe}
    (prepared : registry.Prepares config slab blob p) :
    (∀ x, Rereader.Turns Rereader.guarded (.start p) x →
      x.Within ∧ ∀ c y, x.turn c = some y →
        x.Keeps y ∧ (x.guarded c → y.Within) ∧
          (¬x.guarded c →
            y.session.pipe.consumer.slabTail < y.session.pipe.store.slabTail)) ∧
    ∀ x, Rereader.Turns Rereader.attentive (.start p) x →
      Rereader.Turns Rereader.guarded (.start p) x := by
  obtain ⟨first, ahead⟩ := Rereader.placed_start prepared
  constructor
  · intro x run
    have placed := Rereader.placed_of_turns first run
    refine ⟨placed.within, fun c y turn => ⟨placed.keeps turn, ?_, Rereader.behind_of_turn turn⟩⟩
    intro kept
    exact (placed.turn turn kept).within
  · intro x run
    exact (Rereader.guarded_of_turns first ahead run).1

/-- Reads a message and releases it. -/
def releaseSample : List Turn := readSample.map .plain

/-- Two messages, the first one read, read again during a replay, and the second one read after the
replay is cancelled. -/
theorem working_within_sample :
    ∃ x y, Rereader.play Rereader.attentive (.start samplePipe)
        ((writeSample (some 7) [1, 2, 3] ++ writeSample none [4, 5]).map .plain ++ releaseSample ++
          [.replay, .plain .look]) = some x ∧
      x.session.pipe.isReplaying = true ∧ x.turn .cancel = some y ∧ x.Within ∧ y.Within ∧
      x.Keeps y := by
  have evaluated : (Rereader.play Rereader.attentive (.start samplePipe)
      ((writeSample (some 7) [1, 2, 3] ++ writeSample none [4, 5]).map .plain ++ releaseSample ++
        [.replay, .plain .look])).any fun x =>
          x.session.pipe.isReplaying ∧ (x.turn .cancel).isSome ∧
            x.session.pipe.store.slabTail ≤ x.session.pipe.consumer.resume.slabTail := by
    decide +kernel
  obtain ⟨x, played, checked⟩ := (Option.any_eq_true ..).mp evaluated
  obtain ⟨replaying, returns, kept⟩ := of_decide_eq_true checked
  obtain ⟨y, turn⟩ := Option.isSome_iff_exists.mp returns
  obtain ⟨guarded, attentive⟩ := working_within (.opened open?_sample)
  obtain ⟨within, later⟩ := guarded x (attentive x (Rereader.Turns.refl.of_play played))
  obtain ⟨keeps, after, -⟩ := later .cancel y turn
  exact ⟨x, y, played, replaying, turn, within, after kept, keeps⟩

/-- The reader does not always work on what is not released. With batches of one, two messages are
read and released up to cell 13; what is then cancelled, without a replay, returns the reader to
cell 3, and the first message that it reads there is published as the released position 8. With
batches of two, one message is read and read again in a replay; what is flushed in the replay is
ahead of the reader. -/
theorem behind_released :
    (Rereader.play Rereader.anyTurn (.start (samplePipe.setReleaseBatch 1).2)
      ((writeSample (some 7) [1, 2, 3] ++ writeSample none [4, 5]).map .plain ++ releaseSample ++
        releaseSample ++ [.cancel])).bind (fun x =>
          (Rereader.play Rereader.anyTurn x releaseSample).map fun y =>
            ((x.session.pipe.consumer.slabTail, x.session.pipe.store.slabTail),
              y.session.pipe.store.slabTail)) = some ((3, 13), 8) ∧
    (Rereader.play Rereader.anyTurn (.start samplePipe)
      ((writeSample (some 7) [1, 2, 3] ++ writeSample none [4, 5]).map .plain ++ releaseSample ++
        [.replay, .plain .flushReleased])).map (fun x =>
          (x.session.pipe.consumer.slabTail, x.session.pipe.store.slabTail)) = some (3, 8) := by
  decide +kernel

end FragmentPipe
