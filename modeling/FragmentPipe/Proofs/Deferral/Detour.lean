import Mathlib.Data.List.Chain
import FragmentPipe.Proofs.Deferral.Resuming

/-!
Going back and returning with nothing in between. A replay remembers where the reader stood unless one
is under way, and whether one is under way is told by the cells alone: a replay that has nothing to go
back over is not told from none. `Pipe.HasLeft` says that the reader stands where a replay begins and
remembers a place, `Pipe.Returned` that it is back at that place. Main statement: `leaps_return_iff`,
any number of such calls leads back to where they began, unless the reader goes back twice in a row
from a place that is not behind the released cells and is another one than that where a replay begins.
-/

namespace FragmentPipe

/-- A call of a reader that goes back to what is not released, or returns. -/
inductive Leap where
  | replay
  | cancel
  deriving DecidableEq

namespace Pipe

/-- Makes the call. -/
def leap (p : Pipe) : Leap → Pipe
  | .replay => p.replay
  | .cancel => p.cancelReplay

/-- Makes several calls with nothing in between. -/
def leaps (p : Pipe) (calls : List Leap) : Pipe := calls.foldl leap p

/-- Where the reader stands. -/
def stand (p : Pipe) : Resume :=
  ⟨p.consumer.slabTail, p.consumer.blobTail, p.consumer.readBase, p.consumer.content.confirmed⟩

/-- Where a replay begins. -/
def replayStart (p : Pipe) : Resume :=
  ⟨p.store.slabTail, p.store.blobTail, p.store.blobTail % p.store.blob.size, p.store.slabTail⟩

variable {p : Pipe} {home : Resume} {calls : List Leap}

/-! ## Single calls -/

theorem rememberPlace_store (p : Pipe) : p.rememberPlace.store = p.store := by
  unfold rememberPlace
  split <;> rfl

@[simp] theorem stand_replay (p : Pipe) : p.replay.stand = p.replayStart := by
  have same := p.rememberPlace_store
  simp only [replay, stand, replayStart, noteTail, report, ContentCache.rewind, same]

@[simp] theorem replayStart_replay (p : Pipe) : p.replay.replayStart = p.replayStart := by
  have same := p.rememberPlace_store
  simp only [replay, replayStart, noteTail, report, Store.report, Store.noteTail, same]

theorem replayStart_leap (p : Pipe) (call : Leap) : (p.leap call).replayStart = p.replayStart := by
  cases call with
  | replay => exact p.replayStart_replay
  | cancel => rfl

theorem isReplaying_eq (p : Pipe) :
    p.isReplaying = decide (p.stand.slabTail < p.consumer.resume.slabTail) := rfl

/-! ## Away and back -/

/-- The reader went back and has a place to return to. -/
structure HasLeft (p : Pipe) (home : Resume) : Prop where
  stand : p.stand = p.replayStart
  resume : p.consumer.resume = home

/-- The reader is back at the place that it remembers. -/
structure Returned (p : Pipe) (home : Resume) : Prop where
  stand : p.stand = home
  resume : p.consumer.resume = home

/-- A reader that is not on a replay leaves from where it stands. -/
theorem hasLeft_of_idle (idle : p.isReplaying = false) : p.replay.HasLeft p.stand := by
  refine ⟨by simp, ?_⟩
  rw [resume_replay, idle]
  rfl

theorem Returned.isReplaying (back : p.Returned home) : p.isReplaying = false := by
  rw [isReplaying_eq, back.stand, back.resume]
  exact decide_eq_false (Int.lt_irrefl _)

theorem Returned.replay (back : p.Returned home) : p.replay.HasLeft home := by
  have left := hasLeft_of_idle back.isReplaying
  rwa [back.stand] at left

theorem returned_cancel (same : p.consumer.resume = home) : p.cancelReplay.Returned home :=
  ⟨same, same⟩

/-- The place to return to lies ahead of the place where a replay begins, or is the same. -/
def Recalls (p : Pipe) (home : Resume) : Prop :=
  p.replayStart.slabTail < home.slabTail ∨ p.replayStart = home

theorem HasLeft.replay (left : p.HasLeft home) (recalls : p.Recalls home) :
    p.replay.HasLeft home := by
  by_cases ahead : p.isReplaying = true
  · refine ⟨by simp, ?_⟩
    rw [resume_replay, if_pos ahead]
    exact left.resume
  · have again := hasLeft_of_idle (Bool.not_eq_true _ ▸ ahead)
    rcases recalls with further | same
    · rw [isReplaying_eq, left.stand, left.resume] at ahead
      exact absurd (decide_eq_true further) ahead
    · rwa [left.stand, same] at again

/-- Going back again, where the place to return to is not ahead, forgets it. -/
theorem HasLeft.replay_lost (left : p.HasLeft home)
    (passed : ¬p.replayStart.slabTail < home.slabTail) : p.replay.HasLeft p.replay.replayStart := by
  have idle : p.isReplaying = false := by
    rw [isReplaying_eq, left.stand, left.resume]
    exact decide_eq_false passed
  have again := hasLeft_of_idle idle
  rwa [left.stand, ← replayStart_replay] at again

/-! ## Several calls -/

/-- The reader is away from a place or back at it. -/
def Minds (p : Pipe) (home : Resume) : Prop := p.HasLeft home ∨ p.Returned home

theorem Minds.resume (minds : p.Minds home) : p.consumer.resume = home := by
  rcases minds with left | back
  · exact left.resume
  · exact back.resume

theorem recalls_leap (call : Leap) : (p.leap call).Recalls home ↔ p.Recalls home := by
  unfold Recalls
  rw [replayStart_leap]

/-- A place that lies ahead, or where a replay begins, is never forgotten. -/
theorem Minds.leaps (minds : p.Minds home) (recalls : p.Recalls home) (calls : List Leap) :
    (p.leaps calls).Minds home := by
  induction calls generalizing p with
  | nil => exact minds
  | cons call rest ih =>
    refine ih ?_ ((recalls_leap call).mpr recalls)
    cases call with
    | cancel => exact .inr (returned_cancel minds.resume)
    | replay =>
      left
      rcases minds with left | back
      · exact left.replay recalls
      · exact back.replay

/-- Going back is not followed by going back. -/
def Single (a b : Leap) : Prop := ¬(a = .replay ∧ b = .replay)

/-- No place is forgotten where going back is never followed by going back. -/
theorem Minds.leaps_single (state : (p.Returned home ∧ calls.IsChain Single) ∨
      (p.HasLeft home ∧ (Leap.replay :: calls).IsChain Single)) : (p.leaps calls).Minds home := by
  induction calls generalizing p with
  | nil =>
    rcases state with ⟨back, -⟩ | ⟨left, -⟩
    · exact .inr back
    · exact .inl left
  | cons call rest ih =>
    apply ih
    cases call with
    | replay =>
      rcases state with ⟨back, chain⟩ | ⟨-, chain⟩
      · exact .inr ⟨back.replay, chain⟩
      · rw [List.isChain_cons_cons] at chain
        exact absurd ⟨rfl, rfl⟩ chain.1
    | cancel =>
      rcases state with ⟨back, chain⟩ | ⟨left, chain⟩
      · exact .inl ⟨returned_cancel back.resume, chain.tail⟩
      · exact .inl ⟨returned_cancel left.resume, chain.tail.tail⟩

/-- Where going back is followed by going back and the place to return to is not ahead, the reader
returns to where replays begin from then on. -/
theorem minds_start_of_twice (passed : ¬p.replayStart.slabTail < home.slabTail)
    (state : (p.Returned home ∧ ¬calls.IsChain Single) ∨
      (p.HasLeft home ∧ ¬(Leap.replay :: calls).IsChain Single)) :
    (p.leaps calls).Minds p.replayStart := by
  induction calls generalizing p with
  | nil =>
    rcases state with ⟨-, chain⟩ | ⟨-, chain⟩
    · exact absurd .nil chain
    · exact absurd (.singleton _) chain
  | cons call rest ih =>
    have begins := p.replayStart_leap call
    cases call with
    | replay =>
      rcases state with ⟨back, chain⟩ | ⟨left, -⟩
      · have later := ih (p := p.replay) (by rwa [replayStart_replay]) (.inr ⟨back.replay, chain⟩)
        rwa [replayStart_replay] at later
      · have lost := left.replay_lost passed
        rw [replayStart_replay] at lost
        exact Minds.leaps (.inl lost) (.inr begins) rest
    | cancel =>
      have chain : ¬rest.IsChain Single := by
        rcases state with ⟨-, chain⟩ | ⟨-, chain⟩
        · intro single
          refine chain (List.isChain_cons.mpr ⟨?_, single⟩)
          intro next _ both
          exact Leap.noConfusion both.1
        · intro single
          refine chain (List.isChain_cons_cons.mpr ⟨?_, List.isChain_cons.mpr ⟨?_, single⟩⟩)
          · intro both
            exact Leap.noConfusion both.2
          · intro next _ both
            exact Leap.noConfusion both.1
      have same := state.elim (fun s => s.1.resume) (fun s => s.1.resume)
      exact ih (p := p.cancelReplay) passed (.inl ⟨returned_cancel same, chain⟩)

/-- Calls that end with a return leave the reader at the place that it remembers. -/
theorem stand_of_last (last : calls.getLast? = some .cancel) :
    (p.leaps calls).stand = (p.leaps calls).consumer.resume := by
  obtain ⟨front, rfl⟩ := List.getLast?_eq_some_iff.mp last
  rw [leaps, List.foldl_append]
  rfl

end Pipe

/-- A reader that is on no replay goes back and returns, any number of times with nothing in between.
It then stands where it stood, is on no replay, and has its cells, its bytes, the base of its fragment
and what it confirmed as before, exactly if cells were to be replayed, or a replay begins where it
stood, or it never went back twice in a row. -/
theorem leaps_return_iff {p : Pipe} (idle : p.isReplaying = false) {calls : List Leap}
    (first : calls.head? = some .replay) (last : calls.getLast? = some .cancel) :
    (p.leaps calls).isReplaying = false ∧
      ((p.leaps calls).stand = p.stand ↔
        p.store.slabTail < p.consumer.slabTail ∨ p.replayStart = p.stand ∨
          calls.IsChain Pipe.Single) := by
  obtain ⟨rest, rfl⟩ := List.head?_eq_some_iff.mp first
  have left := Pipe.hasLeft_of_idle idle
  have stands := p.stand_of_last last
  have start : p.replay.replayStart = p.replayStart := p.replayStart_replay
  constructor
  · rw [Pipe.isReplaying_eq, stands]
    exact decide_eq_false (Int.lt_irrefl _)
  · constructor
    · intro same
      by_contra other
      obtain ⟨passed, other⟩ := not_or.mp other
      obtain ⟨elsewhere, twice⟩ := not_or.mp other
      have minds : (p.replay.leaps rest).Minds p.replay.replayStart :=
        Pipe.minds_start_of_twice (by rw [start]; exact passed) (.inr ⟨left, twice⟩)
      rw [start] at minds
      exact elsewhere (minds.resume.symm.trans (stands.symm.trans same))
    · intro kept
      have minds : (p.leaps (.replay :: rest)).Minds p.stand := by
        rcases kept with ahead | same | single
        · exact Pipe.Minds.leaps (p := p.replay) (.inl left) (.inl (by rw [start]; exact ahead)) rest
        · exact Pipe.Minds.leaps (p := p.replay) (.inl left) (.inr (start.trans same)) rest
        · exact Pipe.Minds.leaps_single (p := p.replay) (.inr ⟨left, single⟩)
      exact stands.trans minds.resume

/-- Goes back twice, returns, and does so once more. -/
def backAndForth : List Leap := [.replay, .replay, .cancel, .replay, .cancel]

/-- With a fragment that is read and not released, a reader returns to where it stood. -/
theorem leaps_return_iff_sample :
    ∃ x, Rereader.play Rereader.attentive (.start samplePipe)
        ((writeSample (some 7) [1, 2, 3] ++ writeSample none [4, 5]).map .plain ++ releaseSample) =
          some x ∧
      x.session.pipe.stand = ⟨8, 1, 1, 8⟩ ∧ x.session.pipe.replayStart = ⟨3, 30, 30, 3⟩ ∧
      (x.session.pipe.leaps backAndForth).stand = ⟨8, 1, 1, 8⟩ := by
  have evaluated : (Rereader.play Rereader.attentive (.start samplePipe)
      ((writeSample (some 7) [1, 2, 3] ++ writeSample none [4, 5]).map .plain ++
        releaseSample)).any fun x =>
          x.session.pipe.stand = ⟨8, 1, 1, 8⟩ ∧ x.session.pipe.replayStart = ⟨3, 30, 30, 3⟩ ∧
            x.session.pipe.isReplaying = false := by
    decide +kernel
  obtain ⟨x, played, checked⟩ := (Option.any_eq_true ..).mp evaluated
  obtain ⟨stand, start, idle⟩ := of_decide_eq_true checked
  have first : backAndForth.head? = some .replay := rfl
  have last : backAndForth.getLast? = some .cancel := rfl
  obtain ⟨-, returns⟩ := leaps_return_iff idle first last
  have behind : x.session.pipe.store.slabTail < x.session.pipe.consumer.slabTail := by
    have low : x.session.pipe.store.slabTail = 3 := congrArg Resume.slabTail start
    have high : x.session.pipe.consumer.slabTail = 8 := congrArg Resume.slabTail stand
    omega
  exact ⟨x, played, stand, start, (returns.mpr (.inl behind)).trans stand⟩

/-- The pipe of the sample, with the blob at a position beyond its size. -/
def farPipe : Pipe := .start ((Store.empty 0 sampleConfig false).moveTo 3 62)

theorem open?_far : Registry.empty.open? sampleConfig 3 62 = some farPipe := by
  rfl

/-- A reader that has nothing to replay does not always return. It starts with base 62 in a blob of 32
bytes; when it goes back twice and returns, its base is 30. -/
theorem base_lost :
    Registry.empty.open? sampleConfig 3 62 = some farPipe ∧ farPipe.isReplaying = false ∧
      farPipe.stand = ⟨3, 62, 62, 3⟩ ∧
      (farPipe.leaps [.replay, .replay, .cancel]).stand = ⟨3, 62, 30, 3⟩ := by
  refine ⟨open?_far, ?_⟩
  decide +kernel

end FragmentPipe
