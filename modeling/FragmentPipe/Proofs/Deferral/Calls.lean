import FragmentPipe.Consume.Replay
import FragmentPipe.Proofs.Transfer.Batching
import FragmentPipe.Proofs.Transfer.Fifo

/-!
A reader that puts releases off. It may end a fragment without giving it back, give back the oldest
such fragments later, whole or by bytes, and change the size of its batches; `Session.call` adds
these calls to those of `Session.step`, and `Runs` describes the runs whose calls keep to a rule.
What a batch holds back is then no longer the end of the last fragment that was read, but no other
call looks at it: main statements `WriterChange.holding` and `ReaderChange.holding`.
-/

namespace FragmentPipe

/-! ## Calls -/

/-- A plain call of either side, or a call of a reader that puts releases off. -/
inductive Call where
  | plain (a : Action)
  | defer
  | releaseDeferred
  | releaseAllDeferred
  | releaseBytes (count : Int)
  | setReleaseBatch (size : Nat)
  | setMaxReleaseBatch
  | holdReleases

namespace Session

/-- Ends a fragment and puts its release off. -/
def deferNext (s : Session) (c : Reading) : Session :=
  let ended := s.pipe.deferRelease
  { s with
    pipe := ended.2
    received := s.received ++ [⟨c.number, c.fields, ended.1⟩]
    reading := none }

/-- One call. The release of a fragment is put off where it could be released; what is put off can
be given back at any time. -/
def call (s : Session) : Call → Option Session
  | .plain a => s.step a
  | .defer =>
    match s.reading with
    | some c => if c.confirmed then some (s.deferNext c) else none
    | none => none
  | .releaseDeferred => some { s with pipe := s.pipe.releaseDeferred.2 }
  | .releaseAllDeferred => some { s with pipe := s.pipe.releaseAllDeferred }
  | .releaseBytes count => some { s with pipe := s.pipe.releaseDeferredBytes count }
  | .setReleaseBatch size => some { s with pipe := (s.pipe.setReleaseBatch size).2 }
  | .setMaxReleaseBatch => some { s with pipe := s.pipe.setMaxReleaseBatch }
  | .holdReleases => some { s with pipe := s.pipe.holdReleases }

/-- The sessions that calls lead to which the protocol allows and whose outcome keeps to a rule. -/
inductive Runs (rule : Session → Call → Session → Prop) (s : Session) : Session → Prop where
  | refl : Runs rule s s
  | step {t u : Session} {c : Call} (run : Runs rule s t) (call : t.call c = some u)
    (kept : rule t c u) : Runs rule s u

/-- Makes calls one after the other, as long as the protocol and the rule allow them. -/
def perform (rule : Session → Call → Session → Prop) [∀ s c t, Decidable (rule s c t)]
    (s : Session) : List Call → Option Session
  | [] => some s
  | c :: rest =>
    (s.call c).bind fun t => if rule s c t then perform rule t rest else none

/-- What calls one after the other come to, where `after` says what one call makes of it. -/
def along {α : Type} (after : Session → Call → Session → α → α) (s : Session) (x : α) :
    List Call → α
  | [] => x
  | c :: rest =>
    match s.call c with
    | some t => t.along after (after s c t x) rest
    | none => x

variable {rule : Session → Call → Session → Prop} {s t u : Session}

theorem Runs.mono {rule' : Session → Call → Session → Prop} (run : Runs rule s t)
    (weaker : ∀ s c t, rule s c t → rule' s c t) : Runs rule' s t := by
  induction run with
  | refl => exact .refl
  | step _ call kept ih => exact ih.step call (weaker _ _ _ kept)

theorem Runs.of_perform [∀ s c t, Decidable (rule s c t)] {calls : List Call}
    (run : Runs rule s t) (performed : perform rule t calls = some u) : Runs rule s u := by
  induction calls generalizing t with
  | nil =>
    cases performed
    exact run
  | cons c rest ih =>
    rw [perform, Option.bind_eq_some_iff] at performed
    obtain ⟨v, call, later⟩ := performed
    split at later
    · next kept => exact ih (run.step call kept) later
    · cases later

/-- What holds of a session and what the calls have come to, and is kept by every call, holds at the
end. -/
theorem along_of_perform [∀ s c t, Decidable (rule s c t)] {α : Type}
    {after : Session → Call → Session → α → α} {inv : Session → α → Prop} {calls : List Call}
    {x : α}
    (keeps : ∀ {s c t x}, inv s x → s.call c = some t → rule s c t → inv t (after s c t x))
    (first : inv s x) (performed : perform rule s calls = some t) :
    inv t (s.along after x calls) := by
  induction calls generalizing s x with
  | nil =>
    cases performed
    exact first
  | cons c rest ih =>
    rw [perform, Option.bind_eq_some_iff] at performed
    obtain ⟨u, call, later⟩ := performed
    split at later
    · next kept =>
      rw [along, call]
      exact ih (keeps first call kept) later
    · cases later

end Session

/-- Reads a message and puts its release off. -/
def deferSample : List Call :=
  [.plain .receive, .plain (.take .optionalInt), .plain (.take .bytes), .plain .pass, .defer]

/-- Two messages of three and two bytes, both to be read, and releases one by one. -/
def twoMessages : List Call :=
  (writeSample (some 7) [1, 2, 3] ++ writeSample none [4, 5]).map .plain ++
    [.plain .flush, .setReleaseBatch 1]

/-! ## What giving back leaves alone -/

namespace Pipe

/-- Of the second pipe more is given back than of the first: the writer's side and the places where
the reader stands are the same. -/
structure Keeps (p q : Pipe) : Prop where
  producer : q.producer = p.producer
  config : q.store.config = p.store.config
  slab : q.store.slab = p.store.slab
  blob : q.store.blob = p.store.blob
  slabHead : q.store.slabHead = p.store.slabHead
  blobHead : q.store.blobHead = p.store.blobHead
  slabTail : q.consumer.slabTail = p.consumer.slabTail
  blobTail : q.consumer.blobTail = p.consumer.blobTail
  readBase : q.consumer.readBase = p.consumer.readBase
  content : q.consumer.content = p.consumer.content

variable {p q r : Pipe}

theorem Keeps.refl (p : Pipe) : p.Keeps p := ⟨rfl, rfl, rfl, rfl, rfl, rfl, rfl, rfl, rfl, rfl⟩

theorem Keeps.trans (first : p.Keeps q) (second : q.Keeps r) : p.Keeps r where
  producer := second.producer.trans first.producer
  config := second.config.trans first.config
  slab := second.slab.trans first.slab
  blob := second.blob.trans first.blob
  slabHead := second.slabHead.trans first.slabHead
  blobHead := second.blobHead.trans first.blobHead
  slabTail := second.slabTail.trans first.slabTail
  blobTail := second.blobTail.trans first.blobTail
  readBase := second.readBase.trans first.readBase
  content := second.content.trans first.content

theorem Keeps.symm (keeps : p.Keeps q) : q.Keeps p where
  producer := keeps.producer.symm
  config := keeps.config.symm
  slab := keeps.slab.symm
  blob := keeps.blob.symm
  slabHead := keeps.slabHead.symm
  blobHead := keeps.blobHead.symm
  slabTail := keeps.slabTail.symm
  blobTail := keeps.blobTail.symm
  readBase := keeps.readBase.symm
  content := keeps.content.symm

theorem keeps_withTails (p : Pipe) (given held : Int × Int) (countdown : Int) (noted : Noted)
    (delay : Nat) (regulator : Option Regulator) :
    p.Keeps (p.withTails given held countdown noted delay regulator) :=
  ⟨rfl, rfl, rfl, rfl, rfl, rfl, rfl, rfl, rfl, rfl⟩

theorem keeps_releaseBatched (p : Pipe) (slabTail blobTail : Int) :
    p.Keeps (p.releaseBatched slabTail blobTail) := by
  obtain ⟨_, _, _, _, _, _, moved⟩ := p.releaseBatched_eq slabTail blobTail
  rw [moved]
  exact p.keeps_withTails ..

theorem deferred_releaseBatched (p : Pipe) (slabTail blobTail : Int) :
    (p.releaseBatched slabTail blobTail).consumer.deferred = p.consumer.deferred := by
  obtain ⟨_, _, _, _, _, _, moved⟩ := p.releaseBatched_eq slabTail blobTail
  rw [moved]
  rfl

theorem deferred_flushReleased (p : Pipe) :
    p.flushReleased.consumer.deferred = p.consumer.deferred := by
  obtain ⟨_, _, moved⟩ := p.flushReleased_eq
  rw [moved]
  rfl

theorem deferred_releaseEntries (p : Pipe) (entries : List Deferred) :
    (p.releaseEntries entries).consumer.deferred = p.consumer.deferred := by
  induction entries generalizing p with
  | nil => rfl
  | cons entry rest ih => exact (ih _).trans (p.deferred_releaseBatched _ _)

theorem keeps_flushReleased (p : Pipe) : p.Keeps p.flushReleased := by
  obtain ⟨_, _, moved⟩ := p.flushReleased_eq
  rw [moved]
  exact p.keeps_withTails ..

theorem keeps_releaseToHere (p : Pipe) : p.Keeps p.releaseToHere := { Keeps.refl p with }

theorem keeps_releaseDeferred (p : Pipe) : p.Keeps p.releaseDeferred.2 := by
  unfold releaseDeferred
  split
  · exact .refl p
  · next entry rest _ =>
    exact { keeps_releaseBatched { p with consumer.deferred := rest } _ _ with }

theorem keeps_releaseEntries (p : Pipe) (entries : List Deferred) :
    p.Keeps (p.releaseEntries entries) := by
  induction entries generalizing p with
  | nil => exact .refl p
  | cons entry rest ih => exact (p.keeps_releaseBatched _ _).trans (ih _)

theorem keeps_releaseAllDeferred (p : Pipe) : p.Keeps p.releaseAllDeferred :=
  { keeps_releaseEntries { p with consumer.deferred := [] } p.consumer.deferred with }

theorem keeps_releaseBytes (p : Pipe) (count : Int) (entries : List Deferred) :
    p.Keeps (p.releaseBytes count entries) := by
  induction entries generalizing p count with
  | nil => exact { Keeps.refl p with }
  | cons entry rest ih =>
    unfold releaseBytes
    split
    · exact { Keeps.refl p with }
    · split
      · exact (p.keeps_releaseBatched _ _).trans (ih _ _)
      · exact { Keeps.refl p with }

end Pipe

/-! ## Tails that the other side looks at -/

namespace Pipe

/-- The pipe with another place held back by the reader's batch. -/
def holding (p : Pipe) (cell : Int) : Pipe := { p with consumer.heldSlab := cell }

variable (p : Pipe) (cell : Int)

theorem keeps_holding : p.Keeps (p.holding cell) := { Keeps.refl p with }

theorem takeField_holding (kind : FieldKind) :
    (p.holding cell).takeField kind =
      ((p.takeField kind).1, (p.takeField kind).2.holding cell) := by
  have same := p.takeField_beside p.producer cell kind
  obtain ⟨tail, events, moved⟩ := p.takeField_eq kind
  rw [moved] at same ⊢
  exact same

/-- The pipe with another published slab tail, which the writer has seen as `seen`, and another
place held back by the reader's batch. -/
def facing (p : Pipe) (given seen held : Int) : Pipe :=
  { p with store.slabTail := given, producer.room.tailSeen := seen, consumer.heldSlab := held }

variable (given seen held : Int)

theorem holding_eq_facing :
    p.holding cell = p.facing p.store.slabTail p.producer.room.tailSeen cell := rfl

theorem publishBatched_facing :
    (p.facing given seen held).publishBatched = p.publishBatched.facing given seen held := by
  by_cases complete : p.producer.countdown - 1 ≤ 0
  · rw [publishBatched_of_complete complete,
      publishBatched_of_complete (p := p.facing given seen held) complete]
    rfl
  · rw [publishBatched_of_partial complete,
      publishBatched_of_partial (p := p.facing given seen held) complete]
    rfl

theorem flushPublished_facing :
    (p.facing given seen held).flushPublished = p.flushPublished.facing given seen held := by
  have visible : (p.facing given seen held).store.slabHead = p.store.slabHead := rfl
  have batch : (p.facing given seen held).producer.heldSlab = p.producer.heldSlab := rfl
  unfold flushPublished
  rw [visible, batch]
  split
  · rfl
  · rfl

end Pipe

namespace Stroke

variable (w : Stroke) (p : Pipe) (given seen held : Int)

/-- The answer to what is written does not depend on where the reader stands. -/
theorem run_facing : (w.run (p.facing given seen held)).1 = (w.run p).1 := by
  cases w with
  | entry e => exact e.put_fst_congr (p := p) (q := p.facing given seen held) rfl rfl
  | made m => exact m.put_fst_congr (p := p) (q := p.facing given seen held) rfl rfl rfl
  | piece c => exact c.run_fst_congr (p := p) (q := p.facing given seen held) rfl

theorem reach_facing : w.reach (p.facing given seen held) = w.reach p := by
  cases w with
  | entry e => rfl
  | made m => rfl
  | piece c => exact c.reach_congr p (p.facing given seen held)

theorem Stores.facing {w : Stroke} {p : Pipe} {e : Entry} {blob : Ring UInt8}
    (stores : w.Stores p e blob) : w.Stores (p.facing given seen held) e blob where
  accepted := by
    rw [w.run_facing]
    exact stores.accepted
  writes := stores.writes
  sound := stores.sound
  within := by
    rw [w.reach_facing]
    exact stores.within
  held := stores.held

end Stroke

namespace Session

/-- The session with another place held back by the reader's batch. -/
def holding (s : Session) (cell : Int) : Session := { s with pipe := s.pipe.holding cell }

/-- The session with another published slab tail, as the writer sees it, and another place held back
by the reader's batch. -/
def facing (s : Session) (given seen held : Int) : Session :=
  { s with pipe := s.pipe.facing given seen held }

variable {s t : Session} {a : Action} {given seen seen' held : Int}

/-- A call of the writer looks at the released position, at most. -/
theorem WriterChange.seesTail (change : s.WriterChange a t) :
    s.pipe.SeesTail t.pipe.producer.room.tailSeen := by
  cases change with
  | asked sees => exact sees
  | begun _ _ _ sees => exact sees
  | nested _ _ _ sees => exact sees
  | published =>
    obtain ⟨_, _, _, _, _, _, moved⟩ := s.pipe.putByteCount.publishBatched_eq
    rw [moved]
    exact .inl rfl
  | flushed =>
    obtain ⟨_, _, moved⟩ := s.pipe.flushPublished_eq
    rw [moved]
    exact .inl rfl
  | _ => exact .inl rfl

/-- A call of the writer does the same where no less is given back and the writer has seen no less,
whatever the reader's batch holds back. -/
theorem WriterChange.facing (change : s.WriterChange a t) (held : Int)
    (more : s.pipe.store.slabTail ≤ given)
    (sees : (s.pipe.facing given seen held).SeesTail seen')
    (further : t.pipe.producer.room.tailSeen ≤ seen')
    (still : t.pipe.producer.room.tailSeen = s.pipe.producer.room.tailSeen → seen' = seen) :
    (s.facing given seen held).WriterChange a (t.facing given seen' held) := by
  cases change with
  | asked => exact .asked sees
  | begun idle fragment starts _ room =>
    exact WriterChange.begun (s := s.facing given seen held) idle fragment starts sees
      (Int.le_trans room further)
  | nested idle fragment inner _ room =>
    exact .nested idle fragment inner sees (Int.le_trans room further)
  | put draft unconfirmed fits stores =>
    obtain rfl := still rfl
    exact WriterChange.put (s := s.facing given seen' held) draft unconfirmed fits
      (stores.facing given seen' held)
  | @aside w blob average isOpen events cause within moved =>
    obtain rfl := still rfl
    rw [← w.reach_facing s.pipe given seen' held] at within
    exact WriterChange.aside (s := s.facing given seen' held) within moved
  | confirmed draft unconfirmed full =>
    obtain rfl := still rfl
    exact .confirmed draft unconfirmed full
  | @published d draft closed =>
    obtain ⟨_, _, _, _, _, _, same⟩ := s.pipe.putByteCount.publishBatched_eq
    obtain rfl := still (by rw [same]; rfl)
    have moved := WriterChange.published (s := s.facing given seen' held) draft closed
    have same : (s.facing given seen' held).pipe.putByteCount.publishBatched =
        s.pipe.putByteCount.publishBatched.facing given seen' held :=
      s.pipe.putByteCount.publishBatched_facing given seen' held
    rw [same] at moved
    exact moved
  | flushed =>
    obtain ⟨_, _, same⟩ := s.pipe.flushPublished_eq
    obtain rfl := still (by rw [same]; rfl)
    have moved := WriterChange.flushed (s := s.facing given seen' held)
    have same : (s.facing given seen' held).pipe.flushPublished =
        s.pipe.flushPublished.facing given seen' held :=
      s.pipe.flushPublished_facing given seen' held
    rw [same] at moved
    exact moved
  | abandoned =>
    obtain rfl := still rfl
    exact .abandoned
  | finished idle room =>
    obtain rfl := still rfl
    exact .finished idle (Int.le_trans room (Int.add_le_add_right more _))

/-- A call of the writer does the same whatever the reader's batch holds back. -/
theorem WriterChange.holding (change : s.WriterChange a t) (cell : Int) :
    (s.holding cell).WriterChange a (t.holding cell) := by
  have same := change.sameReader.slabTail
  have sees : (s.pipe.facing s.pipe.store.slabTail s.pipe.producer.room.tailSeen cell).SeesTail
      t.pipe.producer.room.tailSeen := change.seesTail
  have moved := change.facing cell (Int.le_refl _) sees (Int.le_refl _) id
  unfold Session.holding
  rw [Pipe.holding_eq_facing, Pipe.holding_eq_facing, same]
  exact moved

/-- A call of the reader that gives nothing back does the same whatever the batch holds back. -/
theorem ReaderChange.holding (change : s.ReaderChange a t) (quiet : a.endsReleasing = false)
    (cell : Int) : (s.holding cell).ReaderChange a (t.holding cell) := by
  cases change with
  | looked sees => exact .looked sees
  | @opened w seen idle next sees content =>
    have moved := ReaderChange.opened (s := s.holding cell) idle next sees content
    have same : ({ s.holding cell with
        pipe := (s.holding cell).pipe.looked seen } : Session).openNext w =
        ({ s with pipe := s.pipe.looked seen }.openNext w).holding cell := by
      unfold openNext
      split
      · rfl
      · rfl
    rw [same] at moved
    exact moved
  | @took c w e kind reading next entry fits =>
    have moved := ReaderChange.took (s := s.holding cell) reading next entry fits
    have same : (s.holding cell).takeNext c kind = (s.takeNext c kind).holding cell := by
      unfold takeNext Session.holding
      rw [Pipe.takeField_holding]
    rw [same] at moved
    exact moved
  | passed reading next unconfirmed all => exact .passed reading next unconfirmed all
  | released => cases quiet
  | flushedReleased => cases quiet
  | releasedToHere => cases quiet

/-! ## How a call comes out -/

/-- How a call comes out. -/
inductive CallChange (s : Session) : Call → Session → Prop where
  /-- Nothing is given back. -/
  | quiet {a : Action} {t : Session} (change : s.Change a t) (quiet : a.endsReleasing = false) :
    CallChange s (.plain a) t
  | released {r : Reading} (reading : s.reading = some r) (closed : r.confirmed = true) :
    CallChange s (.plain .release) (s.releaseNext r)
  | flushed : CallChange s (.plain .flushReleased) { s with pipe := s.pipe.flushReleased }
  | releasedToHere (idle : s.reading = none) :
    CallChange s (.plain .releaseToHere) { s with pipe := s.pipe.releaseToHere }
  | deferred {r : Reading} (reading : s.reading = some r) (closed : r.confirmed = true) :
    CallChange s .defer (s.deferNext r)
  | releasedDeferred : CallChange s .releaseDeferred { s with pipe := s.pipe.releaseDeferred.2 }
  | releasedAll : CallChange s .releaseAllDeferred { s with pipe := s.pipe.releaseAllDeferred }
  | releasedBytes (count : Int) :
    CallChange s (.releaseBytes count) { s with pipe := s.pipe.releaseDeferredBytes count }
  /-- The batches change and nothing else. -/
  | batched {c : Call} (batch countdown : Int) (events : List Event) :
    CallChange s c
      { s with
        pipe.consumer.batch := batch
        pipe.consumer.countdown := countdown
        pipe.store.events := events }

theorem callChange_of_step (call : s.step a = some t) : s.CallChange (.plain a) t := by
  by_cases quiet : a.endsReleasing = false
  · exact .quiet (change_of_step call) quiet
  · cases a with
    | release =>
      obtain ⟨r, reading, closed, rfl⟩ := release_of_step call
      exact .released reading closed
    | flushReleased =>
      cases call
      exact .flushed
    | releaseToHere =>
      obtain ⟨idle, rfl⟩ := releaseToHere_of_step call
      exact .releasedToHere idle
    | _ => exact absurd rfl quiet

/-- Every call that the protocol allows comes out in one of these ways. -/
theorem callChange_of_call {c : Call} (call : s.call c = some t) : s.CallChange c t := by
  cases c with
  | plain a => exact callChange_of_step call
  | defer =>
    simp only [Session.call] at call
    split at call
    · next r reading =>
      split at call
      · next closed =>
        cases call
        exact .deferred reading closed
      · cases call
    · cases call
  | releaseDeferred =>
    cases call
    exact .releasedDeferred
  | releaseAllDeferred =>
    cases call
    exact .releasedAll
  | releaseBytes count =>
    cases call
    exact .releasedBytes count
  | setReleaseBatch size =>
    cases call
    unfold Pipe.setReleaseBatch
    dsimp only
    split
    · exact .batched s.pipe.consumer.batch s.pipe.consumer.countdown s.pipe.store.events
    · exact .batched size size _
  | setMaxReleaseBatch =>
    cases call
    exact .batched _ _ _
  | holdReleases =>
    cases call
    exact .batched Pipe.endlessBatch Pipe.endlessBatch s.pipe.store.events

theorem sameWriter_of_keeps {q : Pipe} (keeps : s.pipe.Keeps q) :
    s.SameWriter { s with pipe := q } :=
  ⟨keeps.producer, keeps.config, keeps.slab, keeps.blob, keeps.slabHead, keeps.blobHead, rfl, rfl,
    rfl, rfl⟩

/-- What gives back or puts off leaves the writer's side alone. -/
theorem CallChange.quiet_or_sameWriter {c : Call} (change : s.CallChange c t) :
    (∃ a, a.endsReleasing = false ∧ s.Change a t) ∨ s.SameWriter t := by
  cases change with
  | @quiet a _ change quiet => exact .inl ⟨a, quiet, change⟩
  | released reading closed => exact .inr (ReaderChange.released reading closed).sameWriter
  | flushed => exact .inr (sameWriter_of_keeps s.pipe.keeps_flushReleased)
  | releasedToHere => exact .inr (sameWriter_of_keeps s.pipe.keeps_releaseToHere)
  | releasedDeferred => exact .inr (sameWriter_of_keeps s.pipe.keeps_releaseDeferred)
  | releasedAll => exact .inr (sameWriter_of_keeps s.pipe.keeps_releaseAllDeferred)
  | releasedBytes count => exact .inr (sameWriter_of_keeps (s.pipe.keeps_releaseBytes _ _))
  | deferred | batched => exact .inr ⟨rfl, rfl, rfl, rfl, rfl, rfl, rfl, rfl, rfl, rfl⟩

/-- No call changes the config. -/
theorem config_of_runs {rule : Session → Call → Session → Prop} (run : Runs rule s t) :
    t.pipe.store.config = s.pipe.store.config := by
  induction run with
  | refl => rfl
  | step _ call _ ih =>
    rcases (callChange_of_call call).quiet_or_sameWriter with ⟨_, -, change⟩ | side
    · exact change.sameCapacity.config.trans ih
    · exact side.config.trans ih

/-- In a run of a pipe that is prepared, the config is the one that it was created with. -/
theorem config_of_prepares {rule : Session → Call → Session → Prop} {registry : Registry}
    {config : Config} {slab blob : Int} {p : Pipe} (prepared : registry.Prepares config slab blob p)
    (run : Runs rule (Session.start p) s) : s.pipe.store.config = config := by
  obtain ⟨q, publish, release, events, opened, rfl⟩ := prepared.eq_inBatches
  refine (config_of_runs run).trans ?_
  rw [Registry.eq_of_open? opened]
  rfl

end Session

end FragmentPipe
