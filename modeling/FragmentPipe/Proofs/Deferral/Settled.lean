import FragmentPipe.Proofs.Deferral.Calls
import FragmentPipe.Proofs.Transfer.Batching

/-!
Runs with releases put off, seen as plain runs. `Session.settled` puts the place that the reader's
batch holds back at the end of the last fragment received, where plain calls have it. As long as no
call takes the released position back, every call is then a plain one with more given back before
and after it; so what plain calls keep is kept throughout. Main statements: `Session.settled_call`
and `Session.Marked.call`, what is published, held back or put off are ends of fragments.
-/

namespace FragmentPipe

namespace Session

variable {s t : Session} {a : Action}

/-- The session with the end of the last fragment received as the place held back. -/
def settled (s : Session) : Session := s.holding (s.slabAt s.received.length)

/-- Calls that give nothing back leave the fragments received as they are. -/
theorem Change.same_received (change : s.Change a t) (quiet : a.endsReleasing = false) :
    t.received = s.received := by
  rcases change with writes | reads
  · exact writes.sameReader.received
  · cases reads with
    | opened =>
      unfold openNext
      split
      · rfl
      · rfl
    | released => cases quiet
    | flushedReleased => cases quiet
    | releasedToHere => cases quiet
    | _ => rfl

/-- A plain call that gives nothing back is one for the settled session too. -/
theorem Change.settled (change : s.Change a t) (quiet : a.endsReleasing = false)
    (aligned : s.settled.Aligned) : s.settled.Change a t.settled := by
  have same := change.same_received quiet
  have moved : s.settled.Change a (t.holding (s.slabAt s.received.length)) := by
    rcases change with writes | reads
    · exact .inl (writes.holding _)
    · exact .inr (reads.holding quiet _)
  have front := (aligned.front moved).2
  have place : t.slabAt t.received.length = s.slabAt s.received.length := by
    rw [same]
    exact slabAt_eq_of_take (s := s.settled) (t := t.holding (s.slabAt s.received.length))
      moved.sameCapacity.slabStart front aligned.2.received_le
  unfold Session.settled at moved ⊢
  rw [place]
  exact moved

/-! ## Giving back -/

/-- A pipe that may stand in for that of a settled session: more is given back, but no more than is
received. -/
structure Passes (s : Session) (q : Pipe) : Prop where
  keeps : s.pipe.Keeps q
  heldSlab : q.consumer.heldSlab = s.slabAt s.received.length
  given : ∃ j, s.released ≤ j ∧ j ≤ s.received.length ∧ q.store.slabTail = s.slabAt j

variable {q : Pipe}

theorem Passes.sameWriter (passes : s.Passes q) : s.SameWriter { s with pipe := q } :=
  sameWriter_of_keeps passes.keeps

theorem Passes.aligned (passes : s.Passes q) (aligned : s.Aligned) :
    Session.Aligned { s with pipe := q } ∧
      s.released ≤ Session.released { s with pipe := q } := by
  obtain ⟨h, g⟩ := aligned
  have keeps := passes.keeps
  obtain ⟨j, grows, inside, given⟩ := passes.given
  have later : s.pipe.store.slabTail ≤ q.store.slabTail := by
    have before := s.slabAt_mono grows
    rw [given, g.given]
    exact before
  have writer := h.of_read passes.sameWriter later
  have reader : Session.ReaderAt { s with pipe := q } s.published j := by
    constructor
    · exact given
    · exact inside
    · exact g.received_le
    · exact g.received_lt
    · exact keeps.slabTail.trans g.tail
    · exact Int.le_of_eq passes.heldSlab
    · intro _
      exact passes.heldSlab
    · show q.consumer.content.headSeen ≤ _
      rw [keeps.content]
      exact g.seen
    · show q.consumer.content.confirmed = _
      rw [keeps.content]
      exact g.confirmed
    · exact g.progress
  refine ⟨aligned_of_sides writer reader, ?_⟩
  rw [reader.released_eq writer]
  exact grows

theorem Passes.recorded (passes : s.Passes q) (h : s.Recorded) :
    Session.Recorded { s with pipe := q } := by
  obtain ⟨aligned, grows⟩ := passes.aligned h.aligned
  have side := passes.sameWriter
  have keeps := passes.keeps
  have base := h.base
  have sound := h.sound
  have size := h.size
  refine ⟨aligned, h.blob.of_read side, h.records.of_read side grows, ?_, ?_, ?_⟩
  · rw [side.config]
    exact sound.of_read side
  · unfold BaseAt at base ⊢
    rw [side.blob]
    show q.consumer.readBase % _ = _
    rw [keeps.readBase]
    exact base
  · rw [side.blob, side.config]
    exact size

/-! ## Ending a fragment -/

/-- The settled session with a batch that waits for more fragments. -/
def waiting (s : Session) : Session :=
  { s.settled with pipe.consumer.countdown := 2 }

theorem passes_waiting (h : s.settled.Recorded) : s.settled.Passes s.waiting.pipe := by
  have reader := h.aligned.2
  exact ⟨{ Pipe.Keeps.refl s.settled.pipe with }, rfl,
    ⟨_, Nat.le_refl _, reader.given_le, reader.given⟩⟩

theorem recorded_waiting (h : s.settled.Recorded) : s.waiting.Recorded :=
  (passes_waiting h).recorded h

/-- Where the reader stands after the byte count of a fragment. -/
theorem after_byteCount {c : Reading} (h : s.settled.Recorded) (reading : s.reading = some c)
    (closed : c.confirmed = true) :
    ∃ w, s.next? = some w ∧ s.pipe.takeByteCount.1 = (w.taken : Int) % blobSpan ∧
      s.pipe.takeByteCount.2.consumer.slabTail = s.slabAt (s.received.length + 1) ∧
      s.pipe.takeByteCount.2.consumer.blobTail % (s.pipe.store.blob.size : Int) =
        s.blobAt (s.received.length + 1) % (s.pipe.store.blob.size : Int) := by
  have waiting := recorded_waiting h
  obtain ⟨w, next, -, tail, -⟩ := h.aligned.2.before_release h.aligned.1 reading closed
  obtain ⟨w', next', -, count⟩ := takeByteCount_fst h.records h.aligned reading closed
  rw [next] at next'
  cases next'
  have base := waiting.base.release waiting.records waiting.aligned waiting.turn reading closed
  unfold BaseAt at base
  have length : (s.waiting.releaseNext c).received.length = s.received.length + 1 := by
    simp [releaseNext, Session.waiting, Session.settled, Session.holding]
  rw [length] at base
  exact ⟨w, next, count, tail, base⟩

end Session

/-! ## Ends of fragments -/

/-- Whether so many bytes end within one of the fragments that are put off. -/
def Deferred.stopsInside (count : Int) : List Deferred → Bool
  | [] => false
  | entry :: rest =>
    if count ≤ 0 then false
    else if entry.length ≤ count then stopsInside (count - entry.length) rest
    else true

/-- A call that gives back bytes ends where a fragment ends. -/
def Call.Whole (c : Call) (s : Session) : Prop :=
  match c with
  | releaseBytes count => Deferred.stopsInside count s.pipe.consumer.deferred = false
  | _ => True

namespace Pipe

/-- What the reader has published, holds back or puts off are ends of fragments. -/
structure TailsIn (p : Pipe) (ends : Int → Int → Prop) : Prop where
  given : ends p.store.slabTail p.store.blobTail
  held : ends p.consumer.heldSlab p.consumer.heldBlob
  deferred : ∀ e ∈ p.consumer.deferred, ends e.slabTail e.blobTail

variable {p : Pipe} {ends : Int → Int → Prop} {slabTail blobTail : Int}

theorem TailsIn.releaseBatched (h : p.TailsIn ends) (mark : ends slabTail blobTail) :
    (p.releaseBatched slabTail blobTail).TailsIn ends := by
  by_cases complete : p.consumer.countdown - 1 ≤ 0
  · rw [releaseBatched_of_complete complete]
    exact { h with given := mark }
  · rw [releaseBatched_of_partial complete]
    exact { h with held := mark }

theorem TailsIn.flushReleased (h : p.TailsIn ends) : p.flushReleased.TailsIn ends := by
  unfold Pipe.flushReleased
  split
  · exact { h with given := h.held }
  · exact { h with }

theorem TailsIn.releaseToHere (h : p.TailsIn ends)
    (mark : ends p.consumer.slabTail p.consumer.blobTail) : p.releaseToHere.TailsIn ends :=
  { h with given := mark, held := mark }

theorem TailsIn.deferRelease (h : p.TailsIn ends)
    (mark : ends p.takeByteCount.2.consumer.slabTail p.takeByteCount.2.consumer.blobTail) :
    p.deferRelease.2.TailsIn ends := by
  refine { h with deferred := ?_ }
  intro e member
  rcases List.mem_append.mp member with before | last
  · exact h.deferred e before
  · rw [List.mem_singleton] at last
    rw [last]
    exact mark

theorem TailsIn.releaseDeferred (h : p.TailsIn ends) : p.releaseDeferred.2.TailsIn ends := by
  have deferred := h.deferred
  unfold Pipe.releaseDeferred
  split
  · exact h
  · next entry rest queue =>
    rw [queue] at deferred
    have popped : ({ p with consumer.deferred := rest } : Pipe).TailsIn ends :=
      { h with deferred := fun e member => deferred e (List.mem_cons_of_mem _ member) }
    exact popped.releaseBatched (deferred entry List.mem_cons_self)

theorem TailsIn.releaseEntries {entries : List Deferred} (h : p.TailsIn ends)
    (marks : ∀ e ∈ entries, ends e.slabTail e.blobTail) :
    (p.releaseEntries entries).TailsIn ends := by
  induction entries generalizing p with
  | nil => exact h
  | cons entry rest ih =>
    exact ih (h.releaseBatched (marks entry List.mem_cons_self))
      fun e member => marks e (List.mem_cons_of_mem _ member)

/-- Bytes that end within a fragment move a blob tail away from the ends of fragments. -/
theorem TailsIn.releaseBytes {count : Int} {entries : List Deferred} (h : p.TailsIn ends)
    (marks : ∀ e ∈ entries, ends e.slabTail e.blobTail)
    (whole : (∀ cell b b', ends cell b → ends cell b') ∨
      Deferred.stopsInside count entries = false) :
    (p.releaseBytes count entries).TailsIn ends := by
  induction entries generalizing p count with
  | nil => exact { h with deferred := nofun }
  | cons entry rest ih =>
    unfold Pipe.releaseBytes
    by_cases nothing : count ≤ 0
    · rw [if_pos nothing]
      exact { h with deferred := marks }
    · rw [if_neg nothing]
      by_cases all : entry.length ≤ count
      · rw [if_pos all]
        refine ih (h.releaseBatched (marks entry List.mem_cons_self))
          (fun e member => marks e (List.mem_cons_of_mem _ member)) ?_
        refine whole.imp_right fun inside => ?_
        rwa [Deferred.stopsInside, if_neg nothing, if_pos all] at inside
      · rw [if_neg all]
        -- The fragment is given back in part, and only the blob tails move.
        rcases whole with anywhere | inside
        · have first := marks entry List.mem_cons_self
          refine ⟨anywhere _ _ _ h.given, anywhere _ _ _ h.held, ?_⟩
          intro e member
          rcases List.mem_cons.mp member with rfl | later
          · exact first
          · exact marks e (List.mem_cons_of_mem _ later)
        · rw [Deferred.stopsInside, if_neg nothing, if_neg all] at inside
          cases inside

/-- What the reader has published, holds back or puts off is the same. -/
structure SameTails (p q : Pipe) : Prop where
  slabTail : q.store.slabTail = p.store.slabTail
  blobTail : q.store.blobTail = p.store.blobTail
  heldSlab : q.consumer.heldSlab = p.consumer.heldSlab
  heldBlob : q.consumer.heldBlob = p.consumer.heldBlob
  deferred : q.consumer.deferred = p.consumer.deferred

theorem SameTails.refl (p : Pipe) : p.SameTails p := ⟨rfl, rfl, rfl, rfl, rfl⟩

theorem TailsIn.of_same {q : Pipe} (h : p.TailsIn ends) (same : p.SameTails q) :
    q.TailsIn ends := by
  constructor
  · rw [same.slabTail, same.blobTail]
    exact h.given
  · rw [same.heldSlab, same.heldBlob]
    exact h.held
  · rw [same.deferred]
    exact h.deferred

theorem TailsIn.mono {ends' : Int → Int → Prop} (h : p.TailsIn ends)
    (wider : ∀ cell byte, ends cell byte → ends' cell byte) : p.TailsIn ends' :=
  ⟨wider _ _ h.given, wider _ _ h.held, fun e member => wider _ _ (h.deferred e member)⟩

end Pipe

namespace Session

/-- A slab and a blob position are the end of a fragment that is received; where it is not `strict`,
the blob position may be anywhere. -/
def Ends (s : Session) (strict : Bool) (cell byte : Int) : Prop :=
  ∃ j, j ≤ s.received.length ∧ cell = s.slabAt j ∧
    (strict = true →
      byte % (s.pipe.store.blob.size : Int) = s.blobAt j % (s.pipe.store.blob.size : Int))

/-- The tails of the reader are ends of fragments, and between fragments it stands at its base. -/
structure Marked (s : Session) (strict : Bool) : Prop where
  tails : s.pipe.TailsIn (s.Ends strict)
  here : s.reading = none → s.pipe.consumer.blobTail = s.pipe.consumer.readBase

variable {s t : Session} {a : Action} {strict : Bool} {c : Call}

theorem Ends.anywhere {cell : Int} (byte byte' : Int) (mark : s.Ends false cell byte) :
    s.Ends false cell byte' := by
  obtain ⟨j, inside, same, -⟩ := mark
  exact ⟨j, inside, same, nofun⟩

/-- The ends of the fragments that were received before a call. -/
theorem Ends.mono {cell byte : Int} (mark : s.Ends strict cell byte)
    (more : s.received.length ≤ t.received.length)
    (size : t.pipe.store.blob.size = s.pipe.store.blob.size)
    (cells : ∀ k, k ≤ s.received.length → t.slabAt k = s.slabAt k)
    (bytes : ∀ k, k ≤ s.received.length → t.blobAt k = s.blobAt k) : t.Ends strict cell byte := by
  obtain ⟨j, inside, same, place⟩ := mark
  refine ⟨j, Nat.le_trans inside more, same.trans (cells j inside).symm, ?_⟩
  intro asked
  rw [size, bytes j inside]
  exact place asked

/-- A plain call that gives nothing back leaves the tails alone. -/
theorem Change.sameTails (change : s.Change a t) (quiet : a.endsReleasing = false) :
    s.pipe.SameTails t.pipe := by
  rcases change with writes | reads
  · have side := writes.sameReader
    have consumer := side.consumer
    refine ⟨side.slabTail, writes.same_blobTail, ?_, ?_, ?_⟩
    · rw [consumer]
    · rw [consumer]
    · rw [consumer]
  · cases reads with
    | opened =>
      unfold openNext
      split
      · exact ⟨rfl, rfl, rfl, rfl, rfl⟩
      · exact ⟨rfl, rfl, rfl, rfl, rfl⟩
    | @took c w e kind =>
      obtain ⟨_, _, moved⟩ := s.pipe.takeField_eq kind
      unfold takeNext
      dsimp only
      rw [moved]
      exact ⟨rfl, rfl, rfl, rfl, rfl⟩
    | released => cases quiet
    | flushedReleased => cases quiet
    | releasedToHere => cases quiet
    | _ => exact ⟨rfl, rfl, rfl, rfl, rfl⟩

theorem Change.same_here (change : s.Change a t) (quiet : a.endsReleasing = false)
    (here : s.reading = none → s.pipe.consumer.blobTail = s.pipe.consumer.readBase) :
    t.reading = none → t.pipe.consumer.blobTail = t.pipe.consumer.readBase := by
  rcases change with writes | reads
  · have side := writes.sameReader
    rw [side.reading, side.consumer]
    exact here
  · cases reads with
    | looked => exact here
    | opened =>
      unfold openNext
      split
      · exact nofun
      · exact nofun
    | took => exact nofun
    | passed => exact nofun
    | released => cases quiet
    | flushedReleased => cases quiet
    | releasedToHere => cases quiet

/-- The fragments that the reader has received, and their ends, are the same. -/
structure SameEnds (s t : Session) : Prop where
  received : t.received = s.received
  size : t.pipe.store.blob.size = s.pipe.store.blob.size
  cells : ∀ k, k ≤ s.received.length → t.slabAt k = s.slabAt k
  bytes : ∀ k, k ≤ s.received.length → t.blobAt k = s.blobAt k

theorem Change.sameEnds (h : s.settled.Recorded) (change : s.Change a t)
    (quiet : a.endsReleasing = false) : s.SameEnds t := by
  have moved := change.settled quiet h.aligned
  have front := (h.aligned.front moved).2
  have same := change.sameCapacity
  have upto := h.aligned.2.received_le
  refine ⟨change.same_received quiet, same.blob, fun k inside => ?_, fun k inside => ?_⟩
  · exact slabAt_eq_of_take (s := s.settled) (t := t.settled) same.slabStart front
      (Nat.le_trans inside upto)
  · exact blobAt_eq_of_take (s := s.settled) (t := t.settled) same.blobStart front
      (Nat.le_trans inside upto)

theorem sameEnds_of_keeps {q : Pipe} (keeps : s.pipe.Keeps q) :
    s.SameEnds { s with pipe := q } :=
  ⟨rfl, congrArg Ring.size keeps.blob, fun _ _ => rfl, fun _ _ => rfl⟩

theorem Ends.of_same {cell byte : Int} (mark : s.Ends strict cell byte) (same : s.SameEnds t) :
    t.Ends strict cell byte := by
  refine mark.mono ?_ same.size same.cells same.bytes
  exact Nat.le_of_eq (congrArg List.length same.received).symm

theorem Marked.change (m : s.Marked strict) (h : s.settled.Recorded) (change : s.Change a t)
    (quiet : a.endsReleasing = false) : t.Marked strict := by
  have same := change.sameEnds h quiet
  have tails := m.tails.of_same (change.sameTails quiet)
  exact ⟨tails.mono fun cell byte mark => mark.of_same same, change.same_here quiet m.here⟩

/-- What gives nothing but tails back keeps the ends of fragments. -/
theorem Marked.back {q : Pipe} (m : s.Marked strict) (keeps : s.pipe.Keeps q)
    (tails : q.TailsIn (s.Ends strict)) : Session.Marked { s with pipe := q } strict := by
  have here := m.here
  constructor
  · exact tails.mono fun cell byte mark => mark.of_same (sameEnds_of_keeps keeps)
  · show s.reading = none → q.consumer.blobTail = q.consumer.readBase
    rw [keeps.blobTail, keeps.readBase]
    exact here

/-- An end of a fragment, or the place where the reader comes to stand behind its fragment. -/
def EndsOrHere (s : Session) (strict : Bool) (cell byte : Int) : Prop :=
  s.Ends strict cell byte ∨
    cell = s.pipe.takeByteCount.2.consumer.slabTail ∧
      byte = s.pipe.takeByteCount.2.consumer.blobTail

/-- The end of a fragment that is read to its end is one more end. -/
theorem marked_of_ended {r : Reading} {q : Pipe} {receipt : Receipt}
    (keeps : s.pipe.takeByteCount.2.Keeps q)
    (tails : q.TailsIn (s.EndsOrHere strict))
    (h : s.settled.Recorded) (reading : s.reading = some r) (closed : r.confirmed = true) :
    Session.Marked
      { s with pipe := q, received := s.received ++ [receipt], reading := none } strict := by
  obtain ⟨-, -, -, cell, byte⟩ := after_byteCount h reading closed
  have size : q.store.blob.size = s.pipe.store.blob.size := congrArg Ring.size keeps.blob
  have length : (s.received ++ [receipt]).length = s.received.length + 1 := by simp
  constructor
  · refine tails.mono fun c b mark => ?_
    rcases mark with mark | ⟨rfl, rfl⟩
    · refine mark.mono ?_ size (fun _ _ => rfl) fun _ _ => rfl
      rw [length]
      exact Nat.le_succ _
    · refine ⟨s.received.length + 1, Nat.le_of_eq length.symm, cell, fun _ => ?_⟩
      show _ % (q.store.blob.size : Int) = _ % (q.store.blob.size : Int)
      rw [size]
      exact byte
  · intro _
    show q.consumer.blobTail = q.consumer.readBase
    rw [keeps.blobTail, keeps.readBase]
    rfl

theorem Marked.release {r : Reading} (m : s.Marked strict) (h : s.settled.Recorded)
    (reading : s.reading = some r) (closed : r.confirmed = true) :
    (s.releaseNext r).Marked strict := by
  have wider : s.pipe.TailsIn (s.EndsOrHere strict) := m.tails.mono fun _ _ => Or.inl
  have counted : s.pipe.takeByteCount.2.TailsIn (s.EndsOrHere strict) :=
    ⟨wider.given, wider.held, wider.deferred⟩
  exact marked_of_ended (Pipe.keeps_releaseBatched ..) (counted.releaseBatched (.inr ⟨rfl, rfl⟩)) h
    reading closed

theorem Marked.defer {r : Reading} (m : s.Marked strict) (h : s.settled.Recorded)
    (reading : s.reading = some r) (closed : r.confirmed = true) :
    (s.deferNext r).Marked strict := by
  have wider : s.pipe.TailsIn (s.EndsOrHere strict) := m.tails.mono fun _ _ => Or.inl
  exact marked_of_ended { Pipe.Keeps.refl s.pipe.takeByteCount.2 with }
    (wider.deferRelease (.inr ⟨rfl, rfl⟩)) h reading closed

theorem Marked.releaseToHere (m : s.Marked strict) (h : s.settled.Recorded)
    (idle : s.reading = none) :
    Session.Marked { s with pipe := s.pipe.releaseToHere } strict := by
  obtain ⟨tail, -⟩ := h.aligned.2.idle idle
  have base := h.base
  refine m.back s.pipe.keeps_releaseToHere (m.tails.releaseToHere ?_)
  refine ⟨s.received.length, Nat.le_refl _, tail, fun _ => ?_⟩
  rw [m.here idle]
  exact base

/-- Every call leaves the fragments that were received in their places. -/
theorem CallChange.slabAt_eq {k : Nat} (h : s.settled.Recorded) (change : s.CallChange c t)
    (inside : k ≤ s.received.length) : t.slabAt k = s.slabAt k := by
  rcases change.quiet_or_sameWriter with ⟨_, quiet, change⟩ | side
  · exact (change.sameEnds h quiet).cells k inside
  · exact side.slabAt k

/-- What is published stays published, and no call changes it. -/
theorem CallChange.front (h : s.settled.Recorded) (change : s.CallChange c t) :
    s.published ≤ t.published ∧ t.written.take s.published = s.written.take s.published := by
  rcases change.quiet_or_sameWriter with ⟨_, quiet, change⟩ | side
  · have front := h.aligned.front (change.settled quiet h.aligned)
    exact front
  · exact ⟨Nat.le_of_eq side.published.symm, congrArg (List.take _) side.written⟩

/-- A call keeps the tails at ends of fragments, unless it gives back bytes that end within one. -/
theorem Marked.call (m : s.Marked strict) (h : s.settled.Recorded) (change : s.CallChange c t)
    (whole : strict = true → c.Whole s) : t.Marked strict := by
  cases change with
  | quiet change quiet => exact m.change h change quiet
  | released reading closed => exact m.release h reading closed
  | flushed => exact m.back s.pipe.keeps_flushReleased m.tails.flushReleased
  | releasedToHere idle => exact m.releaseToHere h idle
  | deferred reading closed => exact m.defer h reading closed
  | releasedDeferred => exact m.back s.pipe.keeps_releaseDeferred m.tails.releaseDeferred
  | releasedAll =>
    have emptied : ({ s.pipe with consumer.deferred := [] } : Pipe).TailsIn (s.Ends strict) :=
      { m.tails with deferred := nofun }
    exact m.back s.pipe.keeps_releaseAllDeferred (emptied.releaseEntries m.tails.deferred)
  | releasedBytes count =>
    refine m.back (s.pipe.keeps_releaseBytes _ _) (m.tails.releaseBytes m.tails.deferred ?_)
    cases strict with
    | false => exact .inl fun cell b b' mark => mark.anywhere b b'
    | true => exact .inr (whole rfl)
  | batched => exact m.back { Pipe.Keeps.refl s.pipe with } { m.tails with }

/-! ## Calls of the settled session -/

/-- What a call is for the settled session: a plain call, or one that gives more back, or the
release of a fragment with more given back before and after it. -/
inductive Moves (s : Session) : Call → Session → Prop where
  | plain {a : Action} {t : Session} (change : s.Change a t) : Moves s (.plain a) t
  | back {c : Call} {q : Pipe} (passes : s.Passes q) : Moves s c { s with pipe := q }
  | ended {c : Call} {p q : Pipe} {r : Reading} (before : s.Passes p)
    (reading : s.reading = some r) (closed : r.confirmed = true)
    (after : (Session.releaseNext { s with pipe := p } r).Passes q) :
    Moves s c { Session.releaseNext { s with pipe := p } r with pipe := q }

/-- A released position that is the end of a fragment and not behind the one before covers all that
was given back before. -/
theorem Aligned.released_le_of_forward {k : Nat} {cell : Int} (aligned : s.Aligned)
    (same : cell = s.slabAt k) (forward : s.pipe.store.slabTail ≤ cell) : s.released ≤ k := by
  have given := aligned.2.given
  have inside := aligned.released_le
  by_cases short : k < s.released
  · have before := slabAt_lt short inside
    omega
  · exact Nat.le_of_not_lt short

/-- The published slab tail is the end of a fragment that is received. -/
def GivesEnd (s : Session) : Prop :=
  ∃ j, j ≤ s.received.length ∧ s.pipe.store.slabTail = s.slabAt j

theorem Marked.givesEnd (m : s.Marked strict) : s.GivesEnd := by
  obtain ⟨j, inside, same, -⟩ := m.tails.given
  exact ⟨j, inside, same⟩

theorem Moves.of_keeps {q : Pipe} (h : s.settled.Recorded) (keeps : s.pipe.Keeps q)
    (gives : GivesEnd { s with pipe := q })
    (forward : s.pipe.store.slabTail ≤ q.store.slabTail) :
    s.settled.Moves c (Session.settled { s with pipe := q }) := by
  obtain ⟨j, inside, same⟩ := gives
  have covers := h.aligned.released_le_of_forward (k := j) same forward
  exact .back (q := q.holding (s.slabAt s.received.length)) ⟨{ keeps with }, rfl, j, covers, inside,
    same⟩

theorem Moves.of_ended {r : Reading} {q : Pipe} {receipt : Receipt} (h : s.settled.Recorded)
    (reading : s.reading = some r) (closed : r.confirmed = true)
    (told : receipt = ⟨r.number, r.fields, s.pipe.takeByteCount.1⟩)
    (keeps : s.pipe.takeByteCount.2.Keeps q)
    (gives : GivesEnd
      { s with pipe := q, received := s.received ++ [receipt], reading := none })
    (forward : s.pipe.store.slabTail ≤ q.store.slabTail) :
    s.settled.Moves c
      (Session.settled
        { s with pipe := q, received := s.received ++ [receipt], reading := none }) := by
  subst told
  have waiting := recorded_waiting h
  -- The batch of the waiting session holds the fragment back, so nothing is given back with it.
  have early : ¬s.waiting.pipe.consumer.countdown - 1 ≤ 0 := by
    show ¬(2 : Int) - 1 ≤ 0
    decide
  have same := (waiting.aligned.released_release reading closed).2 early
  obtain ⟨j, inside, cell⟩ := gives
  have covers := waiting.aligned.released_le_of_forward (k := j) cell forward
  have held : s.waiting.pipe.takeByteCount.2.Keeps (s.waiting.releaseNext r).pipe :=
    Pipe.keeps_releaseBatched ..
  have later : ∀ cell, s.waiting.pipe.takeByteCount.2.Keeps (q.holding cell) :=
    fun _ => { keeps with }
  refine .ended (p := s.waiting.pipe) (q := q.holding _) (passes_waiting h) reading closed
    ⟨held.symm.trans (later _), rfl, j, ?_, inside, cell⟩
  show (s.waiting.releaseNext r).released ≤ j
  rw [same]
  exact covers

/-- As long as the released position is the end of a fragment received and does not go back, every
call is a plain one for the settled session, but for what is given back. -/
theorem settled_call (h : s.settled.Recorded) (change : s.CallChange c t) (gives : t.GivesEnd)
    (forward : s.pipe.store.slabTail ≤ t.pipe.store.slabTail) :
    s.settled.Moves c t.settled := by
  cases change with
  | quiet change quiet => exact .plain (change.settled quiet h.aligned)
  | released reading closed =>
    exact .of_ended h reading closed rfl (Pipe.keeps_releaseBatched ..) gives forward
  | flushed => exact .of_keeps h s.pipe.keeps_flushReleased gives forward
  | releasedToHere idle => exact .of_keeps h s.pipe.keeps_releaseToHere gives forward
  | deferred reading closed =>
    exact .of_ended h reading closed rfl { Pipe.Keeps.refl s.pipe.takeByteCount.2 with } gives
      forward
  | releasedDeferred => exact .of_keeps h s.pipe.keeps_releaseDeferred gives forward
  | releasedAll => exact .of_keeps h s.pipe.keeps_releaseAllDeferred gives forward
  | releasedBytes count => exact .of_keeps h (s.pipe.keeps_releaseBytes _ _) gives forward
  | batched => exact .of_keeps h { Pipe.Keeps.refl s.pipe with } gives forward

theorem Recorded.moves (h : s.Recorded) (moves : s.Moves c t) : t.Recorded := by
  cases moves with
  | plain change => exact h.change change
  | back passes => exact passes.recorded h
  | ended before reading closed after =>
    exact after.recorded ((before.recorded h).change (.inr (.released reading closed)))

/-! ## The beginning -/

/-- Where plain calls have led, the settled session is as good. -/
theorem passes_settled (aligned : s.Aligned) : s.Passes s.settled.pipe :=
  ⟨s.pipe.keeps_holding _, rfl, _, Nat.le_refl _, aligned.2.given_le, aligned.2.given⟩

theorem marked_start {store : Store} (same : store.slabTail = store.slabHead)
    (sameBlob : store.blobTail = store.blobHead) :
    (Session.start (.start store)).Marked strict := by
  have place : (Session.start (.start store)).slabAt 0 = store.slabHead := slabAt_zero _
  have first : (Session.start (.start store)).Ends strict store.slabTail store.blobTail := by
    rw [same, sameBlob]
    exact ⟨0, Nat.le_refl 0, place.symm, fun _ => congrArg (· % _) (Int.add_zero _).symm⟩
  exact ⟨⟨first, first, nofun⟩, fun _ => rfl⟩

theorem marked_of_open? {registry : Registry} {config : Config} {slab blob : Int} {p : Pipe}
    (opened : registry.open? config slab blob = some p) : (Session.start p).Marked strict := by
  rw [Registry.eq_of_open? opened]
  exact marked_start rfl rfl

theorem marked_of_prepares {registry : Registry} {config : Config} {slab blob : Int} {p : Pipe}
    (prepared : registry.Prepares config slab blob p) : (Session.start p).Marked strict := by
  obtain ⟨q, publish, release, events, opened, rfl⟩ := prepared.eq_inBatches
  have marked : (Session.start q).Marked strict := marked_of_open? opened
  exact ⟨{ marked.tails with }, marked.here⟩

end Session

end FragmentPipe
