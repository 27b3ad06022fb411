import FragmentPipe.Proofs.Deferral.Postponed
import FragmentPipe.Proofs.Deferral.Settled

/-!
Runs with releases in any order. A release out of turn lets the published tails pass what is put
off, and what is made up for afterwards takes them back; the writer then has more in the slab than
it would find room for. `Session.eased` is the session in which all that is received is given back
and the writer knows it. What the writer may do it may do there too, and the reader looks at nothing
of it. Main statement: `Ease.call`, every call keeps the eased session right and the tails before the
end of what is received.
-/

namespace FragmentPipe

namespace Pipe

variable {p q : Pipe}

/-- What is published of the tails is of no concern to the reader. -/
theorem takeField_facing (p : Pipe) (given seen held : Int) (kind : FieldKind) :
    (p.facing given seen held).takeField kind =
      ((p.takeField kind).1, (p.takeField kind).2.facing given seen held) := by
  let w : Producer := { p.producer with room.tailSeen := seen }
  have beside := p.takeField_beside w held kind
  have unaware := unaware_takeField kind (p.beside w held)
    { (p.beside w held).dues with slabTail := given }
  obtain ⟨tail, events, moved⟩ := p.takeField_eq kind
  dsimp only at unaware
  rw [beside, moved] at unaware
  rw [moved]
  exact unaware

theorem Keeps.facing (keeps : p.Keeps q) (given seen held : Int) :
    (p.facing given seen held).Keeps (q.facing given seen held) :=
  { keeps with producer := congrArg (fun w => { w with room.tailSeen := seen }) keeps.producer }

end Pipe

namespace Session

variable {s t : Session} {a : Action} {c : Call}

/-- The session with all given back that is received, as the writer knows. -/
def eased (s : Session) : Session :=
  s.facing (s.slabAt s.received.length) (s.slabAt s.received.length) (s.slabAt s.received.length)

/-- The tails, published, held back or put off, and what the writer has seen of them, are not behind
the end of what is received. -/
structure Trails (s : Session) : Prop where
  tails : s.pipe.TailsIn fun cell _ => cell ≤ s.slabAt s.received.length
  seen : s.pipe.producer.room.tailSeen ≤ s.slabAt s.received.length

/-! ## Calls that give nothing back -/

/-- A call of the reader that gives nothing back does the same whatever is published of the tails.
-/
theorem ReaderChange.facing (change : s.ReaderChange a t) (quiet : a.endsReleasing = false)
    (given seen held : Int) :
    (s.facing given seen held).ReaderChange a (t.facing given seen held) := by
  cases change with
  | looked sees => exact .looked sees
  | @opened w head idle next sees content =>
    have moved := ReaderChange.opened (s := s.facing given seen held) idle next sees content
    have same : ({ s.facing given seen held with
        pipe := (s.facing given seen held).pipe.looked head } : Session).openNext w =
        ({ s with pipe := s.pipe.looked head }.openNext w).facing given seen held := by
      unfold openNext
      split
      · rfl
      · rfl
    rw [same] at moved
    exact moved
  | @took c w e kind reading next entry fits =>
    have moved := ReaderChange.took (s := s.facing given seen held) reading next entry fits
    have same : (s.facing given seen held).takeNext c kind =
        (s.takeNext c kind).facing given seen held := by
      unfold takeNext Session.facing
      rw [Pipe.takeField_facing]
    rw [same] at moved
    exact moved
  | passed reading next unconfirmed all => exact .passed reading next unconfirmed all
  | released => cases quiet
  | flushedReleased => cases quiet
  | releasedToHere => cases quiet

/-- What the writer has seen after a call of either side. -/
theorem Trails.seen_change (r : s.Trails) (change : s.Change a t) :
    t.pipe.producer.room.tailSeen ≤ s.slabAt s.received.length := by
  rcases change with writes | reads
  · rcases writes.seesTail with same | same
    · rw [same]
      exact r.seen
    · rw [same]
      exact r.tails.given
  · rw [reads.sameWriter.producer]
    exact r.seen

/-- A plain call that gives nothing back is one for the eased session too. -/
theorem Change.eased (change : s.Change a t) (quiet : a.endsReleasing = false)
    (aligned : s.eased.Aligned) (r : s.Trails) :
    s.eased.Change a t.eased ∧ t.slabAt t.received.length = s.slabAt s.received.length := by
  have same := change.same_received quiet
  have moved : s.eased.Change a (t.facing (s.slabAt s.received.length)
      (s.slabAt s.received.length) (s.slabAt s.received.length)) := by
    have seen := r.seen_change change
    rcases change with writes | reads
    · exact .inl (writes.facing _ r.tails.given (.inl rfl) seen fun _ => rfl)
    · exact .inr (reads.facing quiet _ _ _)
  have front := (aligned.front moved).2
  have place : t.slabAt t.received.length = s.slabAt s.received.length := by
    rw [same]
    exact slabAt_eq_of_take (s := s.eased) (t := t.facing _ _ _) moved.sameCapacity.slabStart front
      aligned.2.received_le
  refine ⟨?_, place⟩
  unfold Session.eased at moved ⊢
  rw [place]
  exact moved

/-! ## Giving back -/

/-- With more given back than the session has, the eased session stays the same. -/
theorem Recorded.eased (h : s.Recorded) : s.eased.Recorded := by
  obtain ⟨⟨writer, reader⟩, blob, records, sound, base, size⟩ := h
  have given_le : s.pipe.store.slabTail ≤ s.slabAt s.received.length := by
    rw [reader.given]
    exact s.slabAt_mono reader.given_le
  have writer' : s.eased.WriterAt s.published :=
    { writer with
      seen := Int.le_refl _
      admitted := Int.le_trans writer.admitted (Int.add_le_add_right given_le _) }
  have reader' : s.eased.ReaderAt s.published s.received.length :=
    { reader with
      given := rfl
      given_le := Nat.le_refl _
      held_le := Int.le_refl _
      held := fun _ => rfl }
  have all : s.eased.released = s.received.length := reader'.released_eq writer'
  refine ⟨aligned_of_sides writer' reader', { blob with }, ?_, { sound with }, base, size⟩
  refine ⟨fun k w found behind => ?_, records.opening⟩
  rw [all] at behind
  exact records.records k w found (Nat.le_trans reader.given_le behind)

/-- The eased session depends on nothing that giving back changes. -/
theorem Recorded.of_keeps {q : Pipe} (h : s.eased.Recorded)
    (keeps : s.eased.pipe.Keeps (Session.eased { s with pipe := q }).pipe) :
    (Session.eased { s with pipe := q }).Recorded :=
  Passes.recorded (s := s.eased) (q := (Session.eased { s with pipe := q }).pipe)
    ⟨keeps, rfl, s.received.length, h.aligned.2.given_le, Nat.le_refl _, rfl⟩ h

/-- A fragment that is read to its end is received, whatever becomes of its release. -/
theorem Recorded.ended {q : Pipe} {r : Reading} (h : s.eased.Recorded)
    (reading : s.reading = some r) (closed : r.confirmed = true)
    (keeps : s.pipe.takeByteCount.2.Keeps q) :
    (Session.eased { s with
      pipe := q
      received := s.received ++ [⟨r.number, r.fields, s.pipe.takeByteCount.1⟩]
      reading := none }).Recorded := by
  have released := h.change (.inr (.released reading closed))
  have here := (Pipe.keeps_releaseBatched s.eased.pipe.takeByteCount.2
    s.eased.pipe.takeByteCount.2.consumer.slabTail
    s.eased.pipe.takeByteCount.2.consumer.blobTail).symm
  -- The release of the eased session and the call differ in what is given back, which easing hides.
  exact released.eased.of_keeps ((here.facing _ _ _).trans (keeps.facing _ _ _))

/-- Where the reader stands after the byte count of a fragment. -/
theorem slabTail_byteCount {r : Reading} (h : s.eased.Recorded) (reading : s.reading = some r)
    (closed : r.confirmed = true) :
    s.pipe.takeByteCount.2.consumer.slabTail = s.slabAt (s.received.length + 1) := by
  obtain ⟨w, next, -, tail, -⟩ := h.aligned.2.before_release h.aligned.1 reading closed
  exact tail

/-! ## Every call -/

/-- The state of a run with releases in any order. -/
structure Ease (s : Session) : Prop where
  recorded : s.eased.Recorded
  trails : s.Trails

theorem Ease.change (e : s.Ease) (change : s.Change a t) (quiet : a.endsReleasing = false) :
    t.Ease := by
  obtain ⟨h, r⟩ := e
  obtain ⟨moved, place⟩ := change.eased quiet h.aligned r
  refine ⟨h.change moved, ?_, ?_⟩
  · rw [place]
    exact r.tails.of_same (change.sameTails quiet)
  · rw [place]
    exact r.seen_change change

/-- Giving back within what is received. -/
theorem Ease.back {q : Pipe} (e : s.Ease) (keeps : s.pipe.Keeps q)
    (tails : q.TailsIn fun cell _ => cell ≤ s.slabAt s.received.length) :
    Ease { s with pipe := q } := by
  obtain ⟨h, r⟩ := e
  refine ⟨h.of_keeps (keeps.facing _ _ _), tails, ?_⟩
  show q.producer.room.tailSeen ≤ _
  rw [keeps.producer]
  exact r.seen

theorem Ease.ended {q : Pipe} {r : Reading} (e : s.Ease) (reading : s.reading = some r)
    (closed : r.confirmed = true) (keeps : s.pipe.takeByteCount.2.Keeps q)
    (tails : s.pipe.TailsIn (fun cell _ => cell ≤ s.slabAt (s.received.length + 1)) →
      q.TailsIn fun cell _ => cell ≤ s.slabAt (s.received.length + 1)) :
    Ease { s with
      pipe := q
      received := s.received ++ [⟨r.number, r.fields, s.pipe.takeByteCount.1⟩]
      reading := none } := by
  obtain ⟨h, trails⟩ := e
  have later := s.slabAt_mono (Nat.le_succ s.received.length)
  have length :
      (s.received ++ [⟨r.number, r.fields, s.pipe.takeByteCount.1⟩] : List Receipt).length =
        s.received.length + 1 := by simp
  refine ⟨h.ended reading closed keeps, ?_, ?_⟩
  · show q.TailsIn fun cell _ => cell ≤ s.slabAt (List.length _)
    rw [length]
    exact tails (trails.tails.mono fun cell _ before => Int.le_trans before later)
  · show q.producer.room.tailSeen ≤ s.slabAt (List.length _)
    rw [length, keeps.producer]
    exact Int.le_trans trails.seen later

theorem Ease.call (e : s.Ease) (change : s.CallChange c t) : t.Ease := by
  have tails := e.trails.tails
  cases change with
  | quiet change quiet => exact e.change change quiet
  | released reading closed =>
    refine e.ended reading closed (Pipe.keeps_releaseBatched ..) fun tails => ?_
    have counted : s.pipe.takeByteCount.2.TailsIn
        fun cell _ => cell ≤ s.slabAt (s.received.length + 1) := { tails with }
    exact counted.releaseBatched (Int.le_of_eq (slabTail_byteCount e.recorded reading closed))
  | deferred reading closed =>
    refine e.ended reading closed { Pipe.Keeps.refl s.pipe.takeByteCount.2 with } fun tails => ?_
    exact tails.deferRelease (Int.le_of_eq (slabTail_byteCount e.recorded reading closed))
  | flushed => exact e.back s.pipe.keeps_flushReleased tails.flushReleased
  | releasedToHere idle =>
    obtain ⟨tail, -⟩ := e.recorded.aligned.2.idle idle
    exact e.back s.pipe.keeps_releaseToHere (tails.releaseToHere (Int.le_of_eq tail))
  | releasedDeferred => exact e.back s.pipe.keeps_releaseDeferred tails.releaseDeferred
  | releasedAll =>
    have emptied : ({ s.pipe with consumer.deferred := [] } : Pipe).TailsIn
        fun cell _ => cell ≤ s.slabAt s.received.length := { tails with deferred := nofun }
    exact e.back s.pipe.keeps_releaseAllDeferred (emptied.releaseEntries tails.deferred)
  | releasedBytes count =>
    exact e.back (s.pipe.keeps_releaseBytes _ _)
      (tails.releaseBytes tails.deferred (.inl fun _ _ _ before => before))
  | batched => exact e.back { Pipe.Keeps.refl s.pipe with } { tails with }

theorem ease_of_prepares {registry : Registry} {config : Config} {slab blob : Int} {p : Pipe}
    (prepared : registry.Prepares config slab blob p) : (Session.start p).Ease := by
  have recorded := (batched_of_prepares prepared).recorded
  have marked : (Session.start p).Marked false := marked_of_prepares prepared
  refine ⟨recorded.eased, ?_, Int.le_trans recorded.aligned.1.seen ?_⟩
  · refine marked.tails.mono ?_
    rintro cell byte ⟨j, inside, rfl, -⟩
    exact Session.slabAt_mono _ inside
  · rw [recorded.aligned.2.given]
    exact Session.slabAt_mono _ recorded.aligned.2.given_le

end Session

end FragmentPipe
