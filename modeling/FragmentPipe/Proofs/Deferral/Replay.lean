import FragmentPipe.Proofs.Deferral.Settled

/-!
Reading again what is not released. A replay takes the reader back to the published tails, and the
blob tail alone tells it where the bytes of its fragment begin. `Session.Even` says that both tails
are the end of one fragment; giving back bytes that end within a fragment is the only call that
keeps them apart. Main statement: `replay_faithful`, from even tails every fragment that is not
released is read again as it was written.
-/

namespace FragmentPipe

/-- A plain call loses no bytes. -/
def Call.Lossless (c : Call) (s : Session) : Prop :=
  match c with
  | plain a => lossless s a
  | _ => True

instance (c : Call) (s : Session) : Decidable (c.Lossless s) :=
  match c with
  | .plain a => inferInstanceAs (Decidable (lossless s a))
  | .defer | .releaseDeferred | .releaseAllDeferred | .releaseBytes _ | .setReleaseBatch _
  | .setMaxReleaseBatch | .holdReleases => .isTrue trivial

/-- No bytes are lost, and the published slab tail does not go back. -/
def forward (s : Session) (c : Call) (t : Session) : Prop :=
  c.Lossless s ∧ s.pipe.store.slabTail ≤ t.pipe.store.slabTail

instance (s : Session) (c : Call) (t : Session) : Decidable (forward s c t) :=
  inferInstanceAs (Decidable (_ ∧ _))

instance (c : Call) (s : Session) : Decidable (c.Whole s) :=
  match c with
  | .releaseBytes _ => inferInstanceAs (Decidable (_ = _))
  | .plain _ | .defer | .releaseDeferred | .releaseAllDeferred | .setReleaseBatch _
  | .setMaxReleaseBatch | .holdReleases => .isTrue trivial

/-- Nor are bytes given back that end within a fragment. -/
def forwardWhole (s : Session) (c : Call) (t : Session) : Prop :=
  forward s c t ∧ c.Whole s

instance (s : Session) (c : Call) (t : Session) : Decidable (forwardWhole s c t) :=
  inferInstanceAs (Decidable (_ ∧ _))

/-- Whether a call can be made while fragments are read again: any call of the writer, and those of
the reader that take fragments and end them, at once or with the release put off. -/
def Call.rereads : Call → Bool
  | .plain .flushReleased | .plain .releaseToHere => false
  | .plain _ | .defer => true
  | _ => false

/-- Fragments are read again, and no bytes are lost. -/
def rereading (s : Session) (c : Call) (_ : Session) : Prop := c.Lossless s ∧ c.rereads = true

instance (s : Session) (c : Call) (t : Session) : Decidable (rereading s c t) :=
  inferInstanceAs (Decidable (_ ∧ _))

namespace Session

variable {s t : Session} {c : Call}

/-- Both published tails are the end of the same fragment. -/
def Even (s : Session) : Prop :=
  s.pipe.store.blobTail % (s.pipe.store.config.blobSize : Int) =
    s.blobAt s.released % (s.pipe.store.config.blobSize : Int)

instance (s : Session) : Decidable s.Even := inferInstanceAs (Decidable (_ = _))

/-- The reader is back at the published tails, and what was received behind them is to be read
again. -/
def rewound (s : Session) : Session :=
  { s with pipe := s.pipe.replay, received := s.received.take s.released, reading := none }

/-! ## What is settled loses nothing -/

theorem lossless_settled {a : Action} (kept : lossless s a) : lossless s.settled a := by
  cases a with
  | put w =>
    obtain ⟨accepted, fits⟩ := kept
    refine ⟨?_, ?_⟩
    · show (w.run (s.pipe.facing _ _ _)).1.isOk = true
      rw [w.run_facing]
      exact accepted
    · show s.unreleasedBytes + w.reach (s.pipe.facing _ _ _) ≤ _
      rw [w.reach_facing]
      exact fits
  | _ => trivial

theorem Passes.faithful {q : Pipe} (passes : s.Passes q) (f : s.Faithful) :
    Session.Faithful { s with pipe := q } := by
  obtain ⟨h, y, i, shown⟩ := f
  have side := passes.sameWriter
  obtain ⟨-, grows⟩ := passes.aligned h.aligned
  have short : Session.Short { s with pipe := q } := y.short.of_read side
  have total := unreleasedBytes_le 0 y.short short rfl grows rfl
    (Int.le_of_eq (Int.add_zero _).symm)
  have room := y.room
  refine ⟨passes.recorded h, ⟨short, ?_⟩, i.of_read side grows, ⟨?_, ?_⟩⟩
  · rw [side.blob]
    omega
  · rw [side.schema, side.config]
    exact shown.received
  · rw [side.schema, side.config]
    exact shown.reading

theorem Faithful.moves (f : s.Faithful) (moves : s.Moves c t)
    (kept : ∀ a, c = .plain a → lossless s a) : t.Faithful := by
  cases moves with
  | plain change => exact f.change change (kept _ rfl)
  | back passes => exact passes.faithful f
  | ended before reading closed after =>
    have ended := (before.faithful f).change (.inr (.released reading closed)) trivial
    exact after.faithful ended

theorem Faithful.call (f : s.settled.Faithful) (change : s.CallChange c t) (kept : c.Lossless s)
    (gives : t.GivesEnd) (later : s.pipe.store.slabTail ≤ t.pipe.store.slabTail) :
    t.settled.Faithful := by
  refine f.moves (settled_call f.recorded change gives later) ?_
  rintro a rfl
  exact lossless_settled kept

/-! ## Up to the replay -/

/-- What holds of a session in a run without loss whose slab tail does not go back. -/
structure Kept (s : Session) (strict : Bool) : Prop where
  faithful : s.settled.Faithful
  marked : s.Marked strict

theorem Kept.call {strict : Bool} (k : s.Kept strict) (call : s.call c = some t)
    (kept : forward s c t) (whole : strict = true → c.Whole s) : t.Kept strict := by
  have change := callChange_of_call call
  have marked := k.marked.call k.faithful.recorded change whole
  exact ⟨k.faithful.call change kept.1 marked.givesEnd kept.2, marked⟩

theorem kept_of_runs (first : s.Kept false) (run : Runs forward s t) : t.Kept false := by
  induction run with
  | refl => exact first
  | step _ call kept ih => exact ih.call call kept nofun

theorem kept_of_runs_whole (first : s.Kept true) (run : Runs forwardWhole s t) : t.Kept true := by
  induction run with
  | refl => exact first
  | step _ call kept ih => exact ih.call call kept.1 fun _ => kept.2

theorem kept_of_open? {registry : Registry} {config : Config} {slab blob : Int} {p : Pipe}
    {strict : Bool} (opened : registry.open? config slab blob = some p) :
    (Session.start p).Kept strict := by
  have faithful := faithful_start (recorded_of_open? opened)
  exact ⟨(passes_settled faithful.recorded.aligned).faithful faithful, marked_of_open? opened⟩

/-- Where nothing but ends of fragments is given back, the tails are even. -/
theorem Kept.even (k : s.Kept true) : s.Even := by
  obtain ⟨j, inside, cell, byte⟩ := k.marked.tails.given
  have h := k.faithful.recorded
  have size : s.pipe.store.blob.size = s.pipe.store.config.blobSize := h.size
  have upto : s.received.length ≤ s.published := h.aligned.2.received_le
  have visible : s.published ≤ s.written.length := h.aligned.1.visible_le
  have same : s.released = j := released_of_given cell (by omega)
  have place := byte rfl
  unfold Even
  rw [same, ← size]
  exact place

/-! ## From the replay on -/

/-- A replay moves the reader alone, to the published tails. -/
theorem replay_eq (p : Pipe) :
    ∃ resume noted events, p.replay =
      { p with
        consumer.slabTail := p.store.slabTail
        consumer.blobTail := p.store.blobTail
        consumer.readBase := p.store.blobTail % p.store.blob.size
        consumer.content := p.consumer.content.rewind p.store.slabTail
        consumer.resume := resume
        store.noted := noted
        store.events := events } := by
  unfold Pipe.replay Pipe.rememberPlace
  split
  · exact ⟨_, _, _, rfl⟩
  · exact ⟨_, _, _, rfl⟩

theorem sameWriter_rewound (s : Session) : s.SameWriter s.rewound := by
  obtain ⟨_, _, _, moved⟩ := replay_eq s.pipe
  unfold rewound
  rw [moved]
  exact ⟨rfl, rfl, rfl, rfl, rfl, rfl, rfl, rfl, rfl, rfl⟩

theorem SameWriter.settled (side : s.SameWriter t) : s.settled.SameWriter t.settled :=
  { side with }

/-- Back at the published tails the reader stands between fragments, with all that it has received
given back. -/
theorem aligned_rewound (aligned : s.settled.Aligned) :
    s.rewound.settled.Aligned ∧ s.rewound.settled.released = s.released := by
  obtain ⟨h, g⟩ := aligned
  obtain ⟨_, _, _, moved⟩ := replay_eq s.pipe
  have given : s.pipe.store.slabTail = s.slabAt s.released := g.given
  have given_le : s.released ≤ s.received.length := g.given_le
  have received_le : s.received.length ≤ s.published := g.received_le
  have length : (s.received.take s.released).length = s.released := by
    rw [List.length_take]
    exact Nat.min_eq_left given_le
  have here : s.rewound.slabAt s.rewound.received.length = s.slabAt s.released :=
    congrArg s.slabAt length
  have writer : s.rewound.settled.WriterAt s.published := by
    refine h.of_read (sameWriter_rewound s).settled (Int.le_of_eq ?_)
    unfold rewound
    rw [moved]
    rfl
  have reader : s.rewound.settled.ReaderAt s.published s.released := by
    refine .between rfl ?_ (Nat.le_of_eq length.symm) ?_ ?_ (Int.le_refl _) (fun _ => rfl) ?_ ?_
    · unfold rewound
      rw [moved]
      exact given
    · exact Nat.le_trans (Nat.le_of_eq length) (Nat.le_trans given_le received_le)
    · refine Eq.trans ?_ here.symm
      unfold rewound
      rw [moved]
      exact given
    · unfold rewound
      rw [moved]
      exact g.seen
    · refine Eq.trans ?_ here.symm
      unfold rewound
      rw [moved]
      exact given
  exact ⟨aligned_of_sides writer reader, reader.released_eq writer⟩

/-- From even tails nothing is lost that is to be read again. -/
theorem Faithful.rewound (f : s.settled.Faithful) (even : s.Even) :
    s.rewound.settled.Faithful := by
  obtain ⟨h, y, i, shown⟩ := f
  obtain ⟨aligned, same⟩ := aligned_rewound h.aligned
  have side : s.settled.SameWriter s.rewound.settled := (sameWriter_rewound s).settled
  have grows : s.settled.released ≤ s.rewound.settled.released := Nat.le_of_eq same.symm
  have size : s.pipe.store.blob.size = s.pipe.store.config.blobSize := h.size
  have given_le : s.released ≤ s.received.length := h.aligned.2.given_le
  have length : (s.received.take s.released).length = s.released := by
    rw [List.length_take]
    exact Nat.min_eq_left given_le
  -- The reader takes its base from the blob tail alone, so the slab tail must belong to it.
  have base : s.rewound.settled.BaseAt := by
    obtain ⟨_, _, _, moved⟩ := replay_eq s.pipe
    unfold Even at even
    rw [← size] at even
    unfold BaseAt Session.rewound
    rw [moved]
    show s.pipe.store.blobTail % (s.pipe.store.blob.size : Int) % (s.pipe.store.blob.size : Int) =
      s.blobAt (s.received.take s.released).length % (s.pipe.store.blob.size : Int)
    rw [Int.emod_emod, length]
    exact even
  have recorded : s.rewound.settled.Recorded := by
    refine ⟨aligned, h.blob.of_read side, h.records.of_read side grows, ?_, base, ?_⟩
    · rw [side.config]
      exact h.sound.of_read side
    · rw [side.blob, side.config]
      exact h.size
  have short : s.rewound.settled.Short := y.short.of_read side
  have total := unreleasedBytes_le 0 y.short short side.blobStart grows
    (congrArg (List.take s.settled.released) side.written)
    (by rw [side.blobAt, side.written, side.current]; omega)
  have room := y.room
  refine ⟨recorded, ⟨short, ?_⟩, i.of_read side grows, ⟨?_, nofun⟩⟩
  · rw [side.blob]
    omega
  · intro k w c found got
    rw [side.written] at found
    rw [side.schema, side.config]
    change (s.received.take s.released)[k]? = some c at got
    rw [List.getElem?_take] at got
    split at got
    · exact shown.received k w c found got
    · cases got

/-! ## Reading again -/

/-- A call that leaves the published slab tail where it is leaves it at the end of a fragment. -/
theorem givesEnd_of_same (h : s.settled.Recorded) (change : s.CallChange c t)
    (same : t.pipe.store.slabTail = s.pipe.store.slabTail)
    (more : s.received.length ≤ t.received.length) :
    t.GivesEnd ∧ s.pipe.store.slabTail ≤ t.pipe.store.slabTail := by
  have given : s.pipe.store.slabTail = s.slabAt s.released := h.aligned.2.given
  have given_le : s.released ≤ s.received.length := h.aligned.2.given_le
  have place := change.slabAt_eq h given_le
  refine ⟨⟨s.released, Nat.le_trans given_le more, ?_⟩, Int.le_of_eq same.symm⟩
  rw [same, place]
  exact given

/-- While fragments are read again, the published slab tail stays or moves on to the end of the
fragment that is ended. -/
theorem givesEnd_of_rereading (h : s.settled.Recorded) (change : s.CallChange c t)
    (again : c.rereads = true) :
    t.GivesEnd ∧ s.pipe.store.slabTail ≤ t.pipe.store.slabTail := by
  have stays := givesEnd_of_same h change
  cases change with
  | quiet change quiet =>
    refine stays (change.sameTails quiet).slabTail (Nat.le_of_eq ?_)
    rw [change.same_received quiet]
  | @released r reading closed =>
    have length : (s.releaseNext r).received.length = s.received.length + 1 := by
      simp [releaseNext]
    -- A batch that is complete gives back all that is read again; before that nothing moves.
    by_cases complete : s.pipe.takeByteCount.2.consumer.countdown - 1 ≤ 0
    · have given : s.pipe.store.slabTail = s.slabAt s.released := h.aligned.2.given
      have given_le : s.released ≤ s.received.length := h.aligned.2.given_le
      have forward := s.slabAt_mono (Nat.le_succ_of_le given_le)
      obtain ⟨-, -, -, cell, -⟩ := after_byteCount h reading closed
      have moved : (s.releaseNext r).pipe.store.slabTail = s.slabAt (s.received.length + 1) := by
        unfold releaseNext
        rw [← cell]
        exact congrArg (·.store.slabTail) (Pipe.releaseBatched_of_complete complete)
      refine ⟨⟨s.received.length + 1, Nat.le_of_eq length.symm, moved⟩, ?_⟩
      rw [given, moved]
      exact forward
    · refine stays ?_ ?_
      · exact congrArg (·.store.slabTail) (Pipe.releaseBatched_of_partial complete)
      · rw [length]
        exact Nat.le_succ _
  | deferred => exact stays rfl (by simp [deferNext])
  | batched => exact stays rfl (Nat.le_refl _)
  | flushed => cases again
  | releasedToHere => cases again
  | releasedDeferred => cases again
  | releasedAll => cases again
  | releasedBytes => cases again

/-- While fragments are read again nothing is lost, and what was published stays as it was. -/
theorem faithful_of_rereading (first : s.settled.Faithful) (run : Runs rereading s t) :
    t.settled.Faithful ∧ s.published ≤ t.published ∧
      t.written.take s.published = s.written.take s.published := by
  induction run with
  | refl => exact ⟨first, Nat.le_refl _, rfl⟩
  | step _ call kept ih =>
    obtain ⟨faithful, grows, same⟩ := ih
    have change := callChange_of_call call
    have recorded := faithful.recorded
    obtain ⟨gives, later⟩ := givesEnd_of_rereading recorded change kept.2
    obtain ⟨more, still⟩ := change.front recorded
    refine ⟨faithful.call change kept.1 gives later, Nat.le_trans grows more, ?_⟩
    have shorter := congrArg (List.take s.published) still
    rw [List.take_take, List.take_take, Nat.min_eq_left grows] at shorter
    rw [shorter]
    exact same

end Session

/-- Where nothing but whole fragments is given back, both tails are the end of one fragment; and
from such tails a replay reads every fragment that is not released as it was written, whatever is
written and released meanwhile: with its number, its fields and the number of its bytes, and with
content as long as a published fragment is not read again. -/
theorem replay_faithful {registry : Registry} {config : Config} {slab blob : Int} {p : Pipe}
    {s : Session} (opened : registry.open? config slab blob = some p)
    (run : Session.Runs forward (Session.start p) s) :
    (Session.Runs forwardWhole (Session.start p) s → s.Even) ∧
    (s.Even → s.rewound.received.length = s.released ∧
      ∀ t, Session.Runs rereading s.rewound t →
        s.published ≤ t.published ∧
        t.written.take s.published = s.written.take s.published ∧
        (∀ (k : Nat) (w : Written) (c : Receipt), t.written[k]? = some w →
          t.received[k]? = some c → w.ReadAs config.schema config.constants c) ∧
        (t.reading = none → (t.pipe.hasContent.1 = true ↔ t.received.length < t.published))) := by
  have kept := Session.kept_of_runs (Session.kept_of_open? opened) run
  constructor
  · intro whole
    exact (Session.kept_of_runs_whole (Session.kept_of_open? opened) whole).even
  · intro even
    have given_le : s.released ≤ s.received.length := kept.faithful.recorded.aligned.2.given_le
    refine ⟨List.length_take_of_le given_le, fun t again => ?_⟩
    have side := Session.sameWriter_rewound s
    obtain ⟨faithful, grows, same⟩ :=
      Session.faithful_of_rereading (kept.faithful.rewound even) again
    rw [side.published] at grows same
    rw [side.written] at same
    have sameConfig : t.pipe.store.config = config := by
      rw [Session.config_of_runs again, side.config, Session.config_of_runs run,
        Registry.eq_of_open? opened]
      rfl
    have received : ∀ (k : Nat) (w : Written) (c : Receipt), t.written[k]? = some w →
        t.received[k]? = some c →
        w.ReadAs t.pipe.store.config.schema t.pipe.store.config.constants c :=
      faithful.shown.received
    rw [sameConfig] at received
    exact ⟨grows, same, received, faithful.recorded.aligned.hasContent_iff⟩

/-- Both messages are put off, and three bytes are just the first of them: the second one is read
again. -/
theorem replay_faithful_sample :
    ∃ s t, Session.perform forwardWhole (Session.start samplePipe)
        (twoMessages ++ deferSample ++ deferSample ++ [.releaseBytes 3]) = some s ∧
      s.released = 1 ∧ s.Even ∧
      Session.perform rereading s.rewound deferSample = some t ∧ t.received.length = 2 ∧
      ∀ (k : Nat) (w : Written) (c : Receipt), t.written[k]? = some w → t.received[k]? = some c →
        w.ReadAs sampleSchema #[] c := by
  have evaluated : (Session.perform forwardWhole (Session.start samplePipe)
      (twoMessages ++ deferSample ++ deferSample ++ [.releaseBytes 3])).any fun s =>
        s.released = 1 ∧ (Session.perform rereading s.rewound deferSample).any fun t =>
          t.received.length = 2 := by decide +kernel
  obtain ⟨s, performed, checked⟩ := (Option.any_eq_true ..).mp evaluated
  obtain ⟨released, again⟩ := of_decide_eq_true checked
  obtain ⟨t, reread, length⟩ := (Option.any_eq_true ..).mp again
  have run : Session.Runs forwardWhole (Session.start samplePipe) s :=
    Session.Runs.refl.of_perform performed
  obtain ⟨even, faithful⟩ := replay_faithful open?_sample (run.mono fun _ _ _ kept => kept.1)
  obtain ⟨-, later⟩ := faithful (even run)
  obtain ⟨-, -, received, -⟩ := later t (Session.Runs.refl.of_perform reread)
  exact ⟨s, t, performed, released, even run, reread, of_decide_eq_true length, received⟩

/-- A replay does not always read again what is not released. Of two messages that are put off, one
byte of the first is given back; the tails are then the beginning of that message and one byte
behind it. The second message, of which nothing is released, was written with the bytes 4 and 5 and
is read again as 5 and 0. -/
theorem misread_after_replay :
    (Session.perform forward (Session.start samplePipe)
      (twoMessages ++ deferSample ++ deferSample ++ [.releaseBytes 1])).bind (fun s =>
        (Session.perform rereading s.rewound (deferSample ++ deferSample)).map fun t =>
          ((s.pipe.store.slabTail, s.pipe.store.blobTail), t.received)) =
      some ((3, 31),
        [⟨some 0, [(.optionalInt, .optionalInt (some 7)), (.bytes, .bytes (some [2, 3, 4]))], 3⟩,
          ⟨some 0, [(.optionalInt, .optionalInt none), (.bytes, .bytes (some [5, 0]))], 2⟩]) := by
  decide +kernel

end FragmentPipe
