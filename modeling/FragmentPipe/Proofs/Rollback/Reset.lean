import FragmentPipe.Proofs.Rollback.Unnoticed

/-!
Writers that change their mind. A `Sketch` is a session whose writer may mark its head, try out any
fields behind the mark, as many as the slab has room for, and go back to the mark; like every writer
it may also give up all that is not published. Main statement: `discards_leave_no_trace`, what the
reader receives are the fragments that were written and not given up.
-/

namespace FragmentPipe

/-! ## Calls -/

namespace Session

/-- The bytes from the released ones up to the blob head, those of fields that are tried out
included. -/
def occupied (s : Session) : Nat :=
  ((s.pipe.producer.blobHead - s.blobAt s.released) % blobSpan).toNat

end Session

/-- A session whose writer may try out fields. -/
structure Sketch where
  session : Session
  /-- Whether what is written from the mark on will be taken back. -/
  trying : Bool

/-- A call of a session, or one of a writer that tries out fields. -/
inductive SketchCall where
  | call (a : Action)
  /-- Tries out a field or a part of one. -/
  | tryOut (w : Stroke)
  /-- Marks the head; `trying` tells whether what comes next will be taken back. -/
  | mark (trying : Bool)
  | goBack

namespace Sketch

/-- One call. Fields that are tried out belong to no fragment; going back or giving up all that is
not published ends this. -/
def step (s : Sketch) : SketchCall → Option Sketch
  | .call a =>
    if s.trying = true ∧ a.keepsAside = false then none
    else (s.session.step a).map fun t => ⟨t, s.trying && !a.abandons⟩
  | .tryOut w =>
    if s.trying then some ⟨{ s.session with pipe := (w.run s.session.pipe).2 }, true⟩ else none
  | .mark trying =>
    if s.trying then none
    else some ⟨{ s.session with pipe := s.session.pipe.markHead }, trying⟩
  | .goBack => if s.trying then some ⟨s.session.home, false⟩ else none

/-- Every field is accepted, and its cells and bytes lie within one turn of the released ones. -/
def roomy (s : Sketch) : SketchCall → Prop
  | .call a => lossless s.session a
  | .tryOut w =>
    (w.run s.session.pipe).1.isOk = true ∧
      (w.run s.session.pipe).2.producer.slabHead ≤
        s.session.pipe.store.slabTail + s.session.pipe.store.slab.size ∧
      s.session.occupied + w.reach s.session.pipe ≤ s.session.pipe.store.config.blobSize
  | .mark _ | .goBack => True

instance (s : Sketch) (c : SketchCall) : Decidable (s.roomy c) :=
  match c with
  | .call a => inferInstanceAs (Decidable (lossless s.session a))
  | .tryOut _ => inferInstanceAs (Decidable (_ ∧ _ ∧ _))
  | .mark _ | .goBack => .isTrue trivial

/-- The sketches that calls lead to which the protocol allows and for which there is room. -/
inductive Runs (s : Sketch) : Sketch → Prop where
  | refl : Runs s s
  | step {t u : Sketch} {c : SketchCall} (run : Runs s t) (kept : t.roomy c)
      (call : t.step c = some u) : Runs s u

/-- Makes calls one after the other, as long as the protocol allows them and there is room. -/
def perform (s : Sketch) : List SketchCall → Option Sketch
  | [] => some s
  | c :: rest => if s.roomy c then (s.step c).bind fun t => t.perform rest else none

theorem Runs.of_perform {s t u : Sketch} {calls : List SketchCall} (run : s.Runs t)
    (performed : t.perform calls = some u) : s.Runs u := by
  induction calls generalizing t with
  | nil =>
    cases performed
    exact run
  | cons c rest ih =>
    rw [perform] at performed
    split at performed
    · next kept =>
      obtain ⟨v, call, later⟩ := Option.bind_eq_some_iff.mp performed
      exact ih (run.step kept call) later
    · cases performed

end Sketch

namespace Session

variable {s t : Session} {a : Action}

/-! ## What the reader has -/

/-- The fragments that were received are the first ones that were written. -/
structure Queue (s : Session) : Prop where
  received_le : s.received.length ≤ s.published
  visible_le : s.published ≤ s.written.length
  received : ∀ (k : Nat) (w : Written) (c : Receipt), s.written[k]? = some w →
    s.received[k]? = some c → w.ReadAs s.pipe.schema s.pipe.store.config.constants c
  content : s.reading = none →
    (s.pipe.hasContent.1 = true ↔ s.received.length < s.published)

theorem Faithful.queue (f : s.Faithful) : s.Queue where
  received_le := f.recorded.aligned.2.received_le
  visible_le := f.recorded.aligned.1.visible_le
  received := f.shown.received
  content := f.recorded.aligned.hasContent_iff

/-! ## Fields that are tried out -/

end Session

namespace Stroke

variable {w : Stroke} {p : Pipe}

/-- An accepted stroke changes cells behind the slab head and bytes within its reach, moves the
heads, and leaves all but the average and the open stream alone. -/
theorem run_ok (accepted : (w.run p).1.isOk = true) :
    ∃ cells blob blobHead average isOpen,
      p.store.blob.SameOutside blob p.producer.blobHead (w.reach p) ∧
        (w.run p).2 = p.withField cells blob blobHead average isOpen p.store.events
          p.store.shutdownCause := by
  cases w with
  | entry e =>
    have accepted : (e.put p).1.isOk = true := accepted
    show ∃ cells blob blobHead average isOpen, _ ∧ (e.put p).2 = _
    cases put : e.put p with
    | mk answer q =>
      rw [put] at accepted
      cases answer with
      | error x => cases accepted
      | ok u =>
        obtain ⟨-, rfl⟩ := Entry.put_ok put
        exact ⟨_, _, _, _, _, p.store.blob.sameOutside_setList _ _, rfl⟩
  | made m =>
    have outcome := m.outcome p
    have accepted : (m.put p).1.isOk = true := accepted
    show ∃ cells blob blobHead average isOpen, _ ∧ (m.put p).2 = _
    generalize m.put p = result at outcome accepted ⊢
    cases outcome with
    | accepted allowed within =>
      rw [Pipe.commitField_eq]
      exact ⟨_, _, _, _, _, within, rfl⟩
    | denied => cases accepted
  | piece c =>
    obtain ⟨blob, isOpen, events, cause, within, status, moved⟩ := c.run_eq p
    obtain ⟨rfl, rfl⟩ := status accepted
    exact ⟨_, _, _, _, _, within, moved⟩

/-- The blob head stays within the reach. -/
theorem blobHead_ok (accepted : (w.run p).1.isOk = true) (low : 0 ≤ p.producer.blobHead)
    (high : p.producer.blobHead < blobSpan) :
    ∃ taken : Nat, taken ≤ w.reach p ∧
      (w.run p).2.producer.blobHead = (p.producer.blobHead + taken) % blobSpan := by
  cases w with
  | entry e =>
    have accepted : (e.put p).1.isOk = true := accepted
    show ∃ taken : Nat, _ ∧ (e.put p).2.producer.blobHead = _
    cases put : e.put p with
    | mk answer q =>
      rw [put] at accepted
      cases answer with
      | error x => cases accepted
      | ok u =>
        obtain ⟨sound, rfl⟩ := Entry.put_ok put
        exact ⟨e.taken, Nat.min_le_left _ _, Entry.headAfter_eq sound low high⟩
  | made m =>
    have short := Made.length_le_reach accepted
    have outcome := m.outcome p
    have accepted : (m.put p).1.isOk = true := accepted
    show ∃ taken : Nat, _ ∧ (m.put p).2.producer.blobHead = _
    generalize m.put p = result at outcome accepted ⊢
    cases outcome with
    | accepted => exact ⟨m.length, short, rfl⟩
    | denied => cases accepted
  | piece c =>
    obtain ⟨blob, isOpen, events, cause, -, -, moved⟩ := c.run_eq p
    refine ⟨0, Nat.zero_le _, ?_⟩
    show (c.run p).2.producer.blobHead = _
    rw [moved, Int.natCast_zero, Int.add_zero, Int.emod_eq_of_lt low high]
    rfl

end Stroke

namespace Session

variable {s t : Session} {a : Action}

/-- The bytes from the released ones up to the blob head are told as long as they go around the blob
at most once. -/
theorem occupied_eq {byte : Int} (head : s.pipe.producer.blobHead = byte % blobSpan)
    (low : s.blobAt s.released ≤ byte)
    (high : byte ≤ s.blobAt s.released + s.pipe.store.config.blobSize) :
    (s.occupied : Int) = byte - s.blobAt s.released := by
  have small := s.pipe.store.config.blobSize_le
  have bound : (1 <<< maxBits) < 0x80000000 := by decide
  unfold occupied
  rw [head]
  unfold blobSpan
  omega

/-- The heads stand behind what is recorded, within one turn of the released positions, and the mark
stands where it ends. -/
structure Ahead (s : Session) : Prop where
  home : s.home.Faithful
  low : s.pipe.producer.markSlab ≤ s.pipe.producer.slabHead
  high : s.pipe.producer.slabHead ≤ s.pipe.store.slabTail + s.pipe.store.slab.size
  bytes : ∃ byte, s.pipe.producer.blobHead = byte % blobSpan ∧
    s.blobAt s.written.length + s.current.taken ≤ byte ∧
      byte ≤ s.blobAt s.released + s.pipe.store.config.blobSize

/-- A mark is set where the heads stand. -/
theorem Faithful.ahead (f : s.Faithful) : { s with pipe := s.pipe.markHead }.Ahead := by
  have bytes := unreleasedBytes_eq f.roomy.short
  have room := f.roomy.room
  rw [f.recorded.size] at room
  exact ⟨f.markHead, Int.le_refl _, f.recorded.aligned.head_le,
    _, f.recorded.blob.head, Int.le_refl _, by
      show s.blobAt s.written.length + s.current.taken ≤
        s.blobAt s.released + s.pipe.store.config.blobSize
      omega⟩

/-- A field that is tried out touches nothing that is recorded. -/
theorem Ahead.tryOut {w : Stroke} (x : s.Ahead) (accepted : (w.run s.pipe).1.isOk = true)
    (cells : (w.run s.pipe).2.producer.slabHead ≤
      s.pipe.store.slabTail + s.pipe.store.slab.size)
    (room : s.occupied + w.reach s.pipe ≤ s.pipe.store.config.blobSize) :
    { s with pipe := (w.run s.pipe).2 }.Ahead := by
  obtain ⟨f, low, high, byte, head, behind, within⟩ := x
  have released : s.blobAt s.released ≤ s.blobAt s.written.length :=
    s.blobAt_mono f.recorded.aligned.released_le
  have told := occupied_eq head (by omega) within
  have size : s.pipe.store.blob.size = s.pipe.store.config.blobSize := f.recorded.size
  obtain ⟨taken, fits, moved⟩ := Stroke.blobHead_ok accepted
    (by rw [head]; exact Int.emod_nonneg _ (by decide))
    (by rw [head]; exact Int.emod_lt_of_pos _ (by decide))
  obtain ⟨list, blob, blobHead, average, isOpen, same, ran⟩ := Stroke.run_ok accepted
  rw [ran] at moved cells ⊢
  have stored := s.pipe.store.slab.sameOutside_setList s.pipe.producer.slabHead list
  have up : s.pipe.producer.slabHead + list.length ≤
      s.pipe.store.slabTail + s.pipe.store.slab.size := cells
  have place : s.pipe.producer.blobHead % (s.pipe.store.blob.size : Int) =
      byte % (s.pipe.store.blob.size : Int) := by
    have turn : (s.pipe.store.blob.size : Int) ∣ blobSpan := f.recorded.turn
    rw [head, Int.emod_emod_of_dvd _ turn]
  have bytes := get_of_sameOutside place behind (by omega) same
  refine ⟨?_, ?_, ?_, byte + taken, ?_, ?_, ?_⟩
  -- All cells up to the mark lie before the head, and the field ends within one turn of them.
  · refine f.scribbled average isOpen stored.size same.size ?_ ?_
    · intro x given before
      have before' : x < s.pipe.producer.markSlab := before
      have given' : s.pipe.store.slabTail ≤ x := given
      exact stored.get_of_before rfl (by omega) (by omega)
    · exact bytes
  · show _ ≤ s.pipe.producer.slabHead + (list.length : Int)
    exact Int.le_trans low (by omega)
  · show _ ≤ _ + ((s.pipe.store.slab.setList _ list).size : Int)
    rw [stored.size]
    exact cells
  · rw [moved, head, Int.emod_add_emod]
  · show s.blobAt s.written.length + s.current.taken ≤ byte + taken
    omega
  · show byte + taken ≤ s.blobAt s.released + s.pipe.store.config.blobSize
    omega

/-- Calls that write nothing leave the heads where they stand; only the released positions move, and
they move forward. -/
theorem Ahead.change (x : s.Ahead) (change : s.Change a t) (aside : a.keepsAside = true)
    (stays : a.abandons = false) : t.Ahead := by
  obtain ⟨f, low, high, byte, head, behind, within⟩ := x
  have moved := change.home aside stays
  have after := f.change moved (lossless_of_aside aside)
  have grows : s.released ≤ t.released := (f.recorded.aligned.change moved).2
  have capacity := change.sameCapacity
  obtain ⟨slabHead, blobHead, markSlab, written, draft⟩ := change.sameHeads aside stays
  have cells : ∀ k, t.slabAt k = s.slabAt k := by
    intro k
    rw [slabAt, slabAt, capacity.slabStart, written]
  have bytes : ∀ k, t.blobAt k = s.blobAt k := by
    intro k
    rw [blobAt, blobAt, capacity.blobStart, written]
  have current : t.current = s.current := by rw [Session.current, Session.current, draft]
  have tail : s.pipe.store.slabTail = s.slabAt s.released := f.recorded.aligned.2.given
  have tail' : t.pipe.store.slabTail = t.slabAt t.released := after.recorded.aligned.2.given
  -- The released positions only grow, so that what was within one turn of them still is.
  have later := s.slabAt_mono grows
  have later' := s.blobAt_mono grows
  refine ⟨after, ?_, ?_, byte, ?_, ?_, ?_⟩
  · rw [markSlab, slabHead]
    exact low
  · rw [slabHead, tail', cells, capacity.slab]
    omega
  · rw [blobHead]
    exact head
  · rw [bytes, written, current]
    exact behind
  · rw [bytes, capacity.config]
    omega

end Session

/-! ## Runs -/

namespace Sketch

variable {s t : Sketch} {c : SketchCall}

/-- All that is recorded stands right. While fields are tried out, it does so behind the mark. -/
structure Sound (s : Sketch) : Prop where
  kept : s.trying = false → s.session.Faithful
  tried : s.trying = true → s.session.Ahead

theorem sound_of_faithful {session : Session} (f : session.Faithful) :
    (Sketch.mk session false).Sound := ⟨fun _ => f, nofun⟩

theorem sound_of_ahead {session : Session} (x : session.Ahead) :
    (Sketch.mk session true).Sound := ⟨nofun, fun _ => x⟩

/-- All that one call can do, with what allows it. -/
inductive Change (s : Sketch) : SketchCall → Sketch → Prop where
  | called {a : Action} {u : Session} (keeps : s.trying = false) (call : s.session.step a = some u) :
      Change s (.call a) ⟨u, false⟩
  | aside {a : Action} {u : Session} (tries : s.trying = true) (aside : a.keepsAside = true)
      (stays : a.abandons = false) (call : s.session.step a = some u) : Change s (.call a) ⟨u, true⟩
  | gaveUp (tries : s.trying = true) : Change s (.call .abandon) ⟨s.session.abandonAll, false⟩
  | tried {w : Stroke} (tries : s.trying = true) :
      Change s (.tryOut w) ⟨{ s.session with pipe := (w.run s.session.pipe).2 }, true⟩
  | marked {trying : Bool} (keeps : s.trying = false) :
      Change s (.mark trying) ⟨{ s.session with pipe := s.session.pipe.markHead }, trying⟩
  | wentBack (tries : s.trying = true) : Change s .goBack ⟨s.session.home, false⟩

theorem change_of_call {a : Action} {u : Session}
    (allowed : ¬(s.trying = true ∧ a.keepsAside = false)) (call : s.session.step a = some u) :
    s.Change (.call a) ⟨u, s.trying && !a.abandons⟩ := by
  cases trying : s.trying with
  | false => exact .called trying call
  | true =>
    have aside : a.keepsAside = true := by
      simpa [trying] using allowed
    cases leaves : a.abandons with
    | false => exact .aside trying aside leaves call
    | true =>
      cases a with
      | abandon =>
        cases call
        exact .gaveUp trying
      | _ => cases leaves

theorem change_of_step (call : s.step c = some t) : s.Change c t := by
  cases c with
  | call a =>
    simp only [Sketch.step] at call
    split at call
    · cases call
    · next allowed =>
      obtain ⟨u, called, rfl⟩ := Option.map_eq_some_iff.mp call
      exact change_of_call allowed called
  | tryOut w =>
    simp only [Sketch.step] at call
    split at call
    · next tries =>
      cases call
      exact .tried tries
    · cases call
  | mark trying =>
    simp only [Sketch.step] at call
    split at call
    · cases call
    · next keeps =>
      cases call
      exact .marked (Bool.eq_false_iff.mpr keeps)
  | goBack =>
    simp only [Sketch.step] at call
    split at call
    · next tries =>
      cases call
      exact .wentBack tries
    · cases call

/-- One call. -/
theorem Sound.change (x : s.Sound) (kept : s.roomy c) (change : s.Change c t) : t.Sound := by
  cases change with
  | called keeps call =>
    exact sound_of_faithful ((x.kept keeps).change (Session.change_of_step call) kept)
  | aside tries aside stays call =>
    exact sound_of_ahead ((x.tried tries).change (Session.change_of_step call) aside stays)
  | gaveUp tries =>
    exact sound_of_faithful ((x.tried tries).home.change (.inl .abandoned) trivial)
  | tried tries => exact sound_of_ahead ((x.tried tries).tryOut kept.1 kept.2.1 kept.2.2)
  | @marked trying keeps =>
    cases trying with
    | false => exact sound_of_faithful (x.kept keeps).markHead
    | true => exact sound_of_ahead (x.kept keeps).ahead
  | wentBack tries => exact sound_of_faithful (x.tried tries).home

theorem Runs.sound (first : s.Sound) (run : s.Runs t) : t.Sound := by
  induction run with
  | refl => exact first
  | step _ kept call ih => exact ih.change kept (change_of_step call)

/-- What is published stays so, and the config stays the same. -/
theorem Sound.front (x : s.Sound) (kept : s.roomy c) (change : s.Change c t) :
    t.session.pipe.store.config = s.session.pipe.store.config ∧
      s.session.published ≤ t.session.published ∧
        t.session.written.take s.session.published =
          s.session.written.take s.session.published := by
  cases change with
  | called keeps call =>
    have moved := Session.change_of_step call
    exact ⟨moved.sameCapacity.config, (x.kept keeps).recorded.aligned.front moved⟩
  | aside tries aside stays call =>
    have moved := Session.change_of_step call
    have behind := (x.tried tries).home.recorded.aligned.front (moved.home aside stays)
    exact ⟨moved.sameCapacity.config, behind⟩
  | gaveUp tries =>
    exact ⟨rfl, (x.tried tries).home.recorded.aligned.front (.inl .abandoned)⟩
  | @tried w tries =>
    obtain ⟨cells, blob, blobHead, average, isOpen, -, ran⟩ := Stroke.run_ok kept.1
    rw [ran]
    exact ⟨rfl, Nat.le_refl _, rfl⟩
  | marked keeps => exact ⟨rfl, Nat.le_refl _, rfl⟩
  | wentBack tries => exact ⟨rfl, Nat.le_refl _, rfl⟩

/-- What the reader has is told alike by the session and by the session behind the mark. -/
theorem Sound.queue (x : s.Sound) : s.session.Queue := by
  cases trying : s.trying with
  | false => exact (x.kept trying).queue
  | true =>
    have behind := (x.tried trying).home.queue
    exact ⟨behind.received_le, behind.visible_le, behind.received, behind.content⟩

theorem Runs.config (first : s.Sound) (run : s.Runs t) :
    t.session.pipe.store.config = s.session.pipe.store.config := by
  induction run with
  | refl => rfl
  | step run kept call ih => exact ((run.sound first).front kept (change_of_step call)).1.trans ih

end Sketch

/-! ## What is left of fields that were taken back -/

namespace Stroke

/-- Writes fields one after the other, as long as they are accepted. -/
def runAll (p : Pipe) : List Stroke → Option Pipe
  | [] => some p
  | w :: rest => if (w.run p).1.isOk then runAll (w.run p).2 rest else none

variable {p q : Pipe} {strokes : List Stroke}

theorem runAll_ok (accepted : runAll p strokes = some q) :
    ∃ slab blob slabHead blobHead average isOpen, slab.size = p.store.slab.size ∧
      q = { p.scribbled slab blob average isOpen with
        producer.slabHead := slabHead, producer.blobHead := blobHead } := by
  induction strokes generalizing p with
  | nil =>
    cases accepted
    exact ⟨_, _, _, _, _, _, rfl, rfl⟩
  | cons w rest ih =>
    rw [runAll] at accepted
    split at accepted
    · next fine =>
      obtain ⟨cells, blob, blobHead, average, isOpen, -, ran⟩ := run_ok fine
      rw [ran] at accepted
      obtain ⟨slab, _, _, _, _, _, size, rfl⟩ := ih accepted
      exact ⟨slab, _, _, _, _, _, size.trans (Ring.size_setList _ _ _), rfl⟩
    · cases accepted

/-- Going back to the mark puts back all that fields change but cells and bytes, the average, and
whether a stream is open. -/
theorem resetHead_of_runAll (accepted : runAll p strokes = some q) :
    ∃ slab blob average isOpen, q.resetHead = p.resetHead.scribbled slab blob average isOpen := by
  obtain ⟨slab, blob, slabHead, blobHead, average, isOpen, -, rfl⟩ := runAll_ok accepted
  exact ⟨slab, blob, average, isOpen, rfl⟩

theorem abandonWrites_of_runAll (accepted : runAll p strokes = some q) :
    ∃ slab blob average isOpen,
      q.abandonWrites = p.abandonWrites.scribbled slab blob average isOpen := by
  obtain ⟨slab, blob, slabHead, blobHead, average, isOpen, size, rfl⟩ := runAll_ok accepted
  refine ⟨slab, blob, average, isOpen, ?_⟩
  simp only [Pipe.abandonWrites, Pipe.scribbled, Store.noteHead, size]

end Stroke

/-- Discarded writes leave no trace. In every run whose fields are accepted and stay within one turn
of the released cells and bytes, those that are tried out and taken back included, each fragment
received is the fragment of the same place among those written and not given up, with its number,
its fields and the number of its bytes; what is published stays so, and between fragments there is
content exactly if a published fragment is not received. Of fields that were taken back or given up
nothing is left in the state but cells and bytes, the moving average, and whether a stream is
open. -/
theorem discards_leave_no_trace {registry : Registry} {config : Config} {slab blob : Int} {p : Pipe}
    {s : Sketch} (opened : registry.open? config slab blob = some p)
    (run : Sketch.Runs ⟨Session.start p, false⟩ s) :
    s.session.received.length ≤ s.session.published ∧
    s.session.published ≤ s.session.written.length ∧
    (∀ (k : Nat) (w : Written) (c : Receipt), s.session.written[k]? = some w →
      s.session.received[k]? = some c → w.ReadAs config.schema config.constants c) ∧
    (∀ c t, s.roomy c → s.step c = some t → s.session.published ≤ t.session.published ∧
      t.session.written.take s.session.published =
        s.session.written.take s.session.published) ∧
    (s.session.reading = none →
      (s.session.pipe.hasContent.1 = true ↔ s.session.received.length < s.session.published)) ∧
    (∀ strokes q, Stroke.runAll s.session.pipe.markHead strokes = some q →
      ∃ slab blob average isOpen,
        q.resetHead = s.session.pipe.markHead.scribbled slab blob average isOpen) ∧
    (∀ strokes q, Stroke.runAll s.session.pipe strokes = some q →
      ∃ slab blob average isOpen,
        q.abandonWrites = s.session.pipe.abandonWrites.scribbled slab blob average isOpen) := by
  have first := Sketch.sound_of_faithful
    (Session.faithful_start (Session.recorded_of_open? opened))
  have sound := run.sound first
  have same : s.session.pipe.store.config = config := by
    have start : Reaches anyCall (Session.start p) (Session.start p) := .refl
    rw [run.config first]
    exact (Session.capacity_of_reaches opened start).1
  obtain ⟨order, visible, received, content⟩ := sound.queue
  unfold Pipe.schema at received
  rw [same] at received
  exact ⟨order, visible, received,
    fun c t kept call => (sound.front kept (Sketch.change_of_step call)).2, content,
    fun _ _ accepted => Stroke.resetHead_of_runAll accepted,
    fun _ _ accepted => Stroke.abandonWrites_of_runAll accepted⟩

/-- A message whose second field is streamed after two fields and a stream were tried out, between
messages of which one is given up half written and one when it was finished. -/
def discardSample : List SketchCall :=
  (writeSample (some 7) [1, 2, 3]).map .call ++
    [.call (.begin .waiting 0), .call (.put (.entry (.scalar (.optionalInt none)))), .mark true,
      .tryOut (.entry (.content (.bytes [9, 9]))), .tryOut (.piece .openStream),
      .tryOut (.piece (.chunk 0 8 (.some [8]))), .tryOut (.made (.streamed 1 8)), .goBack,
      .call (.put (.piece .openStream)), .call (.put (.piece (.chunk 0 8 (.some [4, 5])))),
      .call (.put (.made (.streamed 2 8))), .call .confirm, .call .publish,
      .call (.begin .waiting 0), .call (.put (.entry (.scalar (.optionalInt (some 3))))),
      .call .abandon] ++
    (writeSample (some 1) [6] ++ .abandon :: writeSample (some 2) [10] ++
      .flush :: readSample ++ readSample ++ readSample).map .call

/-- The messages that are kept are read as they were written. -/
theorem discards_leave_no_trace_sample :
    ∃ s, Sketch.perform ⟨Session.start samplePipe, false⟩ discardSample = some s ∧
      s.session.received.length = 3 ∧
      ∀ (k : Nat) (w : Written) (c : Receipt), s.session.written[k]? = some w →
        s.session.received[k]? = some c → w.ReadAs sampleSchema #[] c := by
  have evaluated : (Sketch.perform ⟨Session.start samplePipe, false⟩ discardSample).any
      fun s => s.session.received.length = 3 := by decide +kernel
  obtain ⟨s, performed, three⟩ := (Option.any_eq_true ..).mp evaluated
  obtain ⟨-, -, received, -⟩ :=
    discards_leave_no_trace open?_sample (Sketch.Runs.refl.of_perform performed)
  exact ⟨s, performed, of_decide_eq_true three, received⟩

/-- A message with a field that is tried out behind its last one and taken back. -/
def retractSample (value : Option Int32) (data tried : List UInt8) (kind : FieldKind) :
    List SketchCall :=
  [.call (.begin .waiting 0), .call (.put (.entry (.scalar (.optionalInt value)))),
    .call (.put (.entry (.content (.bytes data)))), .mark true,
    .tryOut (.entry (.content (.bytes tried))), .goBack, .call .confirm, .call .publish,
    .call .flush, .call .receive, .call (.take .optionalInt), .call (.take kind), .call .pass,
    .call .release]

/-- A message is not always read as it was written: an integer that the schema reserves for absence
is absent, and of a text whose last character is broken off a byte is seen that was taken back. -/
theorem not_exact_after_discard :
    (Sketch.perform ⟨Session.start samplePipe, false⟩
      (retractSample (some Schema.defaultAbsentInt) [1] [2] .bytes)).map
        (fun s => s.session.received) =
      some [⟨some 0, [(.optionalInt, .optionalInt none), (.bytes, .bytes (some [1]))], 1⟩] ∧
    (Sketch.perform ⟨Session.start samplePipe, false⟩
      (retractSample (some 7) [0xE4, 0xB8] [0xAD] .utf8)).map (fun s => s.session.received) =
      some [⟨some 0, [(.optionalInt, .optionalInt (some 7)), (.utf8, .text (some "中"))], 2⟩] ∧
    (Sketch.perform ⟨Session.start samplePipe, false⟩
      (retractSample (some 7) [0xE4, 0xB8] [0] .utf8)).map (fun s => s.session.received) =
      some [⟨some 0, [(.optionalInt, .optionalInt (some 7)),
        (.utf8, .text (some "\uFFFD"))], 2⟩] := by
  decide +kernel

end FragmentPipe
