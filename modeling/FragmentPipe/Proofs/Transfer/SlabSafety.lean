import FragmentPipe.Proofs.Transfer.Alignment

/-!
The slab never loses a cell. Whatever a call stores, it stores it behind the working head and within
one turn of the released position. Main statement: `slab_safe`, which also counts the cells between
the released and the published position and says what a check for room is worth.
-/

namespace FragmentPipe

/-- Whether a call asks for cells of the slab that it may then keep. -/
def Action.takesRoom : Action → Bool
  | .begin _ _ | .nest _ | .finish => true
  | _ => false

/-- Calls that take no cells of the slab. -/
def withoutRoom (_ : Session) (a : Action) : Prop := a.takesRoom = false

namespace Session

/-- A call stores cells behind the working head, all within one turn of the released position, and
every cell from there to the working head keeps its value. -/
structure StoresWithin (s t : Session) : Prop where
  stored : ∃ cells,
    t.pipe.store.slab = s.pipe.store.slab.setList s.pipe.producer.slabHead cells ∧
      s.pipe.store.slabTail ≤ s.pipe.producer.slabHead ∧
      s.pipe.producer.slabHead + cells.length ≤ s.pipe.store.slabTail + s.pipe.store.slab.size
  kept : ∀ position, s.pipe.store.slabTail ≤ position → position < s.pipe.producer.slabHead →
    t.pipe.store.slab.get position = s.pipe.store.slab.get position

variable {s t : Session} {m r : Nat}

theorem Aligned.tail_le_visible (aligned : s.Aligned) :
    s.pipe.store.slabTail ≤ s.pipe.store.slabHead := by
  obtain ⟨h, g⟩ := aligned
  rw [h.visible, g.given]
  exact s.slabAt_mono (Nat.le_trans g.given_le g.received_le)

theorem Aligned.visible_le_head (aligned : s.Aligned) :
    s.pipe.store.slabHead ≤ s.pipe.producer.slabHead := by
  obtain ⟨h, -⟩ := aligned
  have before := s.slabAt_mono h.visible_le
  rw [h.visible, h.head]
  omega

/-- Within a fragment the reader has not passed all its cells. -/
theorem ReaderAt.tail_lt (g : s.ReaderAt m r) (inside : s.received.length < s.written.length) :
    s.pipe.consumer.slabTail < s.slabAt (s.received.length + 1) := by
  have ends := slabAt_succ (s := s) (List.getElem?_eq_getElem inside)
  have next : s.next? = some s.written[s.received.length] := List.getElem?_eq_getElem inside
  have tail := g.tail
  cases reading : s.reading with
  | none =>
    have before := slabAt_lt_succ (s := s) inside
    rw [(g.idle reading).1]
    exact before
  | some c =>
    have whole := congrArg (fun es => (es.map Entry.width).sum)
      (List.take_append_drop c.fields.length s.written[s.received.length].entries)
    simp only [passedCells, reading, next] at tail
    simp only [List.map_append, List.sum_append] at whole
    simp only [Written.size, Written.filled] at ends
    omega

/-- The reader works between the released and the published position. -/
theorem Aligned.within (aligned : s.Aligned) :
    s.pipe.store.slabTail ≤ s.pipe.consumer.slabTail ∧
      s.pipe.consumer.slabTail ≤ s.pipe.store.slabHead := by
  obtain ⟨h, g⟩ := aligned
  have given := g.given
  have tail := g.tail
  have visible := h.visible
  have visible_le := h.visible_le
  have before := s.slabAt_mono g.given_le
  refine ⟨by omega, ?_⟩
  rcases Nat.lt_or_eq_of_le g.received_le with behind | all
  · have inside := g.tail_lt (by omega)
    have later : s.slabAt (s.received.length + 1) ≤ s.slabAt s.published := s.slabAt_mono behind
    omega
  · cases reading : s.reading with
    | none =>
      have here := (g.idle reading).1
      rw [all] at here
      omega
    | some c =>
      have behind := g.received_lt (by rw [reading]; rfl)
      omega

/-- The working head is within one turn of the released position. -/
theorem Aligned.head_le (aligned : s.Aligned) :
    s.pipe.producer.slabHead ≤ s.pipe.store.slabTail + s.pipe.store.slab.size := by
  obtain ⟨h, -⟩ := aligned
  have head := h.head
  have admitted := h.admitted
  cases draft : s.draft with
  | none =>
    have empty : (s.current.filled : Int) = 0 := by rw [current_of_idle draft]; rfl
    omega
  | some d =>
    have inside := h.inside d draft
    have reserved := reserved_of_draft draft
    rw [current_of_draft draft] at head
    unfold Written.size at inside
    omega

/-- Nothing but cells behind the working head is stored. -/
theorem WriterChange.stores {a : Action} (aligned : s.Aligned) (change : s.WriterChange a t) :
    ∃ cells, t.pipe.store.slab = s.pipe.store.slab.setList s.pipe.producer.slabHead cells ∧
      s.pipe.producer.slabHead + cells.length ≤
        s.pipe.store.slabTail + s.pipe.store.slab.size := by
  have nothing : s.pipe.producer.slabHead + ([] : List Int32).length ≤
      s.pipe.store.slabTail + s.pipe.store.slab.size := by simpa using aligned.head_le
  obtain ⟨h, -⟩ := aligned
  have head := h.head
  have admitted := h.admitted
  cases change with
  | @begun way message f seen idle fragment starts sees room =>
    have seen_le := SeesTail.le h sees
    have positive := f.size_pos
    refine ⟨[message], rfl, ?_⟩
    simp only [List.length_cons, List.length_nil]
    omega
  | @put w e d blob isOpen draft unconfirmed fits =>
    have reserved := reserved_of_draft draft
    rw [current_of_draft draft] at head
    refine ⟨_, rfl, ?_⟩
    rw [Entry.length_cells]
    omega
  | @published d draft closed =>
    have reserved := reserved_of_draft draft
    have full := h.full d draft closed
    rw [current_of_draft draft] at head
    obtain ⟨_, _, _, _, _, _, moved⟩ := s.pipe.putByteCount.publishBatched_eq
    rw [moved]
    refine ⟨[Int32.ofInt s.pipe.uncountedBytes], rfl, ?_⟩
    unfold Written.size at full
    simp only [List.length_cons, List.length_nil]
    omega
  | flushed =>
    obtain ⟨_, _, moved⟩ := s.pipe.flushPublished_eq
    rw [moved]
    exact ⟨[], rfl, nothing⟩
  | finished idle room => exact ⟨[-1, 0], rfl, room⟩
  | _ => exact ⟨[], rfl, nothing⟩

theorem Change.storesWithin {a : Action} (aligned : s.Aligned) (change : s.Change a t) :
    s.StoresWithin t := by
  have stores : ∃ cells,
      t.pipe.store.slab = s.pipe.store.slab.setList s.pipe.producer.slabHead cells ∧
        s.pipe.producer.slabHead + cells.length ≤
          s.pipe.store.slabTail + s.pipe.store.slab.size := by
    rcases change with writes | reads
    · exact writes.stores aligned
    · exact ⟨[], reads.sameWriter.slab, by simpa using aligned.head_le⟩
  obtain ⟨cells, same, within⟩ := stores
  have tail := aligned.tail_le_visible
  have head := aligned.visible_le_head
  refine ⟨⟨cells, same, by omega, within⟩, ?_⟩
  intro position unreleased before
  rw [same, Ring.get_setList_of_ne]
  intro i hi
  exact (Ring.index_ne_of_lt _ (by omega) (by omega)).symm

theorem cellsOf_drop_take (ws : List Written) {j k : Nat} (h : j ≤ k) :
    cellsOf (ws.take k) = cellsOf (ws.take j) + cellsOf ((ws.take k).drop j) := by
  have split := List.take_append_drop j (ws.take k)
  rw [List.take_take, Nat.min_eq_left h] at split
  rw [← cellsOf_append, split]

theorem Aligned.contentRemaining_eq (aligned : s.Aligned) :
    s.pipe.store.contentRemaining =
      cellsOf ((s.written.take s.published).drop s.released) := by
  obtain ⟨h, g⟩ := aligned
  have apart := cellsOf_drop_take s.written (Nat.le_trans g.given_le g.received_le)
  rw [Store.contentRemaining, h.visible, g.given, slabAt, slabAt]
  omega

/-! ## What a check for room is worth -/

/-- Between fragments, a call that takes no cells leaves no fewer of them free. -/
theorem Change.withoutRoom {a : Action} (aligned : s.Aligned) (idle : s.draft = none)
    (quiet : a.takesRoom = false) (change : s.Change a t) :
    t.draft = none ∧ t.pipe.producer.slabHead ≤ s.pipe.producer.slabHead := by
  have other : ∀ d, s.draft ≠ some d := by
    intro d draft
    rw [idle] at draft
    cases draft
  rcases change with writes | reads
  · cases writes with
    | asked => exact ⟨idle, Int.le_refl _⟩
    | begun => cases quiet
    | nested => cases quiet
    | put draft => exact absurd draft (other _)
    | aside =>
      rw [Pipe.withField_nil]
      exact ⟨idle, Int.le_refl _⟩
    | confirmed draft => exact absurd draft (other _)
    | published draft => exact absurd draft (other _)
    | flushed =>
      obtain ⟨_, _, moved⟩ := s.pipe.flushPublished_eq
      rw [moved]
      exact ⟨idle, Int.le_refl _⟩
    | abandoned => exact ⟨rfl, aligned.visible_le_head⟩
    | finished => cases quiet
  · have side := reads.sameWriter
    rw [side.draft, side.producer]
    exact ⟨idle, Int.le_refl _⟩

/-- Room that a message has stays with it while no cells are taken. -/
theorem room_of_reaches (aligned : s.Aligned) (idle : s.draft = none) {size : Int}
    (room : s.pipe.producer.slabHead + size - s.pipe.store.slab.size ≤ s.pipe.store.slabTail)
    (run : Reaches withoutRoom s t) :
    t.pipe.producer.slabHead + size - t.pipe.store.slab.size ≤ t.pipe.store.slabTail := by
  have kept : t.Aligned ∧ t.draft = none ∧
      t.pipe.producer.slabHead + size - t.pipe.store.slab.size ≤ t.pipe.store.slabTail := by
    induction run with
    | refl => exact ⟨aligned, idle, room⟩
    | step _ quiet call ih =>
      obtain ⟨aligned, idle, room⟩ := ih
      have change := change_of_step call
      obtain ⟨idle', head⟩ := change.withoutRoom aligned idle quiet
      have tail := aligned.slabTail_le change
      have same := change.sameCapacity.slab
      exact ⟨(aligned.change change).1, idle', by omega⟩
  exact kept.2.2

theorem startMessage_eq_ok {p : Pipe} {message : Int32} {f : Fragment}
    (fragment : p.schema.fragment? message = some f) (starts : f.startsMessage = true)
    (seen : p.producer.room.tailSeen ≤ p.store.slabTail)
    (room : p.producer.slabHead + f.size - p.store.slab.size ≤ p.store.slabTail) :
    (p.startMessage message).1 = .ok f.size := by
  have known : p.messageSize message = .ok f.size := by
    have start : p.schema.startsMessage message = true := by
      rw [Schema.startsMessage, fragment]
      exact starts
    rw [Pipe.messageSize, if_pos start, p.schema.fragmentSize?_eq_of_startsMessage fragment]
  have free : (p.producer.room.tailReaches (p.producer.slabHead + f.size - p.store.slab.size)
      p.store.slabTail).answer = true := by
    show (reaches _ _ _).answer = true
    rw [reaches_answer seen]
    exact decide_eq_true room
  unfold Pipe.startMessage
  rw [known]
  simp only [free, if_true]

end Session

/-- In every run of a pipe, each call stores cells only where nothing unreleased lies; the cells
between the released and the published position are those of the fragments published and not
released, at most one turn; between fragments the room to ask for begins at the working head; and a
message that was found to have room can be started as long as no other call takes cells. -/
theorem slab_safe {registry : Registry} {config : Config} {slab blob : Int} {p : Pipe} {s : Session}
    (opened : registry.open? config slab blob = some p)
    (run : Reaches anyCall (Session.start p) s) :
    s.pipe.store.slab.size = config.slabSize ∧
    (∀ a t, s.step a = some t → s.StoresWithin t) ∧
    0 ≤ s.pipe.store.contentRemaining ∧
    s.pipe.store.contentRemaining ≤ config.slabSize ∧
    s.pipe.store.contentRemaining = cellsOf ((s.written.take s.published).drop s.released) ∧
    (s.draft = none →
      s.pipe.producer.room.target = s.pipe.producer.slabHead - config.slabSize) ∧
    ∀ message f t, s.draft = none → s.pipe.schema.fragment? message = some f →
      f.startsMessage = true → (s.pipe.hasRoom f.size).1 = true →
      Reaches withoutRoom { s with pipe := (s.pipe.hasRoom f.size).2 } t →
      (t.pipe.startMessage message).1 = .ok f.size := by
  have aligned : s.Aligned := by
    rw [Registry.eq_of_open? opened] at run
    exact Session.aligned_of_reaches (Session.aligned_start rfl) run
  obtain ⟨-, size⟩ := Session.capacity_of_reaches opened run
  have content := aligned.contentRemaining_eq
  have visible := aligned.visible_le_head
  have head := aligned.head_le
  have boundary : s.draft = none →
      s.pipe.producer.room.target = s.pipe.producer.slabHead - s.pipe.store.slab.size := by
    intro idle
    have stands := aligned.1.head
    have goal := aligned.1.target
    have empty : (s.current.filled : Int) = 0 := by rw [Session.current_of_idle idle]; rfl
    have unread : (s.confirmedCells : Int) = 0 := by rw [Session.confirmedCells, idle]; rfl
    omega
  refine ⟨size, ?_, by omega, ?_, content, by rwa [size] at boundary, ?_⟩
  · intro a t call
    exact (Session.change_of_step call).storesWithin aligned
  · unfold Store.contentRemaining
    omega
  · intro message f t idle fragment starts free later
    obtain ⟨seen, sees, room, asked⟩ := s.pipe.hasRoom_snd f.size
    have here : s.step (.askRoom f.size) = some { s with pipe := (s.pipe.hasRoom f.size).2 } := rfl
    have aligned' := (aligned.change (Session.change_of_step here)).1
    have bound := Session.SeesTail.le aligned.1 sees
    have target := boundary idle
    have reached := room free
    rw [asked] at later aligned'
    have schema := (Session.sameCapacity_of_reaches later).schema
    have later_aligned := Session.aligned_of_reaches aligned' later
    refine Session.startMessage_eq_ok (schema ▸ fragment) starts later_aligned.1.seen ?_
    refine Session.room_of_reaches aligned' idle ?_ later
    show s.pipe.producer.slabHead + f.size - s.pipe.store.slab.size ≤ s.pipe.store.slabTail
    omega

/-- Two messages are published, and the one that is read is not yet given back. -/
theorem slab_safe_sample :
    ∃ s, play anyCall (Session.start samplePipe)
        (writeSample (some 7) [1, 2, 3] ++ writeSample none [4] ++ readSample) = some s ∧
      s.published = 2 ∧ s.released = 0 ∧ s.pipe.store.contentRemaining = 10 ∧
      s.pipe.producer.room.target = s.pipe.producer.slabHead - 32 := by
  obtain ⟨s, played⟩ : ∃ s, play anyCall (Session.start samplePipe)
      (writeSample (some 7) [1, 2, 3] ++ writeSample none [4] ++ readSample) = some s :=
    Option.isSome_iff_exists.mp (by decide +kernel)
  have evaluated : (play anyCall (Session.start samplePipe)
      (writeSample (some 7) [1, 2, 3] ++ writeSample none [4] ++ readSample)).all fun s =>
        s.published = 2 ∧ s.released = 0 ∧ s.draft.isNone ∧
          cellsOf ((s.written.take 2).drop 0) = 10 := by decide +kernel
  rw [played] at evaluated
  obtain ⟨published, released, idle, cells⟩ := of_decide_eq_true evaluated
  obtain ⟨-, -, -, -, content, boundary, -⟩ := slab_safe open?_sample (Reaches.of_play played)
  rw [published, released, cells] at content
  exact ⟨s, played, published, released, content, boundary (Option.isNone_iff_eq_none.mp idle)⟩

end FragmentPipe
