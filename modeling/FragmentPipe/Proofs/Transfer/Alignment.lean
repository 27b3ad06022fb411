import FragmentPipe.Proofs.Transfer.Change

/-!
Where the two sides stand. Every fragment has its place in the slab, right behind the one before it;
the published heads and tails are ends of fragments, and the working positions, the positions that a
batch holds back and the remembered positions all follow from these. `Session.WriterAt` and
`Session.ReaderAt` say this of the two sides, with `m` fragments published and `r` released. Main
statement: `aligned_of_reaches`, it holds throughout every run.
-/

namespace FragmentPipe

/-- What is found in a list with one more at its end is in the list, or is that one. -/
theorem getElem?_append_singleton {α : Type} {l : List α} {x y : α} {i : Nat}
    (found : (l ++ [x])[i]? = some y) :
    i < l.length ∧ l[i]? = some y ∨ i = l.length ∧ y = x := by
  rcases Nat.lt_or_ge i l.length with inside | outside
  · rw [List.getElem?_append_left inside] at found
    exact .inl ⟨inside, found⟩
  · rw [List.getElem?_append_right outside] at found
    obtain ⟨only, same⟩ := List.getElem?_eq_some_iff.mp found
    have here : i = l.length := by
      simp only [List.length_cons, List.length_nil] at only
      omega
    subst here
    simp only [Nat.sub_self, List.getElem_cons_zero] at same
    exact .inr ⟨rfl, same.symm⟩

theorem take_eq_of_take {α : Type} {l m : List α} {j k : Nat} (same : l.take k = m.take k)
    (h : j ≤ k) : l.take j = m.take j := by
  have both := congrArg (List.take j) same
  rwa [List.take_take, List.take_take, Nat.min_eq_left h] at both

/-- The cells of fragments. -/
def cellsOf (ws : List Written) : Nat := (ws.map Written.size).sum

theorem cellsOf_nil : cellsOf [] = 0 := rfl

theorem cellsOf_append (a b : List Written) : cellsOf (a ++ b) = cellsOf a + cellsOf b := by
  simp [cellsOf]

theorem cellsOf_cons (w : Written) (ws : List Written) :
    cellsOf (w :: ws) = w.size + cellsOf ws := by
  simp [cellsOf]

theorem cellsOf_take_succ {ws : List Written} {k : Nat} {w : Written} (h : ws[k]? = some w) :
    cellsOf (ws.take (k + 1)) = cellsOf (ws.take k) + w.size := by
  rw [List.take_add_one, h, cellsOf_append]
  rfl

namespace Written

theorem size_add (w : Written) (e : Entry) : (w.add e).size = w.size + e.width := by
  simp only [size, filled, add, List.map_append, List.map_cons, List.map_nil, List.sum_append,
    List.sum_cons, List.sum_nil]
  omega

end Written

namespace Session

/-! ## Places -/

/-- Where a fragment begins in the slab. -/
def slabAt (s : Session) (k : Nat) : Int := s.slabStart + cellsOf (s.written.take k)

theorem slabAt_zero (s : Session) : s.slabAt 0 = s.slabStart := by
  simp [slabAt, cellsOf_nil]

theorem slabAt_succ {s : Session} {k : Nat} {w : Written} (h : s.written[k]? = some w) :
    s.slabAt (k + 1) = s.slabAt k + w.size := by
  rw [slabAt, slabAt, cellsOf_take_succ h]
  omega

theorem slabAt_lt_succ {s : Session} {k : Nat} (h : k < s.written.length) :
    s.slabAt k < s.slabAt (k + 1) := by
  have positive : 0 < s.written[k].size := Nat.succ_pos _
  have next := slabAt_succ (s := s) (List.getElem?_eq_getElem h)
  omega

theorem slabAt_mono (s : Session) {j k : Nat} (h : j ≤ k) : s.slabAt j ≤ s.slabAt k := by
  induction h with
  | refl => exact Int.le_refl _
  | @step k _ ih =>
    show s.slabAt j ≤ s.slabAt (k + 1)
    by_cases inside : k < s.written.length
    · have := slabAt_lt_succ inside
      omega
    · have same : s.slabAt (k + 1) = s.slabAt k := by
        simp only [slabAt]
        rw [List.take_of_length_le (by omega), List.take_of_length_le (by omega)]
      omega

theorem slabAt_lt {s : Session} {j k : Nat} (h : j < k) (inside : k ≤ s.written.length) :
    s.slabAt j < s.slabAt k := by
  have first := slabAt_lt_succ (s := s) (k := j) (by omega)
  have rest : s.slabAt (j + 1) ≤ s.slabAt k := s.slabAt_mono h
  omega

/-- Fragments that both sessions have in common have the same places. -/
theorem slabAt_eq_of_take {s t : Session} {k m : Nat} (start : t.slabStart = s.slabStart)
    (same : t.written.take m = s.written.take m) (h : k ≤ m) : t.slabAt k = s.slabAt k := by
  rw [slabAt, slabAt, start, take_eq_of_take same h]

theorem getElem?_eq_of_take {s t : Session} {k m : Nat}
    (same : t.written.take m = s.written.take m) (h : k < m) :
    t.written[k]? = s.written[k]? := by
  have both := congrArg (·[k]?) same
  simpa only [List.getElem?_take_of_lt h] using both

theorem within_cellsOf_take {ws : List Written} {k : Nat} (h : k ≤ ws.length) :
    within ws (cellsOf (ws.take k)) = k := by
  induction ws generalizing k with
  | nil =>
    cases k with
    | zero => rfl
    | succ k => cases h
  | cons w ws ih =>
    cases k with
    | zero =>
      have positive : 0 < w.size := Nat.succ_pos _
      rw [List.take_zero, cellsOf_nil, within, if_neg (by omega)]
    | succ k =>
      rw [List.take_succ_cons, cellsOf_cons, within, if_pos (by omega)]
      have rest : ((w.size + cellsOf (ws.take k) : Nat) : Int) - w.size = cellsOf (ws.take k) := by
        omega
      rw [rest, ih (by simpa using h)]

/-! ## What either side has at hand -/

/-- What is written of the open fragment. -/
def current (s : Session) : Written := (s.draft.map Draft.content).getD ⟨none, []⟩

/-- The cells that the open fragment may take. -/
def reserved (s : Session) : Nat := (s.draft.map fun d => d.fragment.size).getD 0

/-- The cells of the open fragment that are confirmed. -/
def confirmedCells (s : Session) : Nat :=
  (s.draft.map fun d => if d.confirmed then d.fragment.size else 0).getD 0

/-- The cells that the reader has passed in its fragment. -/
def passedCells (s : Session) : Nat :=
  match s.reading, s.next? with
  | some c, some w =>
    w.number.toList.length + ((w.entries.take c.fields.length).map Entry.width).sum
  | _, _ => 0

/-- The cells of its fragment that the reader has confirmed. -/
def readCells (s : Session) : Nat :=
  match s.reading, s.next? with
  | some c, some w => if c.confirmed then w.size else 0
  | _, _ => 0

theorem current_of_idle {s : Session} (idle : s.draft = none) : s.current = ⟨none, []⟩ := by
  rw [current, idle]
  rfl

theorem current_of_draft {s : Session} {d : Draft} (draft : s.draft = some d) :
    s.current = d.content := by
  rw [current, draft]
  rfl

theorem reserved_of_draft {s : Session} {d : Draft} (draft : s.draft = some d) :
    s.reserved = d.fragment.size := by
  rw [reserved, draft]
  rfl

/-! ## The invariant -/

/-- The writing side stands right, with `m` fragments published. -/
structure WriterAt (s : Session) (m : Nat) : Prop where
  visible : s.pipe.store.slabHead = s.slabAt m
  visible_le : m ≤ s.written.length
  head : s.pipe.producer.slabHead = s.slabAt s.written.length + s.current.filled
  held_le : s.pipe.producer.heldSlab ≤ s.slabAt s.written.length
  held : m < s.written.length → s.pipe.producer.heldSlab = s.slabAt s.written.length
  target : s.pipe.producer.room.target =
    s.slabAt s.written.length + s.confirmedCells - s.pipe.store.slab.size
  seen : s.pipe.producer.room.tailSeen ≤ s.pipe.store.slabTail
  admitted : s.slabAt s.written.length + s.reserved ≤ s.pipe.store.slabTail + s.pipe.store.slab.size
  inside : ∀ d, s.draft = some d → d.content.size ≤ d.fragment.size
  full : ∀ d, s.draft = some d → d.confirmed = true → d.content.size = d.fragment.size

/-- The reading side stands right, with `m` fragments published and `r` released. -/
structure ReaderAt (s : Session) (m r : Nat) : Prop where
  given : s.pipe.store.slabTail = s.slabAt r
  given_le : r ≤ s.received.length
  received_le : s.received.length ≤ m
  received_lt : s.reading.isSome = true → s.received.length < m
  tail : s.pipe.consumer.slabTail = s.slabAt s.received.length + s.passedCells
  held_le : s.pipe.consumer.heldSlab ≤ s.slabAt s.received.length
  held : r < s.received.length → s.pipe.consumer.heldSlab = s.slabAt s.received.length
  seen : s.pipe.consumer.content.headSeen ≤ s.slabAt m
  confirmed : s.pipe.consumer.content.confirmed = s.slabAt s.received.length + s.readCells
  progress : ∀ c w, s.reading = some c → s.next? = some w →
    c.fields.length ≤ w.entries.length ∧
      (c.confirmed = true → c.fields.length = w.entries.length)

variable {s t : Session} {m r : Nat}

theorem SameWriter.slabAt (side : s.SameWriter t) (k : Nat) : t.slabAt k = s.slabAt k := by
  rw [Session.slabAt, Session.slabAt, side.slabStart, side.written]

theorem SameWriter.current (side : s.SameWriter t) : t.current = s.current := by
  rw [Session.current, Session.current, side.draft]

theorem SameWriter.published (side : s.SameWriter t) : t.published = s.published := by
  rw [Session.published, Session.published, side.slabHead, side.slabStart, side.written]

theorem published_of_visible {k : Nat} (visible : s.pipe.store.slabHead = s.slabAt k)
    (inside : k ≤ s.written.length) : s.published = k := by
  have cells : s.pipe.store.slabHead - s.slabStart = cellsOf (s.written.take k) := by
    rw [visible, slabAt]
    omega
  rw [published, cells, within_cellsOf_take inside]

theorem WriterAt.published_eq (h : s.WriterAt m) : s.published = m :=
  published_of_visible h.visible h.visible_le

/-- Between fragments all is published if the published position is the working one. -/
theorem WriterAt.published_of_head (h : s.WriterAt m) (idle : s.draft = none)
    (visible : s.pipe.store.slabHead = s.pipe.producer.slabHead) :
    s.published = s.written.length := by
  have stands := h.head
  rw [current_of_idle idle] at stands
  refine published_of_visible ?_ (Nat.le_refl _)
  rw [visible, stands]
  exact Int.add_zero _

theorem released_of_given {k : Nat} (given : s.pipe.store.slabTail = s.slabAt k)
    (inside : k ≤ s.written.length) : s.released = k := by
  have cells : s.pipe.store.slabTail - s.slabStart = cellsOf (s.written.take k) := by
    rw [given, slabAt]
    omega
  rw [released, cells, within_cellsOf_take inside]

theorem ReaderAt.released_eq (g : s.ReaderAt m r) (h : s.WriterAt m) : s.released = r :=
  released_of_given g.given (Nat.le_trans g.given_le (Nat.le_trans g.received_le h.visible_le))

/-- The reader does not notice what the writer does to fragments that are not published. -/
theorem ReaderAt.of_written {m' : Nat} (g : s.ReaderAt m r) (side : s.SameReader t)
    (same : t.written.take m = s.written.take m) (grows : m ≤ m') : t.ReaderAt m' r := by
  obtain ⟨consumer, -, tail, start, -, received, reading⟩ := side
  have place : ∀ k, k ≤ m → t.slabAt k = s.slabAt k := fun k => slabAt_eq_of_take start same
  have next : t.reading.isSome = true → t.next? = s.next? := by
    intro inFragment
    rw [next?, next?, received]
    exact getElem?_eq_of_take same (g.received_lt (reading ▸ inFragment))
  have here := place _ g.received_le
  have given_le := g.given_le
  have received_le := g.received_le
  have later := t.slabAt_mono grows
  have top := place m (Nat.le_refl m)
  constructor
  · rw [tail, place r (by omega)]
    exact g.given
  · rw [received]
    exact g.given_le
  · rw [received]
    omega
  · intro inFragment
    have := g.received_lt (reading ▸ inFragment)
    rw [received]
    omega
  · rw [consumer, received, here, g.tail]
    cases state : s.reading with
    | none => simp [passedCells, reading, state]
    | some c => rw [passedCells, passedCells, next (by simp [reading, state]), reading]
  · rw [consumer, received, here]
    exact g.held_le
  · rw [consumer, received, here]
    exact g.held
  · have := g.seen
    rw [consumer]
    omega
  · rw [consumer, received, here, g.confirmed]
    cases state : s.reading with
    | none => simp [readCells, reading, state]
    | some c => rw [readCells, readCells, next (by simp [reading, state]), reading]
  · intro c w state found
    rw [next (by simp [state])] at found
    exact g.progress c w (reading ▸ state) found

/-! ## Calls of the writer -/

theorem SeesTail.le (h : s.WriterAt m) {seen : Int} (sees : s.pipe.SeesTail seen) :
    seen ≤ s.pipe.store.slabTail := by
  rcases sees with rfl | rfl
  · exact h.seen
  · exact Int.le_refl _

/-- A fragment may be started where its cells end within one turn of the released position. -/
theorem WriterAt.begin {p : Pipe} {d : Draft} (h : s.WriterAt m) (idle : s.draft = none)
    (store : p.store.slabHead = s.pipe.store.slabHead ∧ p.store.slabTail = s.pipe.store.slabTail ∧
      p.store.slab.size = s.pipe.store.slab.size)
    (head : p.producer.slabHead = s.pipe.producer.slabHead + d.content.filled)
    (held : p.producer.heldSlab = s.pipe.producer.heldSlab)
    (target : p.producer.room.target = s.pipe.producer.room.target)
    (seen : p.producer.room.tailSeen ≤ s.pipe.store.slabTail)
    (room : s.pipe.producer.slabHead + d.fragment.size - s.pipe.store.slab.size ≤
      s.pipe.store.slabTail)
    (unconfirmed : d.confirmed = false) (inside : d.content.size ≤ d.fragment.size) :
    { s with pipe := p, draft := some d }.WriterAt m := by
  obtain ⟨slabHead, slabTail, size⟩ := store
  have stands := h.head
  have goal := h.target
  simp only [current, confirmedCells, idle, Option.map_none, Option.getD_none, Written.filled,
    Option.toList_none, List.length_nil, List.map_nil, List.sum_nil] at stands goal
  constructor
  · exact slabHead.trans h.visible
  · exact h.visible_le
  · show p.producer.slabHead = s.slabAt s.written.length + d.content.filled
    omega
  · exact held ▸ h.held_le
  · intro behind
    exact held.trans (h.held behind)
  · show p.producer.room.target = s.slabAt s.written.length +
      ((if d.confirmed then d.fragment.size else 0 : Nat) : Int) - p.store.slab.size
    rw [unconfirmed, target, size, goal]
    rfl
  · show p.producer.room.tailSeen ≤ p.store.slabTail
    omega
  · show s.slabAt s.written.length + (d.fragment.size : Int) ≤ p.store.slabTail + p.store.slab.size
    omega
  · rintro d' same
    cases same
    exact inside
  · rintro d' same confirmed
    cases same
    rw [unconfirmed] at confirmed
    cases confirmed

theorem WriterAt.put {d : Draft} {e : Entry} {cells : List Int32} {blob : Ring UInt8}
    {blobHead average : Int} {isOpen : Bool} {events : List Event} {cause : Option String}
    (h : s.WriterAt m)
    (draft : s.draft = some d) (unconfirmed : d.confirmed = false)
    (fits : d.content.filled + e.width < d.fragment.size) (width : cells.length = e.width) :
    { s with
      pipe := s.pipe.withField cells blob blobHead average isOpen events cause
      draft := some { d with content := d.content.add e } }.WriterAt m := by
  have stands := h.head
  have goal := h.target
  have bound := h.admitted
  have grown := d.content.size_add e
  simp only [current, confirmedCells, reserved, draft, Option.map_some, Option.getD_some,
    unconfirmed, Bool.false_eq_true, if_false] at stands goal bound
  have size : (s.pipe.store.slab.setList s.pipe.producer.slabHead cells).size =
      s.pipe.store.slab.size := Ring.size_setList _ _ _
  constructor
  · exact h.visible
  · exact h.visible_le
  · show s.pipe.producer.slabHead + (cells.length : Int) =
      s.slabAt s.written.length + (d.content.add e).filled
    simp only [Written.size] at grown
    omega
  · exact h.held_le
  · exact h.held
  · show s.pipe.producer.room.target = s.slabAt s.written.length +
      ((if d.confirmed then d.fragment.size else 0 : Nat) : Int) -
        (s.pipe.store.slab.setList s.pipe.producer.slabHead cells).size
    rw [unconfirmed, size, goal]
    rfl
  · exact h.seen
  · show s.slabAt s.written.length + (d.fragment.size : Int) ≤
      s.pipe.store.slabTail + (s.pipe.store.slab.setList s.pipe.producer.slabHead cells).size
    rw [size]
    exact bound
  · rintro d' same
    cases same
    simp only [Written.size] at grown ⊢
    omega
  · rintro d' same confirmed
    cases same
    rw [unconfirmed] at confirmed
    cases confirmed

theorem WriterAt.aside {blob : Ring UInt8} {blobHead average : Int} {isOpen : Bool}
    {events : List Event} {cause : Option String} (h : s.WriterAt m) :
    { s with
      pipe := s.pipe.withField [] blob blobHead average isOpen events cause }.WriterAt m := by
  rw [Pipe.withField_nil]
  exact { h with }

theorem WriterAt.confirm {d : Draft} (h : s.WriterAt m) (draft : s.draft = some d)
    (unconfirmed : d.confirmed = false) (full : d.content.size = d.fragment.size) :
    { s with
      pipe := s.pipe.confirmWrite d.fragment.size
      draft := some { d with confirmed := true } }.WriterAt m := by
  have stands := h.head
  have goal := h.target
  have bound := h.admitted
  simp only [current, confirmedCells, reserved, draft, Option.map_some, Option.getD_some,
    unconfirmed, Bool.false_eq_true, if_false] at stands goal bound
  refine { h with head := stands, target := ?_, admitted := bound, inside := ?_, full := ?_ }
  · show s.pipe.producer.room.target + (d.fragment.size : Int) = s.slabAt s.written.length +
      (d.fragment.size : Int) - s.pipe.store.slab.size
    omega
  · rintro d' same
    cases same
    exact Nat.le_of_eq full
  · rintro d' same -
    cases same
    exact full

theorem take_of_append {w : Written} (written : t.written = s.written ++ [w]) :
    t.written.take s.written.length = s.written.take s.written.length := by
  rw [written, List.take_append_of_le_length (Nat.le_refl _)]

/-- A fragment that is finished takes the place behind the ones before it. -/
theorem slabAt_append {w : Written} (start : t.slabStart = s.slabStart)
    (written : t.written = s.written ++ [w]) :
    (∀ k, k ≤ s.written.length → t.slabAt k = s.slabAt k) ∧
      t.slabAt t.written.length = s.slabAt s.written.length + w.size := by
  have front := take_of_append written
  have place : ∀ k, k ≤ s.written.length → t.slabAt k = s.slabAt k :=
    fun k => slabAt_eq_of_take start front
  have last : t.written[s.written.length]? = some w := by simp [written]
  have length : t.written.length = s.written.length + 1 := by simp [written]
  refine ⟨place, ?_⟩
  rw [length, slabAt_succ last, place _ (Nat.le_refl _)]

/-- A finished fragment that is held back leaves as many published as before. -/
theorem WriterAt.published_of_append {w : Written} (h : s.WriterAt m)
    (start : t.slabStart = s.slabStart) (written : t.written = s.written ++ [w])
    (visible : t.pipe.store.slabHead = s.pipe.store.slabHead) : t.published = m := by
  obtain ⟨place, -⟩ := slabAt_append start written
  have length : t.written.length = s.written.length + 1 := by simp [written]
  have inside := h.visible_le
  refine published_of_visible ?_ (by omega)
  rw [visible, h.visible, place _ inside]

/-- A finished fragment is published with all before it, or held back with them. -/
theorem WriterAt.append {w : Written} (h : s.WriterAt m) (start : t.slabStart = s.slabStart)
    (written : t.written = s.written ++ [w]) (closed : t.draft = none)
    (head : t.pipe.producer.slabHead = s.slabAt s.written.length + w.size)
    (target : t.pipe.producer.room.target =
      s.slabAt s.written.length + w.size - s.pipe.store.slab.size)
    (seen : t.pipe.producer.room.tailSeen = s.pipe.producer.room.tailSeen)
    (tail : t.pipe.store.slabTail = s.pipe.store.slabTail)
    (size : t.pipe.store.slab.size = s.pipe.store.slab.size)
    (room : s.slabAt s.written.length + w.size ≤ s.pipe.store.slabTail + s.pipe.store.slab.size)
    (moved :
      (t.pipe.store.slabHead = t.pipe.producer.slabHead ∧
        t.pipe.producer.heldSlab ≤ t.pipe.producer.slabHead) ∨
      (t.pipe.store.slabHead = s.pipe.store.slabHead ∧
        t.pipe.producer.heldSlab = t.pipe.producer.slabHead)) :
    ∃ m', m ≤ m' ∧ t.WriterAt m' := by
  obtain ⟨place, last⟩ := slabAt_append start written
  have length : t.written.length = s.written.length + 1 := by simp [written]
  have behind := h.visible_le
  have visible := h.visible
  have same := place m behind
  have current : t.current.filled = 0 := by rw [Session.current, closed]; rfl
  have reserved : t.reserved = 0 := by rw [Session.reserved, closed]; rfl
  have confirmed : t.confirmedCells = 0 := by rw [confirmedCells, closed]; rfl
  have stays := h.seen
  -- All but the published position is the same for both outcomes of the batch.
  have facts : ∀ m', t.pipe.store.slabHead = t.slabAt m' → m' ≤ t.written.length →
      t.pipe.producer.heldSlab ≤ t.slabAt t.written.length →
      (m' < t.written.length → t.pipe.producer.heldSlab = t.slabAt t.written.length) →
      t.WriterAt m' := by
    intro m' visible le held_le held
    constructor
    · exact visible
    · exact le
    · omega
    · exact held_le
    · exact held
    · omega
    · omega
    · omega
    · intro d draft
      rw [closed] at draft
      cases draft
    · intro d draft
      rw [closed] at draft
      cases draft
  rcases moved with ⟨all, held⟩ | ⟨still, held⟩
  · refine ⟨t.written.length, by omega, facts _ (by omega) (Nat.le_refl _) (by omega) ?_⟩
    intro short
    exact absurd short (Nat.lt_irrefl _)
  · exact ⟨m, Nat.le_refl m, facts m (by omega) (by omega) (by omega) fun _ => by omega⟩

theorem WriterAt.publish {d : Draft} (h : s.WriterAt m) (draft : s.draft = some d)
    (closed : d.confirmed = true) :
    ∃ m', m ≤ m' ∧
      { s with
        pipe := s.pipe.putByteCount.publishBatched
        written := s.written ++ [d.content]
        draft := none }.WriterAt m' := by
  have stands := h.head
  have goal := h.target
  have bound := h.admitted
  have held := h.held_le
  have full := h.full d draft closed
  simp only [current, confirmedCells, reserved, draft, Option.map_some, Option.getD_some,
    closed, if_true] at stands goal bound
  rw [← full] at goal bound
  have size : (s.pipe.store.slab.set s.pipe.producer.slabHead
      (Int32.ofInt s.pipe.uncountedBytes)).size = s.pipe.store.slab.size := Ring.size_set _ _ _
  have head : s.pipe.producer.slabHead + 1 = s.slabAt s.written.length + d.content.size := by
    simp only [Written.size]
    omega
  by_cases complete : s.pipe.producer.countdown - 1 ≤ 0
  · rw [Pipe.publishBatched_of_complete (p := s.pipe.putByteCount) complete]
    refine h.append rfl rfl rfl head goal rfl rfl size bound (.inl ⟨rfl, ?_⟩)
    show s.pipe.producer.heldSlab ≤ s.pipe.producer.slabHead + 1
    omega
  · rw [Pipe.publishBatched_of_partial (p := s.pipe.putByteCount) complete]
    exact h.append rfl rfl rfl head goal rfl rfl size bound (.inr ⟨rfl, rfl⟩)

theorem WriterAt.finish (h : s.WriterAt m) (idle : s.draft = none)
    (room : s.pipe.producer.slabHead + endMarkSize ≤
      s.pipe.store.slabTail + s.pipe.store.slab.size) :
    ∃ m', m ≤ m' ∧
      { s with pipe := s.pipe.ended, written := s.written ++ [Written.endMark] }.WriterAt m' := by
  have stands := h.head
  have goal := h.target
  simp only [current, confirmedCells, idle, Option.map_none, Option.getD_none] at stands goal
  have empty : (Written.filled ⟨none, []⟩ : Int) = 0 := rfl
  have two : (Written.endMark.size : Int) = endMarkSize := rfl
  have size : (s.pipe.store.slab.setList s.pipe.producer.slabHead [-1, 0]).size =
      s.pipe.store.slab.size := Ring.size_setList _ _ _
  refine h.append rfl rfl idle ?_ ?_ rfl rfl size ?_ (.inl ⟨rfl, Int.le_refl _⟩)
  · show s.pipe.producer.slabHead + (endMarkSize : Int) = _
    omega
  · show s.pipe.producer.room.target + (endMarkSize : Int) = _
    omega
  · omega

theorem WriterAt.flush (h : s.WriterAt m) :
    { s with pipe := s.pipe.flushPublished }.WriterAt s.written.length := by
  have visible := h.visible
  have held_le := h.held_le
  unfold Pipe.flushPublished
  rcases Nat.lt_or_eq_of_le h.visible_le with part | all
  · have held := h.held part
    have far := slabAt_lt part (Nat.le_refl _)
    rw [if_pos (by omega)]
    exact
      { h with
        visible := held
        visible_le := Nat.le_refl _
        held := fun short => absurd short (Nat.lt_irrefl _) }
  · rw [all] at visible
    rw [if_neg (by omega)]
    exact
      { h with
        visible := visible
        visible_le := Nat.le_refl _
        held := fun short => absurd short (Nat.lt_irrefl _) }

/-- What is published is not given up. -/
theorem take_abandonAll (s : Session) :
    s.abandonAll.written.take s.published = s.written.take s.published := by
  rw [abandonAll, List.take_take, Nat.min_self]

theorem getElem?_abandonAll {k : Nat} {w : Written}
    (found : s.abandonAll.written[k]? = some w) : k < s.published ∧ s.written[k]? = some w := by
  obtain ⟨only, -⟩ := List.getElem?_eq_some_iff.mp found
  rw [abandonAll, List.length_take] at only
  have inside : k < s.published := by omega
  rw [getElem?_eq_of_take s.take_abandonAll inside] at found
  exact ⟨inside, found⟩

theorem WriterAt.length_abandonAll (h : s.WriterAt m) : s.abandonAll.written.length = m := by
  rw [abandonAll, h.published_eq, List.length_take, Nat.min_eq_left h.visible_le]

theorem WriterAt.abandon (h : s.WriterAt m) : s.abandonAll.WriterAt m := by
  have length := h.length_abandonAll
  have place : s.abandonAll.slabAt m = s.slabAt m := by
    have same := s.take_abandonAll
    rw [h.published_eq] at same
    exact slabAt_eq_of_take rfl same (Nat.le_refl m)
  have visible := h.visible
  have before := s.slabAt_mono h.visible_le
  have bound := h.admitted
  constructor
  · rw [place]
    exact visible
  · exact Nat.le_of_eq length.symm
  · rw [length, place]
    show s.pipe.store.slabHead = s.slabAt m + ((0 : Nat) : Int)
    omega
  · rw [length, place]
    exact Int.le_of_eq visible
  · rw [length]
    intro short
    exact absurd short (Nat.lt_irrefl m)
  · rw [length, place]
    show s.pipe.store.slabHead - s.pipe.store.slab.size = s.slabAt m + ((0 : Nat) : Int) -
      s.pipe.store.slab.size
    omega
  · exact h.seen
  · rw [length, place]
    show s.slabAt m + ((0 : Nat) : Int) ≤ s.pipe.store.slabTail + s.pipe.store.slab.size
    omega
  · rintro d ⟨⟩
  · rintro d ⟨⟩

/-! ## Calls of the reader -/

/-- The writer notices of the reader only the released position. -/
theorem WriterAt.of_read (h : s.WriterAt m) (side : s.SameWriter t)
    (grows : s.pipe.store.slabTail ≤ t.pipe.store.slabTail) : t.WriterAt m := by
  have place := side.slabAt
  have current := side.current
  obtain ⟨producer, -, slab, -, visible, -, start, -, written, draft⟩ := side
  have reserved : t.reserved = s.reserved := by rw [Session.reserved, Session.reserved, draft]
  have confirmed : t.confirmedCells = s.confirmedCells := by
    rw [confirmedCells, confirmedCells, draft]
  have seen := h.seen
  have admitted := h.admitted
  constructor
  · rw [visible, place]
    exact h.visible
  · rw [written]
    exact h.visible_le
  · rw [producer, written, place, current]
    exact h.head
  · rw [producer, written, place]
    exact h.held_le
  · rw [producer, written, place]
    exact h.held
  · rw [producer, written, place, slab, confirmed]
    exact h.target
  · rw [producer]
    omega
  · rw [written, place, reserved, slab]
    omega
  · rw [draft]
    exact h.inside
  · rw [draft]
    exact h.full

theorem ReaderAt.idle (g : s.ReaderAt m r) (idle : s.reading = none) :
    s.pipe.consumer.slabTail = s.slabAt s.received.length ∧
      s.pipe.consumer.content.confirmed = s.slabAt s.received.length := by
  have tail := g.tail
  have confirmed := g.confirmed
  simp only [passedCells, readCells, idle] at tail confirmed
  omega

/-- While the reader is in a fragment, that fragment is published. -/
theorem ReaderAt.next {c : Reading} (g : s.ReaderAt m r) (h : s.WriterAt m)
    (reading : s.reading = some c) : ∃ w, s.next? = some w := by
  have := g.received_lt (by rw [reading]; rfl)
  have := h.visible_le
  exact ⟨_, List.getElem?_eq_getElem (by omega)⟩

theorem ReaderAt.open {w : Written} {seen : Int} (g : s.ReaderAt m r) (h : s.WriterAt m)
    (idle : s.reading = none) (next : s.next? = some w)
    (sees : seen = s.pipe.consumer.content.headSeen ∨ seen = s.pipe.store.slabHead)
    (content : s.pipe.consumer.content.confirmed + 1 ≤ seen) :
    ({ s with pipe := s.pipe.looked seen }.openNext w).ReaderAt m r := by
  obtain ⟨tail, confirmed⟩ := g.idle idle
  have bound : seen ≤ s.slabAt m := by
    rcases sees with rfl | rfl
    · exact g.seen
    · exact Int.le_of_eq h.visible
  have behind : s.received.length < m := by
    rcases Nat.lt_or_ge s.received.length m with lt | ge
    · exact lt
    · have := s.slabAt_mono ge
      omega
  have facts : ∀ (p : Pipe) (number : Option Int32),
      p.store.slabTail = s.pipe.store.slabTail →
      p.consumer.slabTail = s.pipe.consumer.slabTail + w.number.toList.length →
      p.consumer.heldSlab = s.pipe.consumer.heldSlab →
      p.consumer.content = ⟨seen, s.pipe.consumer.content.confirmed⟩ →
      { s with pipe := p, reading := some ⟨number, [], false⟩ }.ReaderAt m r := by
    intro p number given moved held look
    constructor
    · exact given.trans g.given
    · exact g.given_le
    · exact g.received_le
    · intro _
      exact behind
    · have passed : passedCells { s with pipe := p, reading := some ⟨number, [], false⟩ } =
          w.number.toList.length := by
        have found : s.written[s.received.length]? = some w := next
        simp [passedCells, next?, found]
      rw [passed]
      show p.consumer.slabTail = s.slabAt s.received.length + _
      omega
    · exact held ▸ g.held_le
    · intro part
      exact held.trans (g.held part)
    · show p.consumer.content.headSeen ≤ s.slabAt m
      rw [look]
      exact bound
    · have read : readCells { s with pipe := p, reading := some ⟨number, [], false⟩ } = 0 := by
        have found : s.written[s.received.length]? = some w := next
        simp [readCells, next?, found]
      rw [read]
      show p.consumer.content.confirmed = s.slabAt s.received.length + 0
      rw [look]
      show s.pipe.consumer.content.confirmed = _
      omega
    · rintro c w' same -
      cases same
      exact ⟨Nat.zero_le _, nofun⟩
  unfold openNext
  cases number : w.number with
  | none => exact facts _ _ rfl (by rw [number]; simp [Pipe.looked]) rfl rfl
  | some n => exact facts _ _ rfl (by rw [number]; rfl) rfl rfl

theorem ReaderAt.take {c : Reading} {w : Written} {e : Entry} {kind : FieldKind}
    (g : s.ReaderAt m r) (reading : s.reading = some c) (next : s.next? = some w)
    (entry : w.entries[c.fields.length]? = some e) (fits : e.fits kind = true) :
    (s.takeNext c kind).ReaderAt m r := by
  obtain ⟨blobTail, events, moved⟩ := s.pipe.takeField_eq kind
  have found : s.written[s.received.length]? = some w := next
  have tail := g.tail
  have confirmed := g.confirmed
  simp only [passedCells, readCells, reading, next] at tail confirmed
  obtain ⟨inside, -⟩ := List.getElem?_eq_some_iff.mp entry
  have unconfirmed : c.confirmed = false := by
    cases closed : c.confirmed with
    | false => rfl
    | true =>
      have := (g.progress c w reading next).2 closed
      omega
  have width := Entry.width_eq_of_fits fits
  unfold takeNext
  dsimp only
  rw [moved]
  refine { g with received_lt := ?_, tail := ?_, confirmed := ?_, progress := ?_ }
  · intro _
    exact g.received_lt (by rw [reading]; rfl)
  · show s.pipe.consumer.slabTail + (kind.width : Int) = s.slabAt s.received.length + _
    simp only [passedCells, next?, found, List.length_append, List.length_cons, List.length_nil,
      Nat.zero_add, List.take_add_one, entry, Option.toList_some, List.map_append, List.map_cons,
      List.map_nil, List.sum_append, List.sum_cons, List.sum_nil]
    omega
  · show s.pipe.consumer.content.confirmed = s.slabAt s.received.length + _
    simp only [readCells, next?, found]
    exact confirmed
  · rintro c' w' same next'
    cases same
    rw [show s.next? = some w' from next', Option.some.injEq] at next
    subst next
    simp only [List.length_append, List.length_cons, List.length_nil]
    exact ⟨by omega, fun closed => absurd closed (by rw [unconfirmed]; exact Bool.false_ne_true)⟩

theorem ReaderAt.pass {c : Reading} {w : Written} (g : s.ReaderAt m r)
    (reading : s.reading = some c) (next : s.next? = some w) (unconfirmed : c.confirmed = false)
    (all : c.fields.length = w.entries.length) :
    { s with
      pipe := s.pipe.confirmRead w.size
      reading := some { c with confirmed := true } }.ReaderAt m r := by
  have found : s.written[s.received.length]? = some w := next
  have tail := g.tail
  have confirmed := g.confirmed
  simp only [passedCells, readCells, reading, next, unconfirmed] at tail confirmed
  refine { g with received_lt := ?_, tail := ?_, confirmed := ?_, progress := ?_ }
  · intro _
    exact g.received_lt (by rw [reading]; rfl)
  · show s.pipe.consumer.slabTail = s.slabAt s.received.length + _
    simp only [passedCells, next?, found]
    exact tail
  · show s.pipe.consumer.content.confirmed + (w.size : Int) = s.slabAt s.received.length + _
    simp only [readCells, next?, found]
    simp only [Bool.false_eq_true, if_false] at confirmed
    simp only [if_true]
    omega
  · rintro c' w' same next'
    cases same
    rw [show s.next? = some w' from next', Option.some.injEq] at next
    subst next
    exact ⟨Nat.le_of_eq all, fun _ => all⟩

/-- The reader stands behind a fragment whose cells are all confirmed, but for its byte count. -/
theorem ReaderAt.before_release {c : Reading} (g : s.ReaderAt m r) (h : s.WriterAt m)
    (reading : s.reading = some c) (closed : c.confirmed = true) :
    ∃ w, s.next? = some w ∧ c.fields.length = w.entries.length ∧
      s.pipe.consumer.slabTail + 1 = s.slabAt (s.received.length + 1) ∧
      s.pipe.consumer.content.confirmed = s.slabAt (s.received.length + 1) := by
  obtain ⟨w, next⟩ := g.next h reading
  have all := (g.progress c w reading next).2 closed
  have tail := g.tail
  have confirmed := g.confirmed
  have ends := slabAt_succ next
  simp only [passedCells, readCells, reading, next, closed, if_true, all,
    List.take_length] at tail confirmed
  simp only [Written.size, Written.filled] at confirmed ends
  exact ⟨w, next, all, by omega, by omega⟩

/-- Between fragments the reader's places are those behind the fragments received, of which some
are given back. -/
theorem ReaderAt.between {r' : Nat} (idle : t.reading = none)
    (given : t.pipe.store.slabTail = t.slabAt r') (given_le : r' ≤ t.received.length)
    (received_le : t.received.length ≤ m)
    (tail : t.pipe.consumer.slabTail = t.slabAt t.received.length)
    (held_le : t.pipe.consumer.heldSlab ≤ t.slabAt t.received.length)
    (held : r' < t.received.length → t.pipe.consumer.heldSlab = t.slabAt t.received.length)
    (seen : t.pipe.consumer.content.headSeen ≤ t.slabAt m)
    (confirmed : t.pipe.consumer.content.confirmed = t.slabAt t.received.length) :
    t.ReaderAt m r' := by
  constructor
  · exact given
  · exact given_le
  · exact received_le
  · intro inFragment
    rw [idle] at inFragment
    cases inFragment
  · simp only [passedCells, idle]
    omega
  · exact held_le
  · exact held
  · exact seen
  · simp only [readCells, idle]
    omega
  · intro c w reading
    rw [idle] at reading
    cases reading

/-- A fragment that is read to its end is given back with all before it, or held back with them. -/
theorem ReaderAt.release {c : Reading} (g : s.ReaderAt m r) (h : s.WriterAt m)
    (reading : s.reading = some c) (closed : c.confirmed = true) :
    ∃ r', r ≤ r' ∧ (s.releaseNext c).ReaderAt m r' := by
  obtain ⟨w, next, all, tail, confirmed⟩ := g.before_release h reading closed
  have count : (s.releaseNext c).received.length = s.received.length + 1 := by simp [releaseNext]
  have place : ∀ k, (s.releaseNext c).slabAt k = s.slabAt k := fun _ => rfl
  have behind := g.received_lt (by rw [reading]; rfl)
  have given_le := g.given_le
  have held_le := g.held_le
  have before : s.slabAt s.received.length ≤ s.slabAt (s.received.length + 1) :=
    s.slabAt_mono (Nat.le_succ _)
  have released : (s.releaseNext c).pipe = s.pipe.takeByteCount.2.releaseBatched
    s.pipe.takeByteCount.2.consumer.slabTail s.pipe.takeByteCount.2.consumer.blobTail := rfl
  by_cases complete : s.pipe.consumer.countdown - 1 ≤ 0
  · rw [Pipe.releaseBatched_of_complete (p := s.pipe.takeByteCount.2) complete] at released
    refine ⟨s.received.length + 1, by omega, .between rfl ?_ ?_ ?_ ?_ ?_ ?_ ?_ ?_⟩
    · rw [place, released]
      exact tail
    · exact Nat.le_of_eq count.symm
    · omega
    · rw [place, count, released]
      exact tail
    · rw [place, count, released]
      show s.pipe.consumer.heldSlab ≤ _
      omega
    · intro short
      omega
    · rw [released]
      exact g.seen
    · rw [place, count, released]
      exact confirmed
  · rw [Pipe.releaseBatched_of_partial (p := s.pipe.takeByteCount.2) complete] at released
    refine ⟨r, Nat.le_refl r, .between rfl ?_ ?_ ?_ ?_ ?_ ?_ ?_ ?_⟩
    · rw [place, released]
      exact g.given
    · omega
    · omega
    · rw [place, count, released]
      exact tail
    · rw [place, count, released]
      exact Int.le_of_eq tail
    · intro _
      rw [place, count, released]
      exact tail
    · rw [released]
      exact g.seen
    · rw [place, count, released]
      exact confirmed

theorem ReaderAt.flush (g : s.ReaderAt m r) (h : s.WriterAt m) :
    { s with pipe := s.pipe.flushReleased }.ReaderAt m s.received.length := by
  have given := g.given
  have received_le := Nat.le_trans g.received_le h.visible_le
  have held_le := g.held_le
  unfold Pipe.flushReleased
  rcases Nat.lt_or_eq_of_le g.given_le with part | all
  · have held := g.held part
    have far := slabAt_lt part received_le
    rw [if_pos (by omega)]
    exact
      { g with
        given := held
        given_le := Nat.le_refl _
        held := fun short => absurd short (Nat.lt_irrefl _) }
  · rw [all] at given
    rw [if_neg (by omega)]
    exact
      { g with
        given := given
        given_le := Nat.le_refl _
        held := fun short => absurd short (Nat.lt_irrefl _) }

theorem ReaderAt.releaseToHere (g : s.ReaderAt m r) (idle : s.reading = none) :
    { s with pipe := s.pipe.releaseToHere }.ReaderAt m s.received.length := by
  obtain ⟨tail, confirmed⟩ := g.idle idle
  refine .between idle tail (Nat.le_refl _) g.received_le tail (Int.le_of_eq tail) ?_ g.seen
    confirmed
  intro short
  exact absurd short (Nat.lt_irrefl _)

/-! ## Runs -/

theorem WriterAt.change {a : Action} (h : s.WriterAt m) (change : s.WriterChange a t) :
    ∃ m', m ≤ m' ∧ t.WriterAt m' ∧ t.written.take m = s.written.take m := by
  have front : ∀ w, (s.written ++ [w]).take m = s.written.take m :=
    fun w => List.take_append_of_le_length h.visible_le
  cases change with
  | asked sees => exact ⟨m, Nat.le_refl m, { h with seen := SeesTail.le h sees }, rfl⟩
  | @begun way message f seen idle fragment starts sees room =>
    have bound := SeesTail.le h sees
    have size : (s.pipe.store.slab.set s.pipe.producer.slabHead message).size =
        s.pipe.store.slab.size := Ring.size_set _ _ _
    have inside : Written.size ⟨some message, []⟩ ≤ f.size := by
      show 2 ≤ f.size
      rw [Fragment.size, starts, if_pos rfl]
      omega
    exact ⟨m, Nat.le_refl m,
      h.begin idle ⟨rfl, rfl, size⟩ rfl rfl rfl bound (Int.le_trans room bound) rfl inside, rfl⟩
  | @nested index f seen idle fragment inner sees room =>
    have bound := SeesTail.le h sees
    have stands := h.head
    have goal := h.target
    have empty : (s.current.filled : Int) = 0 := by rw [current_of_idle idle]; rfl
    have unconfirmed : (s.confirmedCells : Int) = 0 := by rw [confirmedCells, idle]; rfl
    have free : s.pipe.producer.slabHead + f.size - s.pipe.store.slab.size ≤
        s.pipe.store.slabTail := by omega
    exact ⟨m, Nat.le_refl m,
      h.begin idle ⟨rfl, rfl, rfl⟩ (Int.add_zero _).symm rfl rfl bound free rfl f.size_pos, rfl⟩
  | put draft unconfirmed fits stores =>
    exact ⟨m, Nat.le_refl m, h.put draft unconfirmed fits (Entry.length_cells _ _ _), rfl⟩
  | aside within moved => exact ⟨m, Nat.le_refl m, h.aside, rfl⟩
  | confirmed draft unconfirmed full =>
    exact ⟨m, Nat.le_refl m, h.confirm draft unconfirmed full, rfl⟩
  | published draft closed =>
    obtain ⟨m', grows, writer⟩ := h.publish draft closed
    exact ⟨m', grows, writer, front _⟩
  | flushed => exact ⟨_, h.visible_le, h.flush, rfl⟩
  | abandoned =>
    have same := s.take_abandonAll
    rw [h.published_eq] at same
    exact ⟨m, Nat.le_refl m, h.abandon, same⟩
  | finished idle room =>
    obtain ⟨m', grows, writer⟩ := h.finish idle room
    exact ⟨m', grows, writer, front _⟩

theorem ReaderAt.change {a : Action} (g : s.ReaderAt m r) (h : s.WriterAt m)
    (change : s.ReaderChange a t) : ∃ r', r ≤ r' ∧ t.ReaderAt m r' := by
  cases change with
  | looked sees =>
    have visible := h.visible
    refine ⟨r, Nat.le_refl r, { g with seen := ?_ }⟩
    rcases sees with rfl | rfl
    · exact g.seen
    · exact Int.le_of_eq visible
  | opened idle next sees content => exact ⟨r, Nat.le_refl r, g.open h idle next sees content⟩
  | took reading next entry fits => exact ⟨r, Nat.le_refl r, g.take reading next entry fits⟩
  | passed reading next unconfirmed all =>
    exact ⟨r, Nat.le_refl r, g.pass reading next unconfirmed all⟩
  | released reading closed => exact g.release h reading closed
  | flushedReleased => exact ⟨_, g.given_le, g.flush h⟩
  | releasedToHere idle => exact ⟨_, g.given_le, g.releaseToHere idle⟩

/-- Both sides stand right after a call, and no call takes back a release. -/
theorem aligned_of_change {a : Action} (h : s.WriterAt m) (g : s.ReaderAt m r)
    (change : s.Change a t) : ∃ m' r', r ≤ r' ∧ t.WriterAt m' ∧ t.ReaderAt m' r' := by
  rcases change with writes | reads
  · obtain ⟨m', grows, writer, same⟩ := h.change writes
    exact ⟨m', r, Nat.le_refl r, writer, g.of_written writes.sameReader same grows⟩
  · obtain ⟨r', grows, reader⟩ := g.change h reads
    have side := reads.sameWriter
    have place := side.slabAt r'
    have before := s.slabAt_mono grows
    have given := g.given
    have given' := reader.given
    exact ⟨m, r', grows, h.of_read side (by omega), reader⟩

/-- Both sides stand right. -/
def Aligned (s : Session) : Prop := s.WriterAt s.published ∧ s.ReaderAt s.published s.released

theorem aligned_of_sides (h : s.WriterAt m) (g : s.ReaderAt m r) : s.Aligned := by
  unfold Aligned
  rw [h.published_eq, g.released_eq h]
  exact ⟨h, g⟩

theorem Aligned.change {a : Action} (aligned : s.Aligned) (change : s.Change a t) :
    t.Aligned ∧ s.released ≤ t.released := by
  obtain ⟨h, g⟩ := aligned
  obtain ⟨m', r', grows, h', g'⟩ := aligned_of_change h g change
  refine ⟨aligned_of_sides h' g', ?_⟩
  rw [g'.released_eq h']
  exact grows

/-- What is published stays published, and what is written of it does not change. -/
theorem Aligned.front {a : Action} (aligned : s.Aligned) (change : s.Change a t) :
    s.published ≤ t.published ∧ t.written.take s.published = s.written.take s.published := by
  rcases change with writes | reads
  · obtain ⟨m', grows, writer, same⟩ := aligned.1.change writes
    rw [writer.published_eq]
    exact ⟨grows, same⟩
  · have side := reads.sameWriter
    rw [side.published, side.written]
    exact ⟨Nat.le_refl _, rfl⟩

/-- The released position never goes back. -/
theorem Aligned.slabTail_le {a : Action} (aligned : s.Aligned) (change : s.Change a t) :
    s.pipe.store.slabTail ≤ t.pipe.store.slabTail := by
  obtain ⟨later, grows⟩ := aligned.change change
  have given := aligned.2.given
  have given' := later.2.given
  rcases change with writes | reads
  · exact Int.le_of_eq writes.sameReader.slabTail.symm
  · have place := reads.sameWriter.slabAt t.released
    have before := s.slabAt_mono grows
    omega

/-- Two sides that take up their work stand right where nothing is published and not released. -/
theorem aligned_start {store : Store} (same : store.slabTail = store.slabHead) :
    (Session.start (.start store)).Aligned := by
  have first : (Session.start (.start store)).slabAt 0 = store.slabHead := slabAt_zero _
  have place : store.slabTail = (Session.start (.start store)).slabAt 0 := same.trans first.symm
  have writer : (Session.start (.start store)).WriterAt 0 := by
    constructor
    · exact first.symm
    · exact Nat.le_refl 0
    · exact first.symm.trans (Int.add_zero _).symm
    · exact Int.le_of_eq first.symm
    · intro short
      exact absurd short (Nat.lt_irrefl 0)
    · show store.slabHead - (store.slab.size : Int) =
        (Session.start (.start store)).slabAt 0 + ((0 : Nat) : Int) - (store.slab.size : Int)
      omega
    · exact Int.le_of_eq same.symm
    · show (Session.start (.start store)).slabAt 0 + ((0 : Nat) : Int) ≤
        store.slabTail + (store.slab.size : Int)
      omega
    · rintro d ⟨⟩
    · rintro d ⟨⟩
  exact aligned_of_sides writer
    (.between rfl place (Nat.le_refl 0) (Nat.le_refl 0) place (Int.le_of_eq place)
      (fun short => absurd short (Nat.lt_irrefl 0)) (Int.le_of_eq place) place)

theorem aligned_of_reaches {rule : Session → Action → Prop} (first : s.Aligned)
    (run : Reaches rule s t) : t.Aligned :=
  run.invariant first fun _ _ _ aligned _ call => (aligned.change (change_of_step call)).1

/-! ## What no call changes -/

/-- The rings keep their sizes, and the capacity stays. -/
structure SameCapacity (s t : Session) : Prop where
  config : t.pipe.store.config = s.pipe.store.config
  slab : t.pipe.store.slab.size = s.pipe.store.slab.size
  blob : t.pipe.store.blob.size = s.pipe.store.blob.size
  slabStart : t.slabStart = s.slabStart
  blobStart : t.blobStart = s.blobStart

theorem SameCapacity.schema (same : s.SameCapacity t) : t.pipe.schema = s.pipe.schema :=
  congrArg Config.schema same.config

theorem Change.sameCapacity {a : Action} (change : s.Change a t) : s.SameCapacity t := by
  rcases change with writes | reads
  · have side := writes.sameReader
    refine ⟨side.config, ?_, ?_, side.slabStart, side.blobStart⟩
    · cases writes with
      | begun => exact Ring.size_set _ _ _
      | put => exact Ring.size_setList _ _ _
      | published =>
        obtain ⟨_, _, _, _, _, _, moved⟩ := s.pipe.putByteCount.publishBatched_eq
        rw [moved]
        exact Ring.size_set _ _ _
      | flushed =>
        obtain ⟨_, _, moved⟩ := s.pipe.flushPublished_eq
        rw [moved]
        rfl
      | finished => exact Ring.size_setList _ _ _
      | _ => rfl
    · cases writes with
      | put _ _ _ stores => exact stores.within.size
      | aside within => exact within.size
      | published =>
        obtain ⟨_, _, _, _, _, _, moved⟩ := s.pipe.putByteCount.publishBatched_eq
        rw [moved]
        rfl
      | flushed =>
        obtain ⟨_, _, moved⟩ := s.pipe.flushPublished_eq
        rw [moved]
        rfl
      | _ => rfl
  · have side := reads.sameWriter
    exact ⟨side.config, by rw [side.slab], by rw [side.blob], side.slabStart, side.blobStart⟩

theorem sameCapacity_of_reaches {rule : Session → Action → Prop} (run : Reaches rule s t) :
    s.SameCapacity t := by
  induction run with
  | refl => exact ⟨rfl, rfl, rfl, rfl, rfl⟩
  | step _ _ call ih =>
    have last := (change_of_step call).sameCapacity
    exact ⟨last.config.trans ih.config, last.slab.trans ih.slab, last.blob.trans ih.blob,
      last.slabStart.trans ih.slabStart, last.blobStart.trans ih.blobStart⟩

/-- A pipe keeps the capacity that it was made with. -/
theorem capacity_of_reaches {registry : Registry} {config : Config} {slab blob : Int} {p : Pipe}
    {rule : Session → Action → Prop} (opened : registry.open? config slab blob = some p)
    (run : Reaches rule (Session.start p) s) :
    s.pipe.store.config = config ∧ s.pipe.store.slab.size = config.slabSize := by
  have same := sameCapacity_of_reaches run
  constructor
  · rw [same.config, Registry.eq_of_open? opened]
    rfl
  · rw [same.slab, Registry.eq_of_open? opened]
    exact Ring.size_filled _ _

end Session

end FragmentPipe
