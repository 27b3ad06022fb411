import FragmentPipe.Proofs.Stream.Glimpses

/-!
Fields gathered in one view. The next field of the reader is opened, and the fields after it are
added while what is in view may be read in between. A `Part` is a field by itself, and `Store.Row`
says that parts lie in the blob one behind the other, an absent one taking no place. A field that adds
bytes makes the view longer, one without bytes leaves it alone, and where nothing is in view yet, the
next field is opened anew: in each case what the view has left ends where the next field begins
(`FieldView.Leads`), and so it shows all bytes that come, one field after the other. Main statement:
`Store.Row.gathers`.
-/

namespace FragmentPipe

/-- Behind some of the bytes before a place lie the others. -/
theorem Ring.holds_behind {r : Ring UInt8} {place : Int} {front rest : List UInt8}
    (h : r.Holds (place - (front ++ rest).length) (front ++ rest)) :
    r.Holds (place - rest.length) rest := by
  have behind := (holds_append.mp h).2
  rw [List.length_append] at behind
  have start : place - ((front.length + rest.length : Nat) : Int) + front.length =
      place - rest.length := by omega
  rwa [start] at behind

/-! ## Parts -/

/-- A field of the blob by itself: its bytes, unless it is absent. -/
abbrev Part := Option (List UInt8)

namespace Part

/-- The length that the field tells. -/
def length (part : Part) : Int :=
  match part with
  | none => -1
  | some data => data.length

/-- The bytes of the field; an absent one has none. -/
def data (part : Part) : List UInt8 := part.getD []

/-- The bytes of all fields. -/
def join (parts : List Part) : List UInt8 := parts.flatMap data

theorem toNat_length (part : Part) : part.length.toNat = part.data.length := by
  cases part with
  | none => rfl
  | some data => exact Int.toNat_natCast _

/-- A field has no bytes if it is absent or empty. -/
theorem data_eq_nil {part : Part} (absent : part.length ≤ 0) : part.data = [] := by
  have size := part.toNat_length
  exact List.length_eq_zero_iff.mp (by omega)

theorem join_cons (part : Part) (parts : List Part) : join (part :: parts) = part.data ++ join parts :=
  List.flatMap_cons

end Part

/-- Parts lie one behind the other: the cells from `tail` on describe them, the first of them begins
at `place` of the blob, and the reader counts offsets from `base`. -/
inductive Store.Row (s : Store) (base : Int) : Int → Int → List Part → Prop where
  | nil (tail place : Int) : Row s base tail place []
  | cons {tail place offset : Int} {part : Part} {parts : List Part}
    (told : Descriptor.ofCells (s.slab.get tail) (s.slab.get (tail + 1)) =
      ⟨.blob offset, part.length⟩)
    (here : (base + offset) % (s.blob.size : Int) = place % (s.blob.size : Int))
    (bytes : s.blob.Holds place part.data)
    (rest : Row s base (tail + 2) (place + part.data.length) parts) :
    Row s base tail place (part :: parts)

/-! ## Calls -/

/-- A call while fields are gathered. Lines, and texts after their length, are read by such calls: 16
bit units, and the bytes of the text. -/
inductive Gather where
  /-- The next field of the reader is added. -/
  | field
  | fetch (c : Fetch)
  /-- At most `count` bytes, which are decoded as UTF-8. -/
  | text (count : Nat)

namespace Gather

/-- What the call answers with: a field its length. -/
abbrev Answer : Gather → Type
  | field => Int
  | fetch c => c.Answer
  | text _ => List Nat × List Event

/-- How many fields are added. -/
def opens : List Gather → Nat
  | [] => 0
  | field :: calls => opens calls + 1
  | fetch _ :: calls | text _ :: calls => opens calls

/-- The answers account for parts, where `left` bytes are left in view at first: every field tells its
own length, and the reads tell of these bytes, one after the other, each as far as bytes are in view.
A text is told from the bytes of one. -/
inductive Accounts : Nat → List Part → List (Σ g : Gather, g.Answer) → List UInt8 → Prop where
  | nil (left : Nat) (parts : List Part) : Accounts left parts [] []
  | field {left : Nat} {part : Part} {parts : List Part} {answers : List (Σ g : Gather, g.Answer)}
    {told : List UInt8} (later : Accounts (left + part.data.length) parts answers told) :
    Accounts left (part :: parts) (⟨field, part.length⟩ :: answers) told
  | fetch {left : Nat} {parts : List Part} {c : Fetch} {answer : c.Answer} {front told : List UInt8}
    {answers : List (Σ g : Gather, g.Answer)} (width : front.length = c.width left)
    (tells : c.Tells left front answer)
    (later : Accounts (left - front.length) parts answers told) :
    Accounts left parts (⟨fetch c, answer⟩ :: answers) (front ++ told)
  | text {left count : Nat} {parts : List Part} {answer : List Nat × List Event}
    {front told : List UInt8} {answers : List (Σ g : Gather, g.Answer)}
    (width : front.length = min count left)
    (tells : ∀ value : String, Utf8.encodeText value = front →
      answer = (value.toList.map Char.toNat, []))
    (later : Accounts (left - front.length) parts answers told) :
    Accounts left parts (⟨text count, answer⟩ :: answers) (front ++ told)

end Gather

namespace FieldView

/-- Makes calls one after the other, each where the pipe stands at the time of its call. -/
def gather (v : FieldView) (p : Pipe) :
    List (Gather × Store) → List (Σ g : Gather, g.Answer) × FieldView × Pipe
  | [] => ([], v, p)
  | (.field, s) :: calls =>
    let (length, v, p) := v.addField { p with store := s }
    let (answers, rest) := v.gather p calls
    (⟨.field, length⟩ :: answers, rest)
  | (.fetch c, s) :: calls =>
    let (answer, v) := c.run v s
    let (answers, rest) := v.gather { p with store := s } calls
    (⟨.fetch c, answer⟩ :: answers, rest)
  | (.text count, s) :: calls =>
    let (answer, v) := v.decodeText s count
    let (answers, rest) := v.gather { p with store := s } calls
    (⟨.text count, answer⟩ :: answers, rest)

/-! ## What the view has left leads to the next field -/

/-- The view has these bytes left, and they lie before a place of the blob, where the next field
begins. As long as no bytes have come in view, the view may stand anywhere. -/
inductive Leads (v : FieldView) (size : Nat) (place : Int) : List UInt8 → Prop where
  | nothing (length : v.length ≤ 0) (remaining : v.remaining = 0) : Leads v size place []
  | bytes {left : List UInt8} (length : 0 < v.length) (backing : v.backing = .blob)
    (remaining : v.remaining = left.length)
    (start : (place - left.length) % (size : Int) = v.position % (size : Int)) :
    Leads v size place left

variable {v : FieldView} {size : Nat} {place : Int} {left front rest : List UInt8} {s : Store}

theorem Leads.remaining_eq (h : v.Leads size place left) : v.remaining = left.length := by
  cases h with
  | nothing _ remaining => exact remaining
  | bytes _ _ remaining _ => exact remaining

/-- The cursor is at the bytes that lie before the place. -/
theorem Leads.holds (h : v.Leads size place left) (same : s.blob.size = size)
    (holds : s.blob.Holds (place - left.length) left) :
    s.blob.Holds v.position left := by
  cases h with
  | nothing => exact Ring.holds_nil _ _
  | bytes _ _ _ start =>
    rw [← same] at start
    exact holds.congr start

/-- What leads to a place is shown where it lies before it. -/
theorem Leads.shows_left (h : v.Leads size place left) (same : s.blob.size = size)
    (turn : (size : Int) ∣ wordSpan) (holds : s.blob.Holds (place - left.length) left) :
    v.Shows s left := by
  refine ⟨same ▸ turn, h.remaining_eq, ?_⟩
  cases h with
  | nothing => exact List.length_eq_zero_iff.mp (length_bytes ..)
  | bytes length backing remaining start =>
    have held := (Leads.bytes length backing remaining start).holds same holds
    rw [FieldView.bytes, backing]
    exact Ring.getList_eq_of_holds held

/-- A text is decoded from its bytes. -/
theorem Leads.decodeText_fst (h : v.Leads size place (front ++ rest)) (same : s.blob.size = size)
    (turn : (size : Int) ∣ wordSpan)
    (holds : s.blob.Holds (place - (front ++ rest).length) (front ++ rest)) {count : Nat}
    (width : front.length = min count (front ++ rest).length) {value : String}
    (encoded : Utf8.encodeText value = front) :
    (v.decodeText s count).1 = (value.toList.map Char.toNat, []) := by
  have all : min count v.remaining = (Utf8.encodeText value).length := by
    rw [h.remaining_eq, ← width, encoded]
  unfold decodeText
  dsimp only
  rw [all]
  cases backing : v.backing with
  | blob =>
    have held := (Ring.holds_append.mp (h.holds same holds)).1
    rw [← encoded] at held
    exact Utf8.decodeRun_of_holds (Pipe.folds_ring (same ▸ turn)) value.toList held
  | constants =>
    -- A view of the constants shows nothing.
    generalize whole : front ++ rest = left at h
    cases h with
    | nothing =>
      obtain ⟨rfl, -⟩ := List.append_eq_nil_iff.mp whole
      obtain rfl := Utf8.eq_empty_of_encodeText encoded
      exact Utf8.decodeRun_of_holds (Pipe.folds_buffer _) [] (fun _ inside => nomatch inside)
    | bytes _ backing' => cases backing.symm.trans backing'

/-- A fetch leaves the rest, which leads to the same place. -/
theorem Leads.run (h : v.Leads size place (front ++ rest)) (turn : (size : Int) ∣ wordSpan)
    {c : Fetch} (width : front.length = c.width v.remaining) :
    (c.run v s).2.Leads size place rest := by
  have remaining := h.remaining_eq
  rw [List.length_append] at remaining
  have moved : (c.run v s).2 = v ∧ front = [] ∨ (c.run v s).2 = v.advance front.length := by
    obtain ⟨same, still⟩ | moved := run_snd v s c
    · exact .inl ⟨same, List.length_eq_zero_iff.mp (width.trans still)⟩
    · exact .inr (width ▸ moved)
  rcases moved with ⟨same, rfl⟩ | moved
  · rw [same]
    exact h
  rw [moved]
  generalize whole : front ++ rest = left at h
  cases h with
  | nothing length absent =>
    obtain ⟨-, rfl⟩ := List.append_eq_nil_iff.mp whole
    exact .nothing length (by show v.remaining - front.length = 0; omega)
  | bytes length backing _ start =>
    refine .bytes length backing (by show v.remaining - front.length = rest.length; omega) ?_
    show _ = (v.position + front.length) % wordSpan % (size : Int)
    rw [Int.emod_emod_of_dvd _ turn, ← Int.add_emod_eq_add_emod_right _ start, ← whole,
      List.length_append]
    congr 1
    push_cast
    omega

end FieldView

/-! ## The next field -/

namespace Store.Row

variable {p : Pipe} {place : Int} {part : Part} {parts : List Part}

/-- The reader takes the descriptor of the first part, and stands before the rest. -/
theorem takeDescriptor_fst
    (row : p.store.Row p.consumer.readBase p.consumer.slabTail place (part :: parts)) :
    ∃ offset, p.takeDescriptor.1 = ⟨.blob offset, part.length⟩ ∧
      (p.consumer.readBase + offset) % (p.store.blob.size : Int) =
        place % (p.store.blob.size : Int) := by
  cases row with
  | @cons _ _ offset _ _ told here bytes rest =>
    refine ⟨offset, ?_, here⟩
    rw [← told]
    show Descriptor.ofCells (p.store.slab.get (p.consumer.slabTail + 0))
      (p.store.slab.get (p.consumer.slabTail + (1 : Nat) + 0)) = _
    rw [Int.add_zero, Int.add_zero]
    rfl

end Store.Row

/-- A field of the blob moves the blob position by its bytes; an absent one has none. -/
theorem Pipe.locate_snd {p : Pipe} {place : Int} (offset : Int) (part : Part)
    (here : p.consumer.blobTail % (p.store.blob.size : Int) = place % (p.store.blob.size : Int)) :
    ∃ tail, (p.locate offset part.length).2 = { p with consumer.blobTail := tail } ∧
      tail % (p.store.blob.size : Int) =
        (place + part.data.length) % (p.store.blob.size : Int) := by
  cases part with
  | none => exact ⟨p.consumer.blobTail, rfl, here.trans (congrArg (· % _) (Int.add_zero _).symm)⟩
  | some data =>
    refine ⟨(data.length + p.consumer.blobTail) % (p.store.blob.size : Int), ?_, ?_⟩
    · have present : 0 ≤ Part.length (some data) := Int.natCast_nonneg _
      unfold locate
      dsimp only
      rw [if_pos present]
      rfl
    · rw [Int.emod_emod, Int.add_comm]
      exact Int.add_emod_eq_add_emod_right _ here

namespace FieldView

variable {p : Pipe} {v : FieldView} {place : Int} {left : List UInt8} {part : Part}
  {parts : List Part}

/-- What is answered and left when a part is added to a view with bytes left before `place`: the part
tells its length, its bytes come behind those that are left, and both positions of the reader move
behind it. -/
structure Adds (p : Pipe) (place : Int) (left : List UInt8) (part : Part)
    (added : Int × FieldView × Pipe) : Prop where
  length : added.1 = part.length
  leads : added.2.1.Leads p.store.blob.size (place + part.data.length) (left ++ part.data)
  store : added.2.2.store = p.store
  base : added.2.2.consumer.readBase = p.consumer.readBase
  cells : added.2.2.consumer.slabTail = p.consumer.slabTail + 2
  ends : added.2.2.consumer.blobTail % (p.store.blob.size : Int) =
    (place + part.data.length) % (p.store.blob.size : Int)

/-- A part that is opened is all that is in view. -/
theorem adds_openField (turn : (p.store.blob.size : Int) ∣ blobSpan)
    (row : p.store.Row p.consumer.readBase p.consumer.slabTail place (part :: parts))
    (here : p.consumer.blobTail % (p.store.blob.size : Int) = place % (p.store.blob.size : Int)) :
    Adds p place [] part (openField p) := by
  obtain ⟨offset, descriptor, spot⟩ := row.takeDescriptor_fst
  have word : (p.store.blob.size : Int) ∣ wordSpan := Int.dvd_trans turn (by decide)
  have opened : openField p = (part.length,
      ofRun .blob (p.restorePosition offset) part.length,
      ((p.passCells 2).locate offset part.length).2) := by
    have origin : p.takeDescriptor.1.origin = .blob offset := by rw [descriptor]
    unfold openField
    dsimp only
    rw [origin]
    dsimp only
    rw [Pipe.locate_fst, Pipe.takeDescriptor_snd, descriptor]
    rfl
  obtain ⟨tail, moved, ends⟩ := Pipe.locate_snd (p := p.passCells 2) offset part here
  rw [opened, moved]
  refine ⟨rfl, ?_, rfl, rfl, rfl, ends⟩
  have size := part.toNat_length
  rw [List.nil_append]
  rcases Int.lt_or_le 0 part.length with present | absent
  · refine .bytes present rfl size ?_
    show _ = p.restorePosition offset % wordSpan % _
    rw [Int.emod_emod_of_dvd _ word, p.restorePosition_emod turn, spot, Int.add_sub_cancel]
  · rw [Part.data_eq_nil absent]
    exact .nothing absent (by show part.length.toNat = 0; omega)

/-- A part that is added comes behind what is left. -/
theorem Leads.adds_addField (h : v.Leads p.store.blob.size place left)
    (turn : (p.store.blob.size : Int) ∣ blobSpan)
    (row : p.store.Row p.consumer.readBase p.consumer.slabTail place (part :: parts))
    (here : p.consumer.blobTail % (p.store.blob.size : Int) = place % (p.store.blob.size : Int)) :
    Adds p place left part (v.addField p) := by
  unfold addField
  cases h with
  | nothing length _ =>
    rw [if_pos length]
    exact adds_openField turn row here
  | bytes length backing remaining start =>
    obtain ⟨offset, descriptor, -⟩ := row.takeDescriptor_fst
    have size := part.toNat_length
    rw [if_neg (Int.not_le.mpr length)]
    dsimp only
    rw [descriptor, Pipe.takeDescriptor_snd]
    dsimp only [Origin.offset]
    by_cases present : 0 < part.length
    · obtain ⟨tail, moved, ends⟩ := Pipe.locate_snd (p := p.passCells 2) offset part here
      rw [if_pos present, moved]
      refine ⟨rfl, .bytes (by show 0 < v.length + part.length; omega) backing ?_ ?_, rfl, rfl, rfl,
        ends⟩
      · show v.remaining + part.length.toNat = _
        rw [remaining, size, List.length_append]
      · rw [List.length_append, ← start]
        congr 1
        push_cast
        omega
    · have empty := Part.data_eq_nil (Int.not_lt.mp present)
      rw [if_neg present]
      refine ⟨rfl, ?_, rfl, rfl, rfl, ?_⟩
      · rw [empty, List.append_nil, List.length_nil, Int.natCast_zero, Int.add_zero]
        exact .bytes length backing remaining start
      · rw [empty, List.length_nil, Int.natCast_zero, Int.add_zero]
        exact here

end FieldView

/-! ## What calls deliver -/

namespace Gather

/-- What calls come to that add `opened` of the parts to a view with bytes left before `place`: of all
bytes that came in view, in the order of the parts, the answers account for those that were gone past,
the others are left, and the blob position of the reader ends behind the parts. -/
structure Delivers (size : Nat) (place : Int) (left : List UInt8) (parts : List Part) (opened : Nat)
    (after : List (Σ g : Gather, g.Answer) × FieldView × Pipe) : Prop where
  told : ∃ told behind : List UInt8, told ++ behind = left ++ Part.join (parts.take opened) ∧
    Accounts left.length parts after.1 told ∧ after.2.1.remaining = behind.length
  ends : after.2.2.consumer.blobTail % (size : Int) =
    (place + (Part.join (parts.take opened)).length) % (size : Int)

variable {size opened : Nat} {place : Int} {left front rest : List UInt8} {part : Part}
  {parts : List Part} {answers : List (Σ g : Gather, g.Answer)} {v : FieldView} {p : Pipe}

theorem Delivers.nil (parts : List Part) (shown : v.remaining = left.length)
    (here : p.consumer.blobTail % (size : Int) = place % (size : Int)) :
    Delivers size place left parts 0 ([], v, p) :=
  ⟨⟨[], left, (List.append_nil left).symm, .nil _ _, shown⟩,
    here.trans (congrArg (· % _) (Int.add_zero _).symm)⟩

/-- The bytes that a read goes past are those in front. -/
theorem Delivers.read {g : Gather} {answer : g.Answer}
    (tells : ∀ {told : List UInt8}, Accounts rest.length parts answers told →
      Accounts (front ++ rest).length parts (⟨g, answer⟩ :: answers) (front ++ told))
    (later : Delivers size place rest parts opened (answers, v, p)) :
    Delivers size place (front ++ rest) parts opened (⟨g, answer⟩ :: answers, v, p) := by
  obtain ⟨⟨told, behind, whole, accounts, remaining⟩, ends⟩ := later
  refine ⟨⟨front ++ told, behind, ?_, tells accounts, remaining⟩, ends⟩
  rw [List.append_assoc, whole, List.append_assoc]

/-- A part that is added comes behind what is left. -/
theorem Delivers.field
    (later : Delivers size (place + part.data.length) (left ++ part.data) parts opened
      (answers, v, p)) :
    Delivers size place left (part :: parts) (opened + 1)
      (⟨.field, part.length⟩ :: answers, v, p) := by
  obtain ⟨⟨told, behind, whole, accounts, remaining⟩, ends⟩ := later
  rw [List.length_append] at accounts
  refine ⟨⟨told, behind, ?_, .field accounts, remaining⟩, ?_⟩
  · rw [whole, List.take_succ_cons, Part.join_cons, List.append_assoc]
  · rw [List.take_succ_cons, Part.join_cons, List.length_append, Int.natCast_add, ← Int.add_assoc]
    exact ends

end Gather

/-! ## A row of fields -/

/-- A store of the pipe still has the bytes that are left in view before `place`, and the parts behind
them. -/
structure Store.Keeps (s : Store) (p : Pipe) (place : Int) (left : List UInt8) (parts : List Part) :
    Prop where
  size : s.blob.size = p.store.blob.size
  left : s.blob.Holds (place - left.length) left
  row : s.Row p.consumer.readBase p.consumer.slabTail place parts

namespace FieldView

variable {p : Pipe} {v : FieldView} {place : Int} {left : List UInt8} {parts : List Part}

/-- Calls that gather parts deliver them, wherever the pipe has changed since the view was opened. -/
theorem Leads.gather {calls : List (Gather × Store)} (turn : (p.store.blob.size : Int) ∣ blobSpan)
    (leads : v.Leads p.store.blob.size place left)
    (here : p.consumer.blobTail % (p.store.blob.size : Int) = place % (p.store.blob.size : Int))
    (kept : ∀ call ∈ calls, call.2.Keeps p place left parts)
    (enough : Gather.opens (calls.map Prod.fst) ≤ parts.length) :
    Gather.Delivers p.store.blob.size place left parts (Gather.opens (calls.map Prod.fst))
      (v.gather p calls) := by
  have word : (p.store.blob.size : Int) ∣ wordSpan := Int.dvd_trans turn (by decide)
  induction calls generalizing v p left parts place with
  | nil => exact .nil parts leads.remaining_eq here
  | cons call calls ih =>
    obtain ⟨g, s⟩ := call
    obtain ⟨⟨same, holds, row⟩, later⟩ := List.forall_mem_cons.mp kept
    dsimp only at same holds row
    rw [← same] at leads here turn word ⊢
    have behind {front rest : List UInt8} (split : front ++ rest = left) :
        ∀ other ∈ calls, other.2.Keeps { p with store := s } place rest parts := by
      intro other inside
      obtain ⟨size, holds, row⟩ := later other inside
      rw [← split] at holds
      exact ⟨size.trans same.symm, Ring.holds_behind holds, row⟩
    cases g with
    | fetch c =>
      have answer : (c.run v s).1 = c.answer left := (leads.shows_left rfl word holds).run_fst c
      have width : (left.take (c.width left.length)).length = c.width left.length :=
        List.length_take_of_le (c.width_le _)
      have tells := c.tells_answer left
      rw [← answer] at tells
      have split := List.take_append_drop (c.width left.length) left
      have remains := behind split
      generalize left.take (c.width left.length) = front at width tells split
      generalize left.drop (c.width left.length) = rest at split remains
      subst split
      refine .read (fun accounts => .fetch width tells ?_) (ih (p := { p with store := s }) turn
        (leads.run word (leads.remaining_eq ▸ width)) here remains enough word)
      rw [List.length_append, Nat.add_sub_cancel_left]
      exact accounts
    | text count =>
      have width : (left.take (min count left.length)).length = min count left.length :=
        List.length_take_of_le (Nat.min_le_right ..)
      have split := List.take_append_drop (min count left.length) left
      have remains := behind split
      generalize left.take (min count left.length) = front at width split
      generalize left.drop (min count left.length) = rest at split remains
      subst split
      refine .read (fun accounts => .text width
        (fun value encoded => leads.decodeText_fst rfl word holds width encoded) ?_)
        (ih (p := { p with store := s }) turn
          (leads.run (s := s) (c := .skip count) word (leads.remaining_eq ▸ width)) here remains enough
          word)
      rw [List.length_append, Nat.add_sub_cancel_left]
      exact accounts
    | field =>
      cases parts with
      | nil => exact absurd enough (Nat.not_succ_le_zero _)
      | cons part parts =>
        obtain ⟨length, leads, store, base, cells, ends⟩ :=
          leads.adds_addField (p := { p with store := s }) turn row here
        rw [gather]
        generalize v.addField { p with store := s } = added at length leads store base cells ends
        obtain ⟨n, w, q⟩ := added
        dsimp only at length leads store base cells ends
        subst length
        rw [← store] at turn leads ends same word ⊢
        refine .field (ih turn leads ends ?_ (Nat.le_of_succ_le_succ enough) word)
        intro other inside
        obtain ⟨size, holds, row⟩ := later other inside
        have start : place + (part.data.length : Int) - ((left ++ part.data).length : Nat) =
            place - left.length := by
          rw [List.length_append]
          omega
        have back : place - (left.length : Int) + left.length = place := Int.sub_add_cancel ..
        cases row with
        | cons _ _ bytes rest =>
          refine ⟨size.trans same.symm, ?_, ?_⟩
          · rw [start, Ring.holds_append, back]
            exact ⟨holds, bytes⟩
          · rw [base, cells]
            exact rest

end FieldView

namespace Pipe

/-- A store of the pipe still has the parts that the reader stands before. -/
structure StillHas (p : Pipe) (place : Int) (parts : List Part) (s : Store) : Prop where
  size : s.blob.size = p.store.blob.size
  row : s.Row p.consumer.readBase p.consumer.slabTail place parts

/-- However fields are gathered, they come as one stream: when the next field is opened, and those
behind it are added one after the other with any reads in between, each call made on one of these
stores, the parts are delivered. -/
def Gathers (p : Pipe) (during : Store → Prop) (place : Int) (parts : List Part) : Prop :=
  ∀ calls : List (Gather × Store), (∀ call ∈ calls, during call.2) →
    Gather.opens (calls.map Prod.fst) < parts.length →
      let opened := FieldView.openField p
      let later := opened.2.1.gather opened.2.2 calls
      Gather.Delivers p.store.blob.size place [] parts (Gather.opens (calls.map Prod.fst) + 1)
        (⟨.field, opened.1⟩ :: later.1, later.2)

theorem Gathers.mono {p : Pipe} {during other : Store → Prop} {place : Int} {parts : List Part}
    (h : p.Gathers during place parts) (weaker : ∀ s, other s → during s) :
    p.Gathers other place parts :=
  fun calls kept => h calls fun call inside => weaker _ (kept call inside)

/-- The next field of the reader by itself. -/
def nextPart (p : Pipe) : Part :=
  if p.takeDescriptor.1.length < 0 then none else some p.nextBytes

/-- The next fields of the reader, each by itself. -/
def nextParts (p : Pipe) : Nat → List Part
  | 0 => []
  | count + 1 => p.nextPart :: (p.passCells 2).nextParts count

end Pipe

namespace Store.Row

variable {p : Pipe} {place : Int} {parts : List Part}

/-- A reader that stands before a row gathers its parts. -/
theorem gathers (row : p.store.Row p.consumer.readBase p.consumer.slabTail place parts)
    (turn : (p.store.blob.size : Int) ∣ blobSpan)
    (here : p.consumer.blobTail % (p.store.blob.size : Int) = place % (p.store.blob.size : Int)) :
    p.Gathers (p.StillHas place parts) place parts := by
  intro calls kept enough opened later
  cases parts with
  | nil => exact absurd enough (Nat.not_lt_zero _)
  | cons part parts =>
    obtain ⟨length, leads, store, base, cells, ends⟩ := FieldView.adds_openField turn row here
    change opened.1 = part.length at length
    rw [length]
    rw [← store] at turn leads ends ⊢
    refine .field (leads.gather turn ends ?_ (Nat.le_of_lt_succ enough))
    intro call inside
    obtain ⟨size, row⟩ := kept call inside
    have start : place + (part.data.length : Int) - (([] ++ part.data).length : Nat) = place := by
      rw [List.nil_append, Int.add_sub_cancel]
    cases row with
    | cons _ _ bytes rest =>
      refine ⟨size.trans (congrArg (fun s : Store => s.blob.size) store.symm), ?_, ?_⟩
      · rw [start]
        exact bytes
      · rw [base, cells]
        exact rest

/-- The parts of a row are the fields that the reader finds one by one. -/
theorem nextParts_eq (row : p.store.Row p.consumer.readBase p.consumer.slabTail place parts)
    (turn : (p.store.blob.size : Int) ∣ blobSpan) : p.nextParts parts.length = parts := by
  induction parts generalizing p place with
  | nil => rfl
  | cons part parts ih =>
    obtain ⟨offset, descriptor, spot⟩ := row.takeDescriptor_fst
    cases row with
    | cons _ _ bytes rest =>
      have first : p.nextPart = part := by
        unfold Pipe.nextPart Pipe.nextBytes
        rw [descriptor, Pipe.takeDescriptor_snd]
        cases part with
        | none => exact if_pos (show (-1 : Int) < 0 by decide)
        | some data =>
          have present : ¬Part.length (some data) < 0 := Int.not_lt.mpr (Int.natCast_nonneg _)
          have circle : place % (p.store.blob.size : Int) =
              p.restorePosition offset % (p.store.blob.size : Int) := by
            rw [p.restorePosition_emod turn, spot]
          rw [if_neg present]
          exact congrArg some (Ring.getList_eq_of_holds (bytes.congr circle))
      rw [List.length_cons, Pipe.nextParts, first, ih (p := p.passCells 2) rest turn]

end Store.Row

end FragmentPipe
