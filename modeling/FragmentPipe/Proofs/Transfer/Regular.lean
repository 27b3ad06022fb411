import FragmentPipe.Proofs.Capacity.Sizing
import FragmentPipe.Proofs.Transfer.Contents

/-!
Runs that write the fields of the schema. The density of the schema bounds the variable length
fields of each fragment by its cells, and the cells of what is not given back fit the slab; so do
these fields the places that the slab has for them. Main statement: `Regular.unreleasedFields_le`.
-/

namespace FragmentPipe

/-! ## Variable length fields -/

namespace Entry

/-- Whether a field has variable length. -/
def isContent : Entry → Bool
  | scalar _ => false
  | content _ => true

/-- The bytes that a field asks for. -/
def asked : Entry → Nat
  | content (.stream _ count) => count
  | e => e.bytesIn.length

theorem isContent_of_fits {e : Entry} {kind : FieldKind} (fits : e.fits kind = true) :
    e.isContent = kind.isVariable := by
  cases e with
  | scalar v => cases v <;> cases kind <;> first | rfl | cases fits
  | content c => exact fits.symm

end Entry

theorem Pipe.length_takeFrom_le (source : List Pipe.Delivery) (count : Nat) :
    (takeFrom source count).1.length ≤ count := by
  fun_induction takeFrom source count with
  | case1 source => exact Nat.le_refl 0
  | case2 count positive => exact Nat.zero_le count
  | case3 count positive rest ih => exact ih
  | case4 count positive message rest => exact Nat.zero_le count
  | case5 count positive bytes rest short => exact List.length_take_le count bytes
  | case6 count positive bytes rest long more ih =>
    have tail : more.1.length ≤ count - bytes.length := ih
    rw [List.length_append]
    omega

namespace Entry

theorem length_bytesIn_le_asked (e : Entry) : e.bytesIn.length ≤ e.asked := by
  cases e with
  | scalar v => exact Nat.le_refl _
  | content c =>
    cases c with
    | stream source count => exact Pipe.length_takeFrom_le source count
    | _ => exact Nat.le_refl _

theorem checked_le_asked {c : Content} {length : Int} (checked : c.checked? = some length) :
    0 ≤ length ∧ length ≤ (Entry.content c).asked := by
  have bounds : ∀ n : Nat, 0 ≤ Pipe.fieldLength n ∧ Pipe.fieldLength n ≤ n := by
    intro n
    unfold Pipe.fieldLength Pipe.maxInt
    omega
  cases c with
  | bytes data =>
    cases checked
    exact bounds _
  | pieces source =>
    by_cases empty : (source.getD []).flatten.length = 0
    · rw [Content.checked?, if_pos empty] at checked
      cases checked
    · rw [Content.checked?, if_neg empty] at checked
      cases checked
      exact bounds _
  | lowBytes text =>
    cases text with
    | none => cases checked
    | some t =>
      cases checked
      exact bounds _
  | utf8 text =>
    cases text with
    | none => cases checked
    | some t =>
      cases checked
      exact bounds _
  | null => cases checked
  | constant start count => cases checked
  | stream source count =>
    cases checked
    exact bounds _

end Entry

namespace Stroke

/-- The bytes that a call asks for: those of the field, or as many as are checked. -/
def asked : Stroke → Nat
  | entry e => e.asked
  | made m => m.checked
  | piece _ => 0

/-- Whether the call goes on with a streamed field. -/
def isPiece : Stroke → Bool
  | piece _ => true
  | _ => false

/-- Whether the schema may have the field as this kind. -/
def fits : Stroke → FieldKind → Bool
  | entry e, kind => e.fits kind
  | made _, kind => kind.isVariable
  | piece _, _ => false

variable {w : Stroke} {p : Pipe} {e : Entry} {blob : Ring UInt8}

theorem Stores.length_le_asked (stores : w.Stores p e blob) : e.bytesIn.length ≤ w.asked := by
  cases w with
  | entry e' =>
    cases stores.writes
    exact e.length_bytesIn_le_asked
  | made m =>
    obtain ⟨data, length, rfl⟩ := stores.writes
    exact Nat.le_trans (Nat.le_of_eq length) m.length_le_checked
  | piece c => cases stores.writes

theorem checked_le_asked {length : Int} (checked : w.checked? = some length) :
    0 ≤ length ∧ length ≤ w.asked := by
  cases w with
  | entry e =>
    cases e with
    | scalar value => cases checked
    | content c => exact Entry.checked_le_asked checked
  | made m =>
    cases checked
    exact ⟨Int.natCast_nonneg _, Int.le_refl _⟩
  | piece c => cases checked

/-- A field that the schema may have next has its kind. -/
theorem Stores.exists_fits {next : Option FieldKind} (stores : w.Stores p e blob)
    (kept : w.isPiece = true ∨ next.any w.fits = true) :
    ∃ kind, next = some kind ∧ e.fits kind = true := by
  cases w with
  | entry e' =>
    cases stores.writes
    rcases kept with piece | fits
    · cases piece
    · exact (Option.any_eq_true ..).mp fits
  | made m =>
    obtain ⟨data, -, rfl⟩ := stores.writes
    rcases kept with piece | fits
    · cases piece
    · exact (Option.any_eq_true ..).mp fits
  | piece c => cases stores.writes

end Stroke

namespace Entry

/-- The variable length fields among some. -/
def varCount (es : List Entry) : Nat := es.countP isContent

theorem sum_length_le {limit : Nat} {es : List Entry}
    (short : ∀ e ∈ es, e.bytesIn.length ≤ limit) :
    (es.map fun e => e.bytesIn.length).sum ≤ limit * varCount es := by
  induction es with
  | nil => exact Nat.zero_le _
  | cons e rest ih =>
    have others := ih fun e inside => short e (List.mem_cons_of_mem _ inside)
    have first := short e List.mem_cons_self
    rw [List.map_cons, List.sum_cons, varCount, List.countP_cons]
    cases e with
    | scalar v =>
      have bare : (scalar v).bytesIn.length = 0 := rfl
      rw [bare, Nat.zero_add]
      exact others
    | content c =>
      have var : (content c).isContent = true := rfl
      rw [if_pos var, Nat.mul_succ]
      unfold varCount at others
      omega

end Entry

/-! ## Fields of the schema -/

/-- The kind of the field that the schema has next. -/
def Session.nextKind? (s : Session) : Option FieldKind :=
  s.draft.bind fun d => d.fragment.fields[d.content.entries.length]?

/-- Every field is the next one of the schema. -/
def following (s : Session) (a : Action) : Prop :=
  a.OnPut fun w => w.isPiece = true ∨ s.nextKind?.any w.fits = true

instance (s : Session) (a : Action) : Decidable (following s a) :=
  inferInstanceAs (Decidable (a.OnPut _))

namespace Session

variable {s t : Session} {limit : Nat}

/-- What is written follows the schema: a finished fragment has no more variable length fields for
its cells than the density allows, and the open one has those of its fragment so far. -/
structure Regular (s : Session) : Prop where
  dense : ∀ w ∈ s.written, Entry.varCount w.entries * s.pipe.schema.density.cells ≤
    s.pipe.schema.density.fields * w.size
  member : ∀ d, s.draft = some d → d.fragment ∈ s.pipe.schema.fragments
  drafted : ∀ d, s.draft = some d → Entry.varCount d.content.entries =
    (d.fragment.fields.take d.content.entries.length).countP FieldKind.isVariable

theorem Regular.varCount_le (l : s.Regular) {d : Draft} (draft : s.draft = some d) :
    Entry.varCount d.content.entries * s.pipe.schema.density.cells ≤
      s.pipe.schema.density.fields * d.fragment.size := by
  have most : Entry.varCount d.content.entries ≤ d.fragment.varFields := by
    rw [l.drafted d draft]
    exact (List.take_sublist _ _).countP_le
  exact Nat.le_trans (Nat.mul_le_mul_right _ most) (s.pipe.schema.varFields_le (l.member d draft))

theorem Regular.of_idle (dense : ∀ w ∈ t.written, Entry.varCount w.entries *
    t.pipe.schema.density.cells ≤ t.pipe.schema.density.fields * w.size)
    (idle : t.draft = none) : t.Regular := by
  refine ⟨dense, ?_, ?_⟩
  · intro d draft
    rw [idle] at draft
    cases draft
  · intro d draft
    rw [idle] at draft
    cases draft

theorem Regular.of_draft {d : Draft} (dense : ∀ w ∈ t.written, Entry.varCount w.entries *
    t.pipe.schema.density.cells ≤ t.pipe.schema.density.fields * w.size)
    (draft : t.draft = some d) (member : d.fragment ∈ t.pipe.schema.fragments)
    (drafted : Entry.varCount d.content.entries =
      (d.fragment.fields.take d.content.entries.length).countP FieldKind.isVariable) :
    t.Regular := by
  refine ⟨dense, ?_, ?_⟩
  · intro d' same
    rw [draft] at same
    cases same
    exact member
  · intro d' same
    rw [draft] at same
    cases same
    exact drafted

/-- The fragment with its next field. -/
theorem varCount_add {d : Draft} {e : Entry} {kind : FieldKind}
    (before : Entry.varCount d.content.entries =
      (d.fragment.fields.take d.content.entries.length).countP FieldKind.isVariable)
    (next : d.fragment.fields[d.content.entries.length]? = some kind) (fits : e.fits kind = true) :
    Entry.varCount (d.content.add e).entries =
      (d.fragment.fields.take (d.content.add e).entries.length).countP FieldKind.isVariable := by
  have longer : (d.content.add e).entries.length = d.content.entries.length + 1 :=
    List.length_append
  have same := Entry.isContent_of_fits fits
  unfold Entry.varCount at before ⊢
  rw [longer, List.take_add_one, next, List.countP_append, ← before, Option.toList_some,
    List.countP_singleton, ← same]
  show List.countP Entry.isContent (d.content.entries ++ [e]) = _
  rw [List.countP_append, List.countP_singleton]

theorem Regular.change {a : Action} (l : s.Regular) (aligned : s.Aligned)
    (change : s.WriterChange a t) (kept : following s a) : t.Regular := by
  have schema := change.sameReader.schema
  have dense := l.dense
  cases change with
  | asked => exact ⟨dense, l.member, l.drafted⟩
  | @begun way message f seen idle fragment =>
    refine .of_draft dense rfl ?_ rfl
    unfold Schema.fragment? at fragment
    split at fragment
    · cases fragment
    · exact List.mem_of_getElem? fragment
  | nested idle fragment => exact .of_draft dense rfl (List.mem_of_getElem? fragment) rfl
  | @put w e d blob isOpen draft unconfirmed fits stores =>
    obtain ⟨kind, next, kindFits⟩ := stores.exists_fits kept
    have found : d.fragment.fields[d.content.entries.length]? = some kind := by
      rwa [nextKind?, draft, Option.bind_some] at next
    have longer := varCount_add (l.drafted d draft) found kindFits
    exact .of_draft dense rfl (l.member d draft) longer
  | aside =>
    rw [Pipe.withField_nil]
    exact ⟨dense, l.member, l.drafted⟩
  | @confirmed d draft => exact .of_draft dense rfl (l.member d draft) (l.drafted d draft)
  | @published d draft closed =>
    refine .of_idle ?_ rfl
    intro w member
    rw [schema]
    rcases List.mem_append.mp member with member | member
    · exact dense w member
    · cases List.mem_singleton.mp member
      rw [aligned.1.full d draft closed]
      exact l.varCount_le draft
  | flushed =>
    obtain ⟨_, _, moved⟩ := s.pipe.flushPublished_eq
    rw [moved]
    exact ⟨dense, l.member, l.drafted⟩
  | abandoned =>
    refine .of_idle ?_ rfl
    intro w member
    exact dense w (List.mem_of_mem_take member)
  | finished idle =>
    refine .of_idle ?_ idle
    intro w member
    rcases List.mem_append.mp member with member | member
    · exact dense w member
    · cases List.mem_singleton.mp member
      rw [Written.endMark, Entry.varCount, List.countP_nil, Nat.zero_mul]
      exact Nat.zero_le _

theorem Regular.of_read (l : s.Regular) (side : s.SameWriter t) : t.Regular := by
  constructor
  · rw [side.schema, side.written]
    exact l.dense
  · rw [side.schema, side.draft]
    exact l.member
  · rw [side.draft]
    exact l.drafted

/-! ## Cells, fields and bytes -/

/-- The cells of what is not given back, those of the open fragment included, fit the slab. -/
theorem Aligned.cells_le (aligned : s.Aligned) :
    cellsOf (s.written.drop s.released) + s.reserved ≤ s.pipe.store.slab.size := by
  have admitted := aligned.1.admitted
  have apart := congrArg cellsOf (List.take_append_drop s.released s.written)
  rw [cellsOf_append] at apart
  rw [aligned.2.given] at admitted
  unfold slabAt at admitted
  rw [List.take_length] at admitted
  omega

theorem sum_varCount_le {d : Density} {ws : List Written}
    (dense : ∀ w ∈ ws, Entry.varCount w.entries * d.cells ≤ d.fields * w.size) :
    (ws.map fun w => Entry.varCount w.entries).sum * d.cells ≤ d.fields * cellsOf ws := by
  induction ws with
  | nil =>
    rw [List.map_nil, List.sum_nil, Nat.zero_mul]
    exact Nat.zero_le _
  | cons w rest ih =>
    have others := ih fun w inside => dense w (List.mem_cons_of_mem _ inside)
    have first := dense w List.mem_cons_self
    rw [List.map_cons, List.sum_cons, cellsOf_cons, Nat.add_mul, Nat.mul_add]
    exact Nat.add_le_add first others

theorem sum_bytes_le {ws : List Written}
    (short : ∀ w ∈ ws, ∀ e ∈ w.entries, e.bytesIn.length ≤ limit) :
    (ws.map fun w => w.bytes.length).sum ≤
      limit * (ws.map fun w => Entry.varCount w.entries).sum := by
  induction ws with
  | nil => exact Nat.zero_le _
  | cons w rest ih =>
    have others := ih fun w inside => short w (List.mem_cons_of_mem _ inside)
    have first := Entry.sum_length_le (short w List.mem_cons_self)
    rw [List.map_cons, List.sum_cons, List.map_cons, List.sum_cons, Nat.mul_add,
      Written.length_bytes]
    exact Nat.add_le_add first others

/-- The variable length fields that are written and not given back. -/
def unreleasedFields (s : Session) : Nat :=
  ((s.written.drop s.released).map fun w => Entry.varCount w.entries).sum +
    Entry.varCount s.current.entries

/-- The variable length fields that are not given back fit the places that the slab has for them. -/
theorem Regular.unreleasedFields_le (l : s.Regular) (aligned : s.Aligned)
    (size : s.pipe.store.slab.size = s.pipe.store.config.slabSize) :
    s.unreleasedFields ≤ s.pipe.schema.varFieldsInSlab s.pipe.store.config.slabBits := by
  have cells := aligned.cells_le
  have rest : ((s.written.drop s.released).map fun w => Entry.varCount w.entries).sum *
      s.pipe.schema.density.cells ≤
        s.pipe.schema.density.fields * cellsOf (s.written.drop s.released) :=
    sum_varCount_le fun w inside => l.dense w (List.mem_of_mem_drop inside)
  have current : Entry.varCount s.current.entries * s.pipe.schema.density.cells ≤
      s.pipe.schema.density.fields * s.reserved := by
    cases draft : s.draft with
    | none =>
      rw [current_of_idle draft, Entry.varCount, List.countP_nil, Nat.zero_mul]
      exact Nat.zero_le _
    | some d =>
      rw [current_of_draft draft, reserved_of_draft draft]
      exact l.varCount_le draft
  have dense : s.unreleasedFields * s.pipe.schema.density.cells ≤
      s.pipe.schema.density.fields * s.pipe.store.config.slabSize := by
    rw [unreleasedFields, Nat.add_mul]
    refine Nat.le_trans (Nat.add_le_add rest current) ?_
    rw [← Nat.mul_add, ← size]
    exact Nat.mul_le_mul_left _ cells
  have window : s.unreleasedFields ≤
      s.pipe.schema.density.inWindow s.pipe.store.config.slabSize :=
    Density.le_inWindow s.pipe.schema.density_cells_pos dense
  exact Nat.le_trans window (Nat.le_max_left _ _)

/-- Fields of at most `limit` bytes come to no more bytes than that many in each place. -/
theorem Regular.unreleasedBytes_le (l : s.Regular) (aligned : s.Aligned)
    (size : s.pipe.store.slab.size = s.pipe.store.config.slabSize)
    (short : s.Every fun e => e.bytesIn.length ≤ limit) :
    s.unreleasedBytes ≤
      limit * s.pipe.schema.varFieldsInSlab s.pipe.store.config.slabBits := by
  have places := l.unreleasedFields_le aligned size
  have rest : ((s.written.drop s.released).map fun w => w.bytes.length).sum ≤
      limit * ((s.written.drop s.released).map fun w => Entry.varCount w.entries).sum :=
    sum_bytes_le fun w inside => short.written w (List.mem_of_mem_drop inside)
  have current := Entry.sum_length_le short.current
  rw [← Written.length_bytes] at current
  calc s.unreleasedBytes
      ≤ limit * ((s.written.drop s.released).map fun w => Entry.varCount w.entries).sum +
          limit * Entry.varCount s.current.entries := Nat.add_le_add rest current
    _ = limit * s.unreleasedFields := (Nat.mul_add _ _ _).symm
    _ ≤ limit * s.pipe.schema.varFieldsInSlab s.pipe.store.config.slabBits :=
        Nat.mul_le_mul_left _ places

/-! ## The moving average -/

/-- Only a field moves the average, and only to where the rule for averages takes it. -/
theorem WriterChange.average {a : Action} (change : s.WriterChange a t) :
    t.pipe.producer.average = s.pipe.producer.average ∨
      ∃ w, a = .put w ∧ t.pipe.producer.average = w.averageAfter s.pipe := by
  cases change with
  | put => exact .inr ⟨_, rfl, rfl⟩
  | aside within moved =>
    rcases moved with same | after
    · exact .inl same
    · exact .inr ⟨_, rfl, after⟩
  | published =>
    obtain ⟨_, _, _, _, _, _, moved⟩ := s.pipe.putByteCount.publishBatched_eq
    rw [moved]
    exact .inl rfl
  | flushed =>
    obtain ⟨_, _, moved⟩ := s.pipe.flushPublished_eq
    rw [moved]
    exact .inl rfl
  | _ => exact .inl rfl

end Session

end FragmentPipe
