import FragmentPipe.Consume.Field
import FragmentPipe.Proofs.Text.Utf8RoundTrip
import FragmentPipe.Proofs.Transfer.Entry

/-!
Fields as the reading side takes them. `Pipe.takeField` takes a field of a kind, and `Entry.Shows`
says what is to be seen of a field that was written. Main statements: `takeField_eq`, taking a field
moves the reader's own positions only, and `shows_takeField`, a field whose cells and bytes lie
where the reader stands is seen as it was written.
-/

namespace FragmentPipe

/-- What the reading side sees of a field. -/
inductive FieldValue where
  | int (value : Int32)
  | optionalInt (value : Option Int32)
  | long (value : Int64)
  | optionalLong (value : Option Int64)
  | decimal (exponent : Int32) (mantissa : Int64)
  | optionalDecimal (value : Option (Int32 × Int64))
  | bytes (value : Option (List UInt8))
  | text (value : Option String)
  deriving DecidableEq

/-- Takes a field of a kind: a variable length field as low byte text, as UTF-8 or as bytes, unless
it is absent. -/
def Pipe.takeField (p : Pipe) : FieldKind → FieldValue × Pipe
  | .int | .groupLength => (.int p.takeInt.1, p.takeInt.2)
  | .optionalInt => (.optionalInt p.takeOptionalInt.1, p.takeOptionalInt.2)
  | .long => (.long p.takeLong.1, p.takeLong.2)
  | .optionalLong => (.optionalLong p.takeOptionalLong.1, p.takeOptionalLong.2)
  | .decimal => (.decimal p.takeDecimal.1.1 p.takeDecimal.1.2, p.takeDecimal.2)
  | .optionalDecimal => (.optionalDecimal p.takeOptionalDecimal.1, p.takeOptionalDecimal.2)
  | .ascii =>
    let read := readPresent readLowBytes p.takeDescriptor.2 p.takeDescriptor.1
    (.text read.1, read.2)
  | .utf8 =>
    let read := readPresent readUtf8 p.takeDescriptor.2 p.takeDescriptor.1
    (.text read.1, read.2)
  | .bytes =>
    let read := readPresent readBytes p.takeDescriptor.2 p.takeDescriptor.1
    (.bytes read.1, read.2)

/-! ## What is to be seen -/

/-- What is to be seen of a scalar field: the value written, but a value that the schema reserves
for absence is absent. -/
def Scalar.seen (s : Schema) : Scalar → FieldValue
  | int value => .int value
  | optionalInt value => .optionalInt (value.filter (· ≠ s.absentInt))
  | long value => .long value
  | optionalLong value => .optionalLong (value.filter (· ≠ s.absentLong))
  | decimal exponent mantissa => .decimal exponent mantissa
  | optionalDecimal value => .optionalDecimal (value.filter (·.1 ≠ s.absentInt))

/-- The bytes of a field, wherever they lie. -/
def Content.heldBytes (constants : Buffer) : Content → List UInt8
  | constant start length =>
    (constants.extract start.toInt.toNat (start.toInt.toNat + length.toInt.toNat)).toList
  | c => c.bytesIn

/-- The bytes of a field unless it is absent. -/
def Content.held (constants : Buffer) (c : Content) : Option (List UInt8) :=
  if c.length < 0 then none else some (c.heldBytes constants)

/-- What is to be seen of a variable length field that is taken as a kind: its bytes, its bytes as
one character each, or the text whose UTF-8 form they are. Nothing is said of the text of bytes that
are no UTF-8 form. -/
def Content.Shows (constants : Buffer) (c : Content) : FieldKind → FieldValue → Prop
  | .bytes, .bytes value => value = c.held constants
  | .ascii, .text value =>
    value = (c.held constants).map fun bytes => String.ofList (LowByte.decode bytes)
  | .utf8, .text value =>
    ∀ text : Option String, c.held constants = text.map Utf8.encodeText → value = text
  | _, _ => False

namespace Entry

/-- Whether a field may be taken as a kind. A variable length field may be taken as any kind of
variable length. -/
def fits : Entry → FieldKind → Bool
  | scalar (.int _), .int | scalar (.int _), .groupLength => true
  | scalar (.optionalInt _), .optionalInt => true
  | scalar (.long _), .long => true
  | scalar (.optionalLong _), .optionalLong => true
  | scalar (.decimal _ _), .decimal => true
  | scalar (.optionalDecimal _), .optionalDecimal => true
  | content _, kind => kind.isVariable
  | _, _ => false

/-- What is to be seen of a field that is taken as a kind. -/
def Shows (s : Schema) (constants : Buffer) (e : Entry) (kind : FieldKind) (value : FieldValue) :
    Prop :=
  match e with
  | scalar v => value = v.seen s
  | content c => c.Shows constants kind value

theorem width_eq_of_fits {e : Entry} {kind : FieldKind} (h : e.fits kind = true) :
    e.width = kind.width := by
  cases e with
  | scalar v => cases v <;> cases kind <;> first | rfl | cases h
  | content c => cases kind <;> first | rfl | cases h

end Entry

/-! ## Taking a field moves the reader -/

namespace Pipe

/-- Everything that taking a field can change: the reader's own positions, and what is reported. -/
def passed (p : Pipe) (width : Nat) (blobTail : Int) (events : List Event) : Pipe :=
  { p with
    consumer.slabTail := p.consumer.slabTail + width
    consumer.blobTail := blobTail
    store.events := events }

theorem passCells_eq (p : Pipe) (count : Nat) :
    p.passCells count = p.passed count p.consumer.blobTail p.store.events := rfl

theorem passCells_passCells (p : Pipe) (m n : Nat) :
    (p.passCells m).passCells n = p.passCells (m + n) := by
  simp only [passCells]
  congr 2
  push_cast
  omega

theorem takeLong_snd (p : Pipe) : p.takeLong.2 = p.passCells 2 := p.passCells_passCells 1 1

theorem takeDecimal_snd (p : Pipe) : p.takeDecimal.2 = p.passCells 3 := by
  show (p.passCells 1).takeLong.2 = _
  rw [takeLong_snd, passCells_passCells]

theorem takeDescriptor_snd (p : Pipe) : p.takeDescriptor.2 = p.passCells 2 :=
  p.passCells_passCells 1 1

theorem passField_eq (p : Pipe) (d : Descriptor) :
    p.passField d = p.passed 0 (p.passField d).consumer.blobTail p.store.events := by
  have still : p.passed 0 p.consumer.blobTail p.store.events = p := by simp [passed]
  cases origin : d.origin with
  | constants offset =>
    have same : p.passField d = p := by rw [passField, origin]
    rw [same, still]
  | blob offset =>
    simp only [passField, origin, locate]
    split
    · simp [passed]
    · exact still.symm

theorem passed_passed (p : Pipe) (m n : Nat) (a b : Int) (x y : List Event) :
    (p.passed m a x).passed n b y = p.passed (m + n) b y := by
  simp only [passed]
  congr 2
  push_cast
  omega

theorem readBytes_snd (p : Pipe) (d : Descriptor) :
    ∃ tail events, (p.readBytes d).2 = p.passed 0 tail events := by
  unfold readBytes
  split
  · exact ⟨p.consumer.blobTail, p.store.events, by simp [passed]⟩
  · exact ⟨_, _, p.passField_eq d⟩

theorem readLowBytes_snd (p : Pipe) (d : Descriptor) :
    ∃ tail events, (p.readLowBytes d).2 = p.passed 0 tail events := p.readBytes_snd d

theorem readUtf8_snd (p : Pipe) (d : Descriptor) :
    ∃ tail events, (p.readUtf8 d).2 = p.passed 0 tail events := by
  unfold readUtf8
  split
  · exact ⟨p.consumer.blobTail, p.store.events, by simp [passed]⟩
  · refine ⟨(p.passField d).consumer.blobTail,
      (p.passField d).store.events ++ (p.decodeField d).2, ?_⟩
    have moved := p.passField_eq d
    simp only [Store.reportAll]
    rw [moved]
    rfl

theorem readPresent_snd {α : Type} {read : Pipe → Descriptor → (Nat × α) × Pipe}
    (moves : ∀ p d, ∃ tail events, (read p d).2 = p.passed 0 tail events) (p : Pipe)
    (d : Descriptor) : ∃ tail events, (readPresent read p d).2 = p.passed 0 tail events := by
  unfold readPresent
  split
  · exact ⟨p.consumer.blobTail, p.store.events, by simp [passed]⟩
  · exact moves p d

theorem takeVariable_snd {α : Type} {read : Pipe → Descriptor → (Nat × α) × Pipe}
    (moves : ∀ p d, ∃ tail events, (read p d).2 = p.passed 0 tail events) (p : Pipe) :
    ∃ tail events, (readPresent read p.takeDescriptor.2 p.takeDescriptor.1).2 =
      p.passed 2 tail events := by
  obtain ⟨tail, events, same⟩ := readPresent_snd moves p.takeDescriptor.2 p.takeDescriptor.1
  refine ⟨tail, events, ?_⟩
  rw [same, takeDescriptor_snd, passCells_eq, passed_passed]

/-- Taking a field moves the reader behind its cells and changes nothing else but the reader's blob
position and the report. -/
theorem takeField_eq (p : Pipe) (kind : FieldKind) :
    ∃ tail events, (p.takeField kind).2 = p.passed kind.width tail events := by
  cases kind with
  | int => exact ⟨_, _, rfl⟩
  | groupLength => exact ⟨_, _, rfl⟩
  | optionalInt => exact ⟨_, _, rfl⟩
  | long => exact ⟨_, _, p.takeLong_snd⟩
  | optionalLong => exact ⟨_, _, p.takeLong_snd⟩
  | decimal => exact ⟨_, _, p.takeDecimal_snd⟩
  | optionalDecimal => exact ⟨_, _, p.takeDecimal_snd⟩
  | ascii => exact takeVariable_snd (fun p d => p.readLowBytes_snd d) p
  | utf8 => exact takeVariable_snd (fun p d => p.readUtf8_snd d) p
  | bytes => exact takeVariable_snd (fun p d => p.readBytes_snd d) p

/-! ## Taking a field does not look at the writer -/

/-- The pipe with another writer, and another place held back by the reader's batch. -/
def beside (p : Pipe) (w : Producer) (cell : Int) : Pipe :=
  { p with producer := w, consumer.heldSlab := cell }

section Beside

variable (p : Pipe) (w : Producer) (cell : Int)

theorem passField_beside (d : Descriptor) :
    (p.beside w cell).passField d = (p.passField d).beside w cell := by
  unfold passField locate
  split
  · split
    · rfl
    · rfl
  · rfl

theorem readBytes_beside (d : Descriptor) :
    (p.beside w cell).readBytes d = ((p.readBytes d).1, (p.readBytes d).2.beside w cell) := by
  unfold readBytes
  rw [passField_beside]
  split
  · rfl
  · rfl

theorem readLowBytes_beside (d : Descriptor) :
    (p.beside w cell).readLowBytes d =
      ((p.readLowBytes d).1, (p.readLowBytes d).2.beside w cell) := by
  unfold readLowBytes
  rw [readBytes_beside]

theorem readUtf8_beside (d : Descriptor) :
    (p.beside w cell).readUtf8 d = ((p.readUtf8 d).1, (p.readUtf8 d).2.beside w cell) := by
  unfold readUtf8
  rw [passField_beside]
  split
  · rfl
  · rfl

theorem readPresent_beside {α : Type} {read : Pipe → Descriptor → (Nat × α) × Pipe}
    {d : Descriptor}
    (same : read (p.beside w cell) d = ((read p d).1, (read p d).2.beside w cell)) :
    readPresent read (p.beside w cell) d =
      ((readPresent read p d).1, (readPresent read p d).2.beside w cell) := by
  unfold readPresent
  split
  · rfl
  · rw [same]

theorem takeField_beside (kind : FieldKind) :
    (p.beside w cell).takeField kind =
      ((p.takeField kind).1, (p.takeField kind).2.beside w cell) := by
  have descriptor : (p.beside w cell).takeDescriptor =
    (p.takeDescriptor.1, p.takeDescriptor.2.beside w cell) := rfl
  cases kind with
  | ascii =>
    unfold takeField
    rw [descriptor]
    dsimp only
    rw [readPresent_beside _ _ _ (readLowBytes_beside ..)]
  | utf8 =>
    unfold takeField
    rw [descriptor]
    dsimp only
    rw [readPresent_beside _ _ _ (readUtf8_beside ..)]
  | bytes =>
    unfold takeField
    rw [descriptor]
    dsimp only
    rw [readPresent_beside _ _ _ (readBytes_beside ..)]
  | _ => rfl

end Beside

/-! ## Scalar fields -/

theorem takeInt_fst {p : Pipe} {a : Int32} {l : List Int32}
    (h : p.store.slab.Holds p.consumer.slabTail (a :: l)) : p.takeInt.1 = a := by
  show p.store.slab.get (p.consumer.slabTail + 0) = a
  rw [Int.add_zero]
  exact (Ring.holds_cons.mp h).1

theorem holds_passCells {p : Pipe} {a : Int32} {l : List Int32}
    (h : p.store.slab.Holds p.consumer.slabTail (a :: l)) :
    (p.passCells 1).store.slab.Holds (p.passCells 1).consumer.slabTail l :=
  (Ring.holds_cons.mp h).2

theorem takeLong_fst {p : Pipe} {value : Int64} {l : List Int32}
    (h : p.store.slab.Holds p.consumer.slabTail
      ((splitLong value).1 :: (splitLong value).2 :: l)) : p.takeLong.1 = value := by
  have second := takeInt_fst (holds_passCells h)
  show joinLong p.takeInt.1 (p.passCells 1).takeInt.1 = value
  rw [takeInt_fst h, second, joinLong_splitLong]

theorem takeDecimal_fst {p : Pipe} {exponent : Int32} {mantissa : Int64} {l : List Int32}
    (h : p.store.slab.Holds p.consumer.slabTail
      (exponent :: (splitLong mantissa).1 :: (splitLong mantissa).2 :: l)) :
    p.takeDecimal.1 = (exponent, mantissa) := by
  show (p.takeInt.1, (p.passCells 1).takeLong.1) = _
  rw [takeInt_fst h, takeLong_fst (holds_passCells h)]

/-- A value that may be absent, written as the value or as the one that means absence, is seen
unless it is the latter. -/
theorem filter_eq_of_getD {α : Type} [DecidableEq α] (value : Option α) (absent : α) :
    (if value.getD absent = absent then none else some (value.getD absent)) =
      value.filter (· ≠ absent) := by
  cases value with
  | none => simp
  | some v => by_cases same : v = absent <;> simp [Option.filter, same]

theorem takeOptionalDecimal_fst {p : Pipe} {value : Option (Int32 × Int64)}
    (h : p.store.slab.Holds p.consumer.slabTail ((Scalar.optionalDecimal value).cells p.schema)) :
    p.takeOptionalDecimal.1 = value.filter (·.1 ≠ p.schema.absentInt) := by
  have parts : p.takeDecimal.1 = value.getD (p.schema.absentInt, p.schema.absentLong) :=
    takeDecimal_fst h
  have schema : p.takeDecimal.2.schema = p.schema := by rw [takeDecimal_snd]; rfl
  show (if p.takeDecimal.1.1 = p.takeDecimal.2.schema.absentInt then none
    else some p.takeDecimal.1) = _
  rw [parts, schema]
  cases value with
  | none => simp
  | some v => by_cases same : v.1 = p.schema.absentInt <;> simp [Option.filter, same]

theorem shows_scalar {p : Pipe} {v : Scalar} {kind : FieldKind}
    (fits : (Entry.scalar v).fits kind = true)
    (cells : p.store.slab.Holds p.consumer.slabTail (v.cells p.schema)) :
    (p.takeField kind).1 = v.seen p.schema := by
  cases v with
  | int value =>
    have read := takeInt_fst cells
    cases kind <;> first | exact congrArg FieldValue.int read | cases fits
  | optionalInt value =>
    have read := takeInt_fst cells
    cases kind <;> cases fits
    show FieldValue.optionalInt (if p.takeInt.1 = p.schema.absentInt then none
      else some p.takeInt.1) = _
    rw [read, filter_eq_of_getD]
    rfl
  | long value =>
    have read := takeLong_fst cells
    cases kind <;> first | exact congrArg FieldValue.long read | cases fits
  | optionalLong value =>
    have read := takeLong_fst cells
    cases kind <;> cases fits
    show FieldValue.optionalLong (if p.takeLong.1 = p.schema.absentLong then none
      else some p.takeLong.1) = _
    rw [read, filter_eq_of_getD]
    rfl
  | decimal exponent mantissa =>
    have read := takeDecimal_fst cells
    cases kind <;> cases fits
    show FieldValue.decimal p.takeDecimal.1.1 p.takeDecimal.1.2 = _
    rw [read]
    rfl
  | optionalDecimal value =>
    have read := takeOptionalDecimal_fst cells
    cases kind <;> first | exact congrArg FieldValue.optionalDecimal read | cases fits

end Pipe

/-! ## Variable length fields -/

namespace Content

theorem length_eq_of_checked {c : Content} {length : Int} (checked : c.checked? = some length) :
    c.length = length := by
  cases c with
  | constant start count => cases checked
  | _ => exact congrArg (fun x => x.getD (-1)) checked

variable {constants : Buffer} {c : Content}

/-- Every length that a written field tells is a 32 bit number. -/
theorem Sound.length_bounds (sound : c.Sound constants) :
    -0x80000000 ≤ c.length ∧ c.length ≤ Pipe.maxInt := by
  cases checked : c.checked? with
  | some length =>
    rw [length_eq_of_checked checked, sound.told length checked, Pipe.fieldLength]
    unfold Pipe.maxInt
    omega
  | none =>
    cases c with
    | constant start count =>
      have low := count.le_toInt
      have high := count.toInt_lt
      simp only [length, Pipe.maxInt]
      omega
    | _ => simp only [length, checked, Option.getD_none]; decide

theorem toInt_length (sound : c.Sound constants) : (Int32.ofInt c.length).toInt = c.length := by
  have bounds := sound.length_bounds
  unfold Pipe.maxInt at bounds
  exact Int32.toInt_ofInt_of_le (by omega) (by omega)

/-- The two cells of a descriptor mean the descriptor. -/
theorem ofCells_descriptor (sound : c.Sound constants) {offset : Int} (low : 0 ≤ offset)
    (high : offset < blobSpan) :
    Descriptor.ofCells (c.origin offset).toCell (Int32.ofInt c.length) = c.descriptor offset := by
  rw [Descriptor.ofCells, toInt_length sound, descriptor]
  cases c with
  | constant start count =>
    have inside := sound.inside start count rfl
    have bound := start.toInt_lt
    rw [origin, Origin.ofCell_toCell_constants inside.1 (by unfold blobSpan; omega)]
  | _ => simp [origin, Origin.ofCell_toCell_blob low high]

theorem length_heldBytes (sound : c.Sound constants)
    (short : (c.bytesIn.length : Int) ≤ Pipe.maxInt) (present : 0 ≤ c.length) :
    (c.heldBytes constants).length = c.length.toNat := by
  cases checked : c.checked? with
  | some length =>
    have told := sound.told length checked
    rw [length_eq_of_checked checked, told, Pipe.fieldLength, Int.min_eq_left short,
      Int.toNat_natCast]
    cases c with
    | constant start count => cases checked
    | _ => rfl
  | none =>
    cases c with
    | constant start count =>
      have inside := sound.inside start count rfl
      simp only [length] at present
      simp only [heldBytes, length, Array.length_toList, Array.size_extract]
      omega
    | _ => simp only [length, checked, Option.getD_none] at present; omega

end Content

namespace Pipe

/-- A field lies where the reader stands: its cells at the reader's slab position and its bytes
`offset` bytes after the base of the fragment. -/
structure Faces (p : Pipe) (c : Content) (offset : Nat) : Prop where
  cells : p.store.slab.Holds p.consumer.slabTail (c.descriptor offset).cells
  bytes : p.store.blob.Holds (p.consumer.readBase + offset) c.bytesIn
  turn : (p.store.blob.size : Int) ∣ blobSpan
  offset_lt : (offset : Int) < blobSpan
  short : (c.bytesIn.length : Int) ≤ maxInt
  sound : c.Sound p.store.config.constants

variable {p : Pipe} {c : Content} {offset : Nat}

/-- The reader takes what the two cells mean that it stands at. -/
theorem takeDescriptor_of_cells {d : Descriptor}
    (cells : p.store.slab.Holds p.consumer.slabTail d.cells) :
    p.takeDescriptor.1 = .ofCells d.origin.toCell (Int32.ofInt d.length) := by
  have second := takeInt_fst (holds_passCells cells)
  show Descriptor.ofCells p.takeInt.1 (p.passCells 1).takeInt.1 = _
  rw [takeInt_fst cells, second]

theorem Faces.takeDescriptor_fst (h : p.Faces c offset) :
    p.takeDescriptor.1 = c.descriptor offset := by
  rw [takeDescriptor_of_cells h.cells]
  exact Content.ofCells_descriptor h.sound (Int.natCast_nonneg offset) h.offset_lt

theorem restorePosition_emod (p : Pipe) (turn : (p.store.blob.size : Int) ∣ blobSpan)
    (offset : Int) :
    p.restorePosition offset % (p.store.blob.size : Int) =
      (p.consumer.readBase + offset) % (p.store.blob.size : Int) := by
  have word : (p.store.blob.size : Int) ∣ 0x100000000 := Int.dvd_trans turn (by decide)
  rw [restorePosition, ← Int.emod_emod_of_dvd _ word]
  have folded := Int.bmod_emod (x := offset + p.consumer.readBase) (m := 0x100000000)
  rw [show (((0x100000000 : Nat) : Int)) = 0x100000000 from rfl] at folded
  rw [folded, Int.emod_emod_of_dvd _ word, Int.add_comm]

theorem emod_restorePosition (h : p.Faces c offset) :
    p.restorePosition offset % (p.store.blob.size : Int) =
      (p.consumer.readBase + offset) % (p.store.blob.size : Int) :=
  p.restorePosition_emod h.turn offset

/-- The bytes that the reader finds are those of the field. -/
theorem Faces.fieldBytes_eq (h : p.Faces c offset) (present : 0 ≤ c.length) :
    p.fieldBytes (c.descriptor offset) = c.heldBytes p.store.config.constants := by
  have size := Content.length_heldBytes h.sound h.short present
  cases c with
  | constant start count => rfl
  | _ =>
    have held := h.bytes.congr (emod_restorePosition h).symm
    have found := Ring.getList_eq_of_holds held
    simp only [Content.heldBytes] at size
    rw [size] at found
    exact found

theorem Faces.readBytes_fst (h : p.Faces c offset) (present : 0 ≤ c.length) :
    (p.readBytes (c.descriptor offset)).1.2 = c.heldBytes p.store.config.constants := by
  by_cases empty : (c.descriptor offset).length ≤ 0
  · have noBytes : (c.heldBytes p.store.config.constants).length = 0 := by
      rw [Content.length_heldBytes h.sound h.short present]
      exact Int.toNat_eq_zero.mpr empty
    rw [readBytes, if_pos empty, List.eq_nil_of_length_eq_zero noBytes]
  · rw [readBytes, if_neg empty]
    exact h.fieldBytes_eq present

/-! ### Text -/

theorem folds_ring {r : Ring UInt8} (turn : (r.size : Int) ∣ wordSpan) : Utf8.Folds r :=
  fun _ => r.get_congr (r.index_eq_iff.mpr (Int.emod_emod_of_dvd _ turn))

theorem folds_buffer (b : Buffer) : Utf8.Folds b := by
  intro p
  show b.getD (p % wordSpan % wordSpan).toNat 0 = b.getD (p % wordSpan).toNat 0
  rw [Int.emod_emod]

theorem holds_buffer {b : Buffer} (short : (b.size : Int) ≤ maxInt) : Utf8.Holds b 0 b.toList := by
  intro i hi
  have place : ((0 + (i : Int)) % wordSpan).toNat = i := by
    unfold maxInt at short
    simp only [Array.length_toList] at hi
    rw [Int.emod_eq_of_lt (by omega) (by unfold wordSpan; omega)]
    omega
  show b.getD ((0 + (i : Int)) % wordSpan).toNat 0 = _
  rw [place]
  simp only [Array.length_toList] at hi
  simp [Array.getD, hi]

/-- The decoder reads back the text whose UTF-8 form the field holds. -/
theorem Faces.decodeField_eq (h : p.Faces c offset) (present : 0 ≤ c.length) {text : String}
    (held : c.heldBytes p.store.config.constants = Utf8.encodeText text) :
    p.decodeField (c.descriptor offset) = (text.toList.map Char.toNat, []) := by
  have size := Content.length_heldBytes h.sound h.short present
  rw [held] at size
  have count : (c.descriptor offset).size = (Utf8.encodeText text).length := size.symm
  cases c with
  | constant start length =>
    have bound := length.toInt_lt
    have short : ((p.constantBytes start.toInt length.toInt).size : Int) ≤ maxInt := by
      simp only [constantBytes, Array.size_extract, maxInt]
      omega
    have found := holds_buffer short
    have same : (p.constantBytes start.toInt length.toInt).toList = Utf8.encodeText text := held
    rw [same] at found
    show Utf8.decodeRun (p.constantBytes start.toInt length.toInt) 0 _ = _
    rw [count]
    exact Utf8.decodeRun_of_holds (folds_buffer _) text.toList found
  | _ =>
    have folds : Utf8.Folds p.store.blob := folds_ring (Int.dvd_trans h.turn (by decide))
    have found : Utf8.Holds p.store.blob (p.restorePosition offset) (Utf8.encodeText text) := by
      rw [← held]
      exact h.bytes.congr (emod_restorePosition h).symm
    show Utf8.decodeRun p.store.blob (p.restorePosition offset % wordSpan) _ = _
    rw [count]
    exact Utf8.decodeRun_of_holds folds text.toList (folds.holds found)

theorem Faces.readUtf8_fst (h : p.Faces c offset) (present : 0 ≤ c.length) {text : String}
    (held : c.heldBytes p.store.config.constants = Utf8.encodeText text) :
    (p.readUtf8 (c.descriptor offset)).1.2 = text := by
  by_cases empty : (c.descriptor offset).length ≤ 0
  · have noBytes : (Utf8.encodeText text).length = 0 := by
      rw [← held, Content.length_heldBytes h.sound h.short present]
      exact Int.toNat_eq_zero.mpr empty
    rw [readUtf8, if_pos empty]
    exact (Utf8.eq_empty_of_encodeText (List.eq_nil_of_length_eq_zero noBytes)).symm
  · rw [readUtf8, if_neg empty]
    show Utf8.toText (p.decodeField (c.descriptor offset)).1 = text
    rw [h.decodeField_eq present held, Utf8.toText_map_toNat]

/-! ### Taking a field shows it -/

/-- The bytes of a field do not depend on the cells that the reader has passed. -/
theorem readBytes_passCells (p : Pipe) (count : Nat) (d : Descriptor) :
    ((p.passCells count).readBytes d).1 = (p.readBytes d).1 := by
  unfold readBytes
  split <;> rfl

theorem readUtf8_passCells (p : Pipe) (count : Nat) (d : Descriptor) :
    ((p.passCells count).readUtf8 d).1 = (p.readUtf8 d).1 := by
  unfold readUtf8
  split <;> rfl

theorem readLowBytes_fst (p : Pipe) (d : Descriptor) :
    (p.readLowBytes d).1.2 = String.ofList (LowByte.decode (p.readBytes d).1.2) := rfl

theorem readPresent_fst {α : Type} (read : Pipe → Descriptor → (Nat × α) × Pipe) (p : Pipe)
    (d : Descriptor) :
    (readPresent read p d).1 = if d.length < 0 then none else some (read p d).1.2 := by
  unfold readPresent
  split <;> rfl

theorem shows_content {kind : FieldKind} (fits : (Entry.content c).fits kind = true)
    (h : p.Faces c offset) : c.Shows p.store.config.constants kind (p.takeField kind).1 := by
  have taken := h.takeDescriptor_fst
  have told : (c.descriptor offset).length = c.length := rfl
  cases kind with
  | bytes =>
    show (readPresent Pipe.readBytes p.takeDescriptor.2 p.takeDescriptor.1).1 = _
    rw [readPresent_fst, taken, takeDescriptor_snd, readBytes_passCells, told, Content.held]
    split
    · rfl
    · next present => rw [h.readBytes_fst (by omega)]
  | ascii =>
    show (readPresent Pipe.readLowBytes p.takeDescriptor.2 p.takeDescriptor.1).1 = _
    rw [readPresent_fst, taken, takeDescriptor_snd, readLowBytes_fst, readBytes_passCells, told,
      Content.held]
    split
    · rfl
    · next present =>
      rw [h.readBytes_fst (by omega)]
      rfl
  | utf8 =>
    intro text held
    show (readPresent Pipe.readUtf8 p.takeDescriptor.2 p.takeDescriptor.1).1 = _
    rw [readPresent_fst, taken, takeDescriptor_snd, readUtf8_passCells, told]
    unfold Content.held at held
    split at held
    · next absent =>
      rw [if_pos absent]
      cases text with
      | none => rfl
      | some t => cases held
    · next present =>
      rw [if_neg present]
      cases text with
      | none => cases held
      | some t => rw [h.readUtf8_fst (by omega) (Option.some.inj held)]
  | _ => cases fits

/-- A field whose cells and bytes lie where the reader stands. -/
def Stands (p : Pipe) (offset : Nat) : Entry → Prop
  | .scalar v => p.store.slab.Holds p.consumer.slabTail (v.cells p.schema)
  | .content c => p.Faces c offset

/-- A field that lies where the reader stands is seen as it was written. -/
theorem shows_takeField {e : Entry} {kind : FieldKind} (fits : e.fits kind = true)
    (h : p.Stands offset e) :
    e.Shows p.schema p.store.config.constants kind (p.takeField kind).1 := by
  cases e with
  | scalar v => exact shows_scalar fits h
  | content c => exact shows_content fits h

end Pipe

end FragmentPipe
