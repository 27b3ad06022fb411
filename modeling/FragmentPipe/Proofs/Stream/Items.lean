import Mathlib.Data.List.Forall2
import FragmentPipe.Stream.FieldView
import FragmentPipe.Proofs.Transfer.Reading

/-!
The values of streamed fields. An `Item` is a value with the way in which it is written, and its
`Shape` is all that the reading side has to know to ask for it. Main statements: `Item.write_ok`,
what is written of an item are its bytes and nothing else, `Item.read_of_holds`, an item is read back
from its bytes, and `readAll_of_holds`, a view of the bytes of values of any kind shows the values and
is then at its end, wherever in the blob the bytes lie.
-/

namespace FragmentPipe

/-- A value of a streamed field. -/
inductive Item where
  | bool (value : Bool)
  | byte (value : Int8)
  | short (value : Int16)
  | unit (value : UInt16)
  | int (value : Int32)
  | long (value : Int64)
  /-- The bits of a binary32 number. -/
  | float (bits : UInt32)
  /-- The bits of a binary64 number. -/
  | double (bits : UInt64)
  | bytes (data : List UInt8)
  /-- A text after its length. -/
  | text (value : String)
  deriving DecidableEq

/-- What an item is asked for as: bytes by their number. -/
inductive Shape where
  | bool | byte | short | unit | int | long | float | double
  | bytes (count : Nat)
  | text
  deriving DecidableEq

namespace Item

/-- What the item has to be asked for as. -/
def shape : Item → Shape
  | bool _ => .bool
  | byte _ => .byte
  | short _ => .short
  | unit _ => .unit
  | int _ => .int
  | long _ => .long
  | float _ => .float
  | double _ => .double
  | bytes data => .bytes data.length
  | text _ => .text

/-- The bytes of the item. -/
def encoded : Item → List UInt8
  | bool value => LittleEndian.encode 1 (if value then 1 else 0)
  | byte value => LittleEndian.encode 1 value.toInt
  | short value => LittleEndian.encode 2 value.toInt
  | unit value => LittleEndian.encode 2 value.toNat
  | int value => LittleEndian.encode 4 value.toInt
  | long value => LittleEndian.encode 8 value.toInt
  | float bits => LittleEndian.encode 4 bits.toNat
  | double bits => LittleEndian.encode 8 bits.toNat
  | bytes data => data
  | text value =>
    LittleEndian.encode 2 (Utf8.encodeText value).length ++ Utf8.encodeText value

/-- Writes the item. -/
def write (w : FieldWriter) : Item → Except StreamError Unit × FieldWriter
  | bool value => w.writeBool value
  | byte value => w.writeByte value
  | short value => w.writeShort value
  | unit value => w.writeUnit value
  | int value => w.writeInt value
  | long value => w.writeLong value
  | float bits => w.writeFloatBits bits
  | double bits => w.writeDoubleBits bits
  | bytes data => w.put data
  | text value => w.writeText value

/-- An item that is there to be asked for: the reading side is not told of bytes that are none, nor
of more text than a length in two bytes. -/
def Told : Item → Prop
  | bytes data => data ≠ []
  | text value => (Utf8.encodeText value).length ≤ 65535
  | _ => True

end Item

/-- Reads an item; bytes as many as asked for, if the field has as many. -/
def Shape.read (v : FieldView) (s : Store) : Shape → Except StreamError Item × FieldView
  | bool => ((v.readBool s).1.map .bool, (v.readBool s).2)
  | byte => ((v.readByte s).1.map .byte, (v.readByte s).2)
  | short => ((v.readShort s).1.map .short, (v.readShort s).2)
  | unit => ((v.readUnit s).1.map .unit, (v.readUnit s).2)
  | int => ((v.readInt s).1.map .int, (v.readInt s).2)
  | long => ((v.readLong s).1.map .long, (v.readLong s).2)
  | float => ((v.readFloatBits s).1.map .float, (v.readFloatBits s).2)
  | double => ((v.readDoubleBits s).1.map .double, (v.readDoubleBits s).2)
  | bytes count =>
    match v.read? s count with
    | (some data, v) => (.ok (.bytes data), v)
    | (none, v) => (.error .unexpectedEnd, v)
  | text => ((v.readText s).1.map fun decoded => .text (Utf8.toText decoded.1), (v.readText s).2)

/-! ## Writing -/

namespace FieldWriter

/-- The field with bytes stored behind those written before. -/
def stored (w : FieldWriter) (bytes : List UInt8) : FieldWriter :=
  { w with
    pipe.store.blob := w.pipe.store.blob.setList (w.start + w.written) bytes
    written := w.written + bytes.length }

variable {w v : FieldWriter}

theorem stored_append (w : FieldWriter) (front bytes : List UInt8) :
    (w.stored front).stored bytes = w.stored (front ++ bytes) := by
  have place : w.start + ((w.written + front.length : Nat) : Int) =
      w.start + w.written + front.length := by omega
  simp only [stored, Ring.setList_append, List.length_append, Nat.add_assoc, place]

theorem put_ok {bytes : List UInt8} (written : w.put bytes = (.ok (), v)) :
    bytes.length ≤ w.remaining ∧ v = w.stored bytes := by
  unfold put at written
  split at written
  · cases written
  · next fits =>
    cases written
    rw [stored, Ring.putList_eq_setList]
    exact ⟨by omega, rfl⟩

theorem writeText_ok {value : String} (written : w.writeText value = (.ok (), v)) :
    (Utf8.encodeText value).length ≤ 65535 ∧
      (Item.text value).encoded.length ≤ w.remaining ∧
        v = w.stored (Item.text value).encoded := by
  unfold writeText at written
  dsimp only at written
  split at written
  · cases written
  · next short =>
    split at written
    · cases written
    · next fits =>
      split at written
      · cases written
      · next x prefixed =>
        obtain ⟨-, rfl⟩ := put_ok prefixed
        obtain ⟨-, rfl⟩ := put_ok written
        refine ⟨by omega, ?_, stored_append w _ _⟩
        rw [Item.encoded, List.length_append, LittleEndian.length_encode]
        omega

end FieldWriter

/-- A way to write values that, if it does, leaves the bytes of the value behind those written before;
there is room for them. -/
def FieldWriter.Stores {α : Type} (write : FieldWriter → α → Except StreamError Unit × FieldWriter)
    (encoded : α → List UInt8) : Prop :=
  ∀ ⦃a : α⦄ ⦃w v : FieldWriter⦄, write w a = (.ok (), v) →
    (encoded a).length ≤ w.remaining ∧ v = w.stored (encoded a)

/-- What is written of an item are its bytes, for which there is room. -/
theorem Item.write_ok {item : Item} {w v : FieldWriter} (written : item.write w = (.ok (), v)) :
    item.encoded.length ≤ w.remaining ∧ v = w.stored item.encoded := by
  cases item with
  | text value => exact (FieldWriter.writeText_ok written).2
  | _ => exact FieldWriter.put_ok written

theorem Item.stores_write : FieldWriter.Stores write encoded := fun _ _ _ => write_ok

/-- Only bytes that are none can be written and not be asked for. -/
theorem Item.told_of_write {item : Item} {w v : FieldWriter} (written : item.write w = (.ok (), v))
    (nonempty : item ≠ .bytes []) : item.Told := by
  cases item with
  | bytes data => exact fun empty => nonempty (congrArg Item.bytes empty)
  | text value => exact (FieldWriter.writeText_ok written).1
  | _ => trivial

/-! ## Views of bytes -/

namespace FieldView

/-- The view is one of these bytes, which lie in the blob. -/
structure Holds (v : FieldView) (s : Store) (bytes : List UInt8) : Prop where
  backing : v.backing = .blob
  remaining : v.remaining = bytes.length
  blob : s.blob.Holds v.position bytes

variable {v : FieldView} {s : Store} {front rest : List UInt8}

theorem Holds.bytes_eq (h : v.Holds s (front ++ rest)) : v.bytes s front.length = front := by
  rw [FieldView.bytes, h.backing]
  exact Ring.getList_eq_of_holds (Ring.holds_append.mp h.blob).1

theorem Holds.remaining_eq (h : v.Holds s (front ++ rest)) :
    v.remaining = front.length + rest.length := by
  rw [h.remaining, List.length_append]

/-- Behind what is read lies the rest. A ring does not notice that positions are 32 bit words. -/
theorem Holds.advance (h : v.Holds s (front ++ rest))
    (turn : (s.blob.size : Int) ∣ wordSpan) : (v.advance front.length).Holds s rest := by
  have remaining := h.remaining_eq
  refine ⟨h.backing, ?_, ?_⟩
  · show v.remaining - front.length = rest.length
    omega
  · exact (Ring.holds_append.mp h.blob).2.congr (Int.emod_emod_of_dvd _ turn).symm

theorem length_bytes (v : FieldView) (s : Store) (count : Nat) :
    (v.bytes s count).length = count := by
  unfold FieldView.bytes
  split
  · exact ByteStore.length_getList _ _ _
  · exact ByteStore.length_getList _ _ _

theorem advance_advance (v : FieldView) (m n : Nat) :
    (v.advance m).advance n = v.advance (m + n) := by
  simp only [FieldView.advance, Int.emod_add_emod, Nat.sub_sub, Int.natCast_add, Int.add_assoc]

/-- A signed number is told by its remainder. -/
theorem bmod_toNat_emod {z : Int} {span : Nat} (positive : 0 < span) (fits : z.bmod span = z) :
    ((z % span).toNat : Int).bmod span = z := by
  rw [Int.toNat_of_nonneg (Int.emod_nonneg _ (by omega))]
  exact (Int.emod_bmod ..).trans fits

/-- An unsigned number is its own remainder. -/
theorem toNat_emod {n span : Nat} (fits : n < span) : ((n : Int) % span).toNat = n := by
  rw [Int.emod_eq_of_lt (Int.natCast_nonneg _) (by omega), Int.toNat_natCast]

/-- A number is read up to a multiple of what its bytes can count to. -/
theorem Holds.takeNumber_eq {width : Nat} {n : Int}
    (h : v.Holds s (LittleEndian.encode width n ++ rest)) :
    v.takeNumber s width = (.ok (n % (1 <<< (8 * width) : Nat)).toNat, v.advance width) := by
  have remaining := h.remaining_eq
  have bytes := h.bytes_eq
  rw [LittleEndian.length_encode] at remaining bytes
  rw [takeNumber, if_neg (by omega), bytes, ← LittleEndian.decode_encode, Int.toNat_natCast]

theorem Holds.takeAs_eq {α : Type} {width : Nat} {n : Int}
    (h : v.Holds s (LittleEndian.encode width n ++ rest)) (meaning : Nat → α) (a : α)
    (means : meaning (n % (1 <<< (8 * width) : Nat)).toNat = a) :
    v.takeAs s width meaning = (.ok a, v.advance width) := by
  rw [takeAs, h.takeNumber_eq, ← means]
  rfl

/-- All the bytes that are asked for are read, if there are any. -/
theorem Holds.read?_eq (h : v.Holds s (front ++ rest)) (nonempty : front ≠ []) :
    v.read? s front.length = (some front, v.advance front.length) := by
  have remaining := h.remaining_eq
  have positive := List.length_pos_iff.mpr nonempty
  have count : min front.length v.remaining = front.length := by omega
  rw [read?, if_neg (by omega), FieldView.read, count, h.bytes_eq]

/-- A text is decoded from the bytes that its length tells. -/
theorem Holds.readText_eq {value : String} (h : v.Holds s ((Item.text value).encoded ++ rest))
    (turn : (s.blob.size : Int) ∣ wordSpan) (short : (Utf8.encodeText value).length ≤ 65535) :
    v.readText s = (.ok (value.toList.map Char.toNat, []),
      v.advance (Item.text value).encoded.length) := by
  rw [Item.encoded, List.append_assoc] at h
  have told := h.takeNumber_eq
  have body := h.advance turn
  rw [toNat_emod (show (Utf8.encodeText value).length < 1 <<< (8 * 2) from
    Nat.lt_succ_of_le short)] at told
  rw [LittleEndian.length_encode] at body
  have remaining := body.remaining_eq
  have count : min (Utf8.encodeText value).length (v.advance 2).remaining =
      (Utf8.encodeText value).length := by omega
  have decoded : Utf8.decodeRun s.blob (v.advance 2).position (Utf8.encodeText value).length =
      (value.toList.map Char.toNat, []) :=
    Utf8.decodeRun_of_holds (Pipe.folds_ring turn) value.toList (Ring.holds_append.mp body.blob).1
  simp only [readText, told]
  rw [if_neg (by omega)]
  simp only [decodeText, count, body.backing, decoded, advance_advance, Item.encoded,
    List.length_append, LittleEndian.length_encode]

end FieldView

/-! ## Reading back -/

namespace Item

/-- What an item is asked for as reads the item back. -/
theorem read_of_holds {item : Item} {v : FieldView} {s : Store} {rest : List UInt8}
    (h : v.Holds s (item.encoded ++ rest)) (turn : (s.blob.size : Int) ∣ wordSpan)
    (told : item.Told) : item.shape.read v s = (.ok item, v.advance item.encoded.length) := by
  cases item with
  | bool value =>
    have read := h.takeAs_eq (· != 0) value (by cases value <;> rfl)
    simp only [shape, Shape.read, FieldView.readBool, read]
    rfl
  | byte value =>
    have read := h.takeAs_eq Int8.ofNat value (by
      rw [← Int8.toInt_inj, Int8.toInt_ofNat']
      exact FieldView.bmod_toNat_emod (by decide) value.toInt_bmod)
    simp only [shape, Shape.read, FieldView.readByte, read]
    rfl
  | short value =>
    have read := h.takeAs_eq Int16.ofNat value (by
      rw [← Int16.toInt_inj, Int16.toInt_ofNat']
      exact FieldView.bmod_toNat_emod (by decide) value.toInt_bmod)
    simp only [shape, Shape.read, FieldView.readShort, read]
    rfl
  | unit value =>
    have read := h.takeAs_eq UInt16.ofNat value (by
      rw [FieldView.toNat_emod (show value.toNat < 1 <<< (8 * 2) from value.toNat_lt),
        UInt16.ofNat_toNat])
    simp only [shape, Shape.read, FieldView.readUnit, read]
    rfl
  | int value =>
    have read := h.takeAs_eq Int32.ofNat value (by
      rw [← Int32.toInt_inj, Int32.toInt_ofNat']
      exact FieldView.bmod_toNat_emod (by decide) value.toInt_bmod)
    simp only [shape, Shape.read, FieldView.readInt, read]
    rfl
  | long value =>
    have read := h.takeAs_eq Int64.ofNat value (by
      rw [← Int64.toInt_inj, Int64.toInt_ofNat']
      exact FieldView.bmod_toNat_emod (by decide) value.toInt_bmod)
    simp only [shape, Shape.read, FieldView.readLong, read]
    rfl
  | float bits =>
    have read := h.takeAs_eq UInt32.ofNat bits (by
      rw [FieldView.toNat_emod (show bits.toNat < 1 <<< (8 * 4) from bits.toNat_lt),
        UInt32.ofNat_toNat])
    simp only [shape, Shape.read, FieldView.readFloatBits, read]
    rfl
  | double bits =>
    have read := h.takeAs_eq UInt64.ofNat bits (by
      rw [FieldView.toNat_emod (show bits.toNat < 1 <<< (8 * 8) from bits.toNat_lt),
        UInt64.ofNat_toNat])
    simp only [shape, Shape.read, FieldView.readDoubleBits, read]
    rfl
  | bytes data =>
    have read := FieldView.Holds.read?_eq h told
    simp only [encoded] at read
    simp only [shape, Shape.read, encoded, read]
  | text value =>
    simp only [shape, Shape.read, h.readText_eq turn told, Except.map, Utf8.toText_map_toNat]

end Item

/-- Reads an item where the pipe stands at the time of the call. -/
def Shape.readAt (v : FieldView) (call : Shape × Store) : Except StreamError Item × FieldView :=
  call.1.read v call.2

namespace FieldView

section Reading

variable {α β σ : Type}

/-- Makes reads one after the other; the answers in their order. -/
def readAll (read : FieldView → σ → β × FieldView) (v : FieldView) : List σ → List β × FieldView
  | [] => ([], v)
  | call :: rest =>
    let (answer, v) := read v call
    let (answers, v) := v.readAll read rest
    (answer :: answers, v)

/-- A call that answers with what is shown of a value, if it is made where the bytes of the value
lie, and passes the bytes. -/
def ReadsAs (read : FieldView → σ → β × FieldView) (store : σ → Store) (encoded : α → List UInt8)
    (shown : α → β) (a : α) (call : σ) : Prop :=
  ∀ ⦃v : FieldView⦄ ⦃rest : List UInt8⦄, v.Holds (store call) (encoded a ++ rest) →
    ((store call).blob.size : Int) ∣ wordSpan →
      read v call = (shown a, v.advance (encoded a).length)

variable {read : FieldView → σ → β × FieldView} {store : σ → Store} {encoded : α → List UInt8}
  {shown : α → β}

/-- A view that has the bytes of values whenever it is read shows the values and is then at its
end. -/
theorem readAll_of_holds {v : FieldView} {values : List α} {calls : List σ}
    (each : List.Forall₂ (ReadsAs read store encoded shown) values calls)
    (all : v.remaining = (values.flatMap encoded).length)
    (holds : ∀ call ∈ calls, v.Holds (store call) (values.flatMap encoded) ∧
      ((store call).blob.size : Int) ∣ wordSpan) :
    (v.readAll read calls).1 = values.map shown ∧ (v.readAll read calls).2.remaining = 0 := by
  induction each generalizing v with
  | nil => exact ⟨rfl, all⟩
  | @cons a call values calls first later ih =>
    simp only [List.flatMap_cons, List.length_append] at all holds
    obtain ⟨here, turn⟩ := holds call (List.mem_cons_self ..)
    have answer := first here turn
    have left : (v.advance (encoded a).length).remaining = (values.flatMap encoded).length := by
      show v.remaining - (encoded a).length = _
      omega
    -- The cursor moves alike in every store, so the rest is there in all that are still to come.
    obtain ⟨same, ended⟩ := ih left fun x inside =>
      have behind := holds x (List.mem_cons_of_mem _ inside)
      ⟨behind.1.advance behind.2, behind.2⟩
    simp only [readAll, answer, same, ended, List.map_cons, and_self]

end Reading

end FieldView

/-- Items are shown to those who ask for them as what they were written as. -/
theorem Item.readsAs_readAt {items : List Item} {stores : List Store} (told : ∀ item ∈ items, item.Told)
    (calls : stores.length = items.length) :
    List.Forall₂ (FieldView.ReadsAs Shape.readAt Prod.snd encoded .ok) items
      ((items.map shape).zip stores) := by
  induction items generalizing stores with
  | nil => exact .nil
  | cons item items ih =>
    cases stores with
    | nil => cases calls
    | cons s stores =>
      rw [List.forall_mem_cons] at told
      refine .cons ?_ (ih told.2 (Nat.succ_inj.mp calls))
      intro v rest held turn
      exact read_of_holds held turn told.1

end FragmentPipe
