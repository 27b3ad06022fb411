import FragmentPipe.Proofs.Rollback.Reset
import FragmentPipe.Proofs.Text.NumberDigits
import FragmentPipe.Proofs.Transfer.Reading

/-!
What is read of a number that was written as text. `Pipe.ReaderAt` says that a reader stands at a field
that is still there. Main statement: `NumberText.text_canonical`, an accepted number is written as its
shortest numeral with all of its places, and read as the text of that numeral.
-/

namespace FragmentPipe

namespace Pipe

/-! ## The reader at a field -/

/-- A reader stands at the field that was written between two states of a pipe, and the field is still
there: its two cells, which are different ones, and so many bytes of the blob. -/
structure ReaderAt (r p q : Pipe) (length : Nat) : Prop where
  apart : 2 ≤ p.store.slab.size
  cells : ∀ i < 2, r.store.slab.get (r.consumer.slabTail + (i : Nat)) =
    q.store.slab.get (p.producer.slabHead + (i : Nat))
  size : r.store.blob.size = p.store.blob.size
  base : r.consumer.readBase % (p.store.blob.size : Int) =
    p.producer.writeBase % (p.store.blob.size : Int)
  bytes : ∀ i < length, r.store.blob.get (p.producer.blobHead + (i : Nat)) =
    q.store.blob.get (p.producer.blobHead + (i : Nat))

/-- A field of bytes that is committed is faced by a reader that stands at it. -/
theorem ReaderAt.faces {r p q : Pipe} {data : List UInt8} (stands : r.ReaderAt p q data.length)
    (turn : (p.store.blob.size : Int) ∣ blobSpan) (short : (data.length : Int) ≤ maxInt)
    (cells : q.store.slab.Holds p.producer.slabHead
      (Descriptor.cells ⟨p.originOf p.producer.blobHead, data.length⟩))
    (held : q.store.blob.Holds p.producer.blobHead data) :
    r.Faces (.bytes data) ((p.producer.blobHead - p.producer.writeBase) % blobSpan).toNat := by
  have low : 0 ≤ (p.producer.blobHead - p.producer.writeBase) % blobSpan :=
    Int.emod_nonneg _ (by decide)
  have high : (p.producer.blobHead - p.producer.writeBase) % blobSpan < blobSpan :=
    Int.emod_lt_of_pos _ (by decide)
  have place : p.producer.blobHead % (r.store.blob.size : Int) =
      (r.consumer.readBase + (p.producer.blobHead - p.producer.writeBase) % blobSpan) %
        (r.store.blob.size : Int) := by
    rw [stands.size, Int.add_emod, Int.emod_emod_of_dvd _ turn, stands.base, ← Int.add_emod]
    congr 1
    omega
  refine ⟨?_, ?_, ?_, ?_, short, ?_⟩
  · rw [Int.toNat_of_nonneg low]
    show r.store.slab.Holds _ (Descriptor.cells ⟨_, min (data.length : Int) maxInt⟩)
    rw [Int.min_eq_left short]
    intro i inside
    rw [stands.cells i inside]
    exact cells i inside
  · have read : r.store.blob.Holds p.producer.blobHead data := fun i inside =>
      (stands.bytes i inside).trans (held i inside)
    rw [Int.toNat_of_nonneg low]
    exact read.congr place
  · rwa [stands.size]
  · rwa [Int.toNat_of_nonneg low]
  · exact ⟨fun _ told => (Option.some.inj told).symm, nofun, nofun⟩

/-- Bytes that the reader faces are read as one character each. -/
theorem Faces.readLowBytes_eq {r : Pipe} {data : List UInt8} {offset : Nat}
    (h : r.Faces (.bytes data) offset) :
    (r.takeDescriptor.2.readLowBytes r.takeDescriptor.1).1 =
      (data.length, String.ofList (LowByte.decode data)) := by
  have bytes := h.readBytes_fst (Int.le_min.mpr ⟨Int.natCast_nonneg _, by decide⟩)
  have length : (Content.bytes data).length = data.length := Int.min_eq_left h.short
  have count : (r.readBytes ((Content.bytes data).descriptor offset)).1.1 = data.length := by
    unfold readBytes Content.descriptor
    rw [length]
    split
    · next noBytes =>
      dsimp only at noBytes ⊢
      omega
    · rfl
  rw [h.takeDescriptor_fst, takeDescriptor_snd]
  refine Prod.ext ?_ ?_
  · show ((r.passCells 2).readBytes _).1.1 = data.length
    rw [readBytes_passCells, count]
  · show ((r.passCells 2).readLowBytes _).1.2 = _
    rw [readLowBytes_fst, readBytes_passCells, bytes]
    rfl

end Pipe

/-! ## Numbers -/

namespace NumberText

/-- The digits behind the point. -/
def places : NumberText → Nat
  | int _ | long _ => 0
  | decimal places _ => places

/-- The number without its point. -/
def mantissa : NumberText → Int
  | int value => value.toInt
  | long value => value.toInt
  | decimal _ mantissa => mantissa.toInt

/-- The numeral of the number. -/
def numeral (n : NumberText) : Numeral := .ofMantissa n.places n.mantissa

variable {p q : Pipe} {n : NumberText}

theorem encode_text (n : NumberText) :
    LowByte.encode n.numeral.text = Pipe.decimalBytes n.places n.mantissa :=
  (Pipe.decimalBytes_eq n.places n.mantissa).symm

theorem length_text (n : NumberText) : n.numeral.text.length = n.made.length := by
  rw [← LowByte.length_encode, encode_text]
  cases n with
  | int value => exact Pipe.length_decimalBytes_zero value.toInt
  | long value => exact Pipe.length_decimalBytes_zero value.toInt
  | decimal places mantissa => exact Pipe.length_decimalBytes places mantissa.toInt

/-- The text of an accepted number lies where it is filled in. -/
theorem holds_fill (allowed : n.Allowed p) {r : Ring UInt8} (wide : 64 ≤ r.size) (position : Int) :
    (n.fill r position).Holds position (LowByte.encode n.numeral.text) := by
  rw [encode_text]
  cases n with
  | int value =>
    have digits := Decimal.length_int_le value
    exact Pipe.holds_put_zero value.toInt 12 (by omega) (by omega) position
  | long value =>
    have digits := Decimal.length_long_le value
    exact Pipe.holds_put_zero value.toInt 21 (by omega) (by omega) position
  | decimal places mantissa =>
    exact Pipe.holds_fillDecimalText (allowed.1 places mantissa rfl) mantissa wide position

theorem length_made_le (allowed : n.Allowed p) : n.made.length ≤ 40 := by
  cases n with
  | int value =>
    have text := Decimal.textLength_le (Decimal.length_int_le value)
    show Decimal.textLength value.toInt 0 ≤ 40
    omega
  | long value =>
    have text := Decimal.textLength_le (Decimal.length_long_le value)
    show Decimal.textLength value.toInt 0 ≤ 40
    omega
  | decimal places mantissa =>
    have few : places ≤ 18 := allowed.1 places mantissa rfl
    have bare := Pipe.bareWidth_le places mantissa.toInt
    have whole := Decimal.textLength_le (Pipe.length_whole_le places mantissa)
    show Pipe.decimalTextLength places mantissa.toInt ≤ 40
    rw [Pipe.decimalTextLength_eq]
    show Pipe.bareWidth places mantissa.toInt + _ + _ ≤ 40
    split
    · omega
    · omega

/-- The bytes of a text are read as the text. -/
theorem decode_text (n : NumberText) : LowByte.decode (LowByte.encode n.numeral.text) =
    n.numeral.text :=
  LowByte.decode_encode _ n.numeral.lt_of_mem_text

/-- A fixed point text is as long as the length that is checked. -/
theorem checked_eq {places : Nat} {mantissa : Int64} (fixed : n = decimal places mantissa) :
    n.checked = n.numeral.text.length := by
  rw [length_text, fixed]
  rfl

/-- An accepted number is written as its numeral, which is the shortest one with its places, and a
reader that stands at the field reads just that. The length that is checked for a fixed point number is
that of the text. -/
theorem text_canonical (wide : 64 ≤ p.store.blob.size) (small : p.store.blob.bits ≤ maxBits)
    (accepted : n.made.put p = (.ok (), q)) :
    n.numeral.Writes n.mantissa n.places ∧
    q.store.blob.Holds p.producer.blobHead (LowByte.encode n.numeral.text) ∧
    (∀ r : Pipe, r.ReaderAt p q n.numeral.text.length →
      (r.takeDescriptor.2.readLowBytes r.takeDescriptor.1).1 =
        (n.numeral.text.length, String.ofList n.numeral.text)) ∧
    q.producer.average = p.nextAverage n.checked ∧
    (∀ places mantissa, n = decimal places mantissa → n.checked = n.numeral.text.length) := by
  have allowed := allowed_of_put accepted
  rw [put_made allowed] at accepted
  obtain rfl : n.after p = q := (Prod.mk.inj accepted).2
  have held := holds_fill allowed wide p.producer.blobHead
  have length := length_text n
  have bytes : (LowByte.encode n.numeral.text).length = n.numeral.text.length :=
    LowByte.length_encode _
  refine ⟨Numeral.writes_ofMantissa _ _, held, ?_, rfl, fun _ _ fixed => checked_eq fixed⟩
  intro r stands
  rw [← bytes] at stands
  have short : ((LowByte.encode n.numeral.text).length : Int) ≤ Pipe.maxInt := by
    have least := length_made_le allowed
    unfold Pipe.maxInt
    omega
  have cells : (n.after p).store.slab.Holds p.producer.slabHead
      (Descriptor.cells ⟨p.originOf p.producer.blobHead, (LowByte.encode n.numeral.text).length⟩) := by
    rw [after, Pipe.commitField_eq, bytes, length]
    exact Ring.holds_setList _ _ _ stands.apart
  have faces := stands.faces (Ring.size_dvd_blobSpan small) short cells held
  rw [faces.readLowBytes_eq, bytes, decode_text]

/-- A number between zero and minus one, written around the end of the blob and read. -/
theorem text_canonical_sample :
    ∃ s t u, play anyCall (Session.start notePipe)
        (noteSample 62 ++ [.receive, .take .bytes, .pass, .release]) = some s ∧
      s.step (.put (.made (decimal 2 (-5)).made)) = some t ∧
      play anyCall t [.confirm, .publish, .receive] = some u ∧
      (u.pipe.takeDescriptor.2.readLowBytes u.pipe.takeDescriptor.1).1 = (5, "-0.05") := by
  have evaluated : (play anyCall (Session.start notePipe)
      (noteSample 62 ++ [.receive, .take .bytes, .pass, .release])).any fun s =>
        (s.step (.put (.made (decimal 2 (-5)).made))).any fun t =>
          (play anyCall t [.confirm, .publish, .receive]).any fun u =>
            (s.pipe.store.blob.size = 64 ∧ s.pipe.store.blob.bits = 6 ∧
              s.pipe.store.slab.size = 8 ∧ u.pipe.store.blob.size = 64) ∧
            ((decimal 2 (-5)).made.put s.pipe).1.isOk = true ∧
            (∀ i < 2, u.pipe.store.slab.get (u.pipe.consumer.slabTail + (i : Nat)) =
              ((decimal 2 (-5)).made.put s.pipe).2.store.slab.get
                (s.pipe.producer.slabHead + (i : Nat))) ∧
            u.pipe.consumer.readBase % 64 = s.pipe.producer.writeBase % 64 ∧
            (∀ i < 5, u.pipe.store.blob.get (s.pipe.producer.blobHead + (i : Nat)) =
              ((decimal 2 (-5)).made.put s.pipe).2.store.blob.get
                (s.pipe.producer.blobHead + (i : Nat))) := by decide +kernel
  obtain ⟨s, played, checked⟩ := (Option.any_eq_true ..).mp evaluated
  obtain ⟨t, written, checked⟩ := (Option.any_eq_true ..).mp checked
  obtain ⟨u, later, checked⟩ := (Option.any_eq_true ..).mp checked
  obtain ⟨⟨blob, bits, slab, same⟩, fine, cells, base, bytes⟩ := of_decide_eq_true checked
  obtain ⟨-, -, read, -⟩ := text_canonical (n := decimal 2 (-5)) (by omega)
    (by rw [bits]; decide) (Prod.ext (eq_ok_of_isOk fine) rfl)
  refine ⟨s, t, u, played, written, later, (read u.pipe ?_).trans (by decide)⟩
  exact ⟨by omega, cells, same.trans blob.symm, by rw [blob]; exact base, bytes⟩

end NumberText

end FragmentPipe
