import FragmentPipe.Text.Utf8

/-!
Decoding what was encoded. Main statements: `decodeStep_of_holds`, one step of the decoder reads
back one encoded value whatever lies behind its bytes, and `decodeRun_of_holds`, a whole text comes
back. A place may fold its positions; that it folds them as 32 bit words is all that is asked of it.
-/

namespace FragmentPipe.Utf8

section Store

variable {σ : Type} [ByteStore σ]

/-- The bytes at `p` and after it are those of a list. -/
def Holds (s : σ) (p : Int) (l : List UInt8) : Prop :=
  ∀ (i : Nat) (h : i < l.length), ByteStore.get s (p + i) = l[i]

/-- Positions that are the same 32 bit word name the same byte. -/
def Folds (s : σ) : Prop := ∀ p, ByteStore.get s (p % wordSpan) = ByteStore.get s p

variable {s : σ}

theorem Holds.head {p : Int} {b : UInt8} {l : List UInt8} (h : Holds s p (b :: l)) :
    ByteStore.get s p = b := by
  have first : ByteStore.get s (p + (0 : Nat)) = b := h 0 (by simp)
  rwa [Int.natCast_zero, Int.add_zero] at first

theorem Holds.tail {p : Int} {b : UInt8} {l : List UInt8} (h : Holds s p (b :: l)) :
    Holds s (p + 1) l := by
  intro i hi
  have place : p + 1 + (i : Int) = p + ((i + 1 : Nat) : Int) := by omega
  rw [place, h (i + 1) (by simpa using hi)]
  rfl

theorem Holds.left {p : Int} {l m : List UInt8} (h : Holds s p (l ++ m)) : Holds s p l := by
  intro i hi
  rw [h i (by simp; omega), List.getElem_append_left hi]

theorem Holds.right {p : Int} {l m : List UInt8} (h : Holds s p (l ++ m)) :
    Holds s (p + l.length) m := by
  intro i hi
  have place : p + l.length + (i : Int) = p + ((l.length + i : Nat) : Int) := by omega
  rw [place, h (l.length + i) (by simp; omega)]
  simp

theorem Folds.holds (folds : Folds s) {p : Int} {l : List UInt8} (h : Holds s p l) :
    Holds s (p % wordSpan) l := by
  intro i hi
  rw [← h i hi, ← folds, ← folds (p + i), Int.emod_add_emod]

/-! ## One value -/

theorem toNat_continuation (value place : Nat) :
    (continuation value place).toNat = 0x80 + value >>> (6 * place) % 64 := by
  apply UInt8.toNat_ofNat_of_lt
  show _ < 256
  omega

theorem isContinuation_continuation (value place : Nat) :
    isContinuation (continuation value place) = true := by
  simp only [isContinuation, toNat_continuation, beq_iff_eq]
  omega

/-- Six more bits of a value. -/
theorem shiftRight_split (value count : Nat) :
    value >>> (6 * (count + 1)) * 64 + value >>> (6 * count) % 64 = value >>> (6 * count) := by
  have six : value >>> (6 * (count + 1)) = value >>> (6 * count) / 64 := by
    rw [Nat.mul_succ, Nat.shiftRight_add, Nat.shiftRight_eq_div_pow (value >>> (6 * count)) 6]
  omega

theorem readContinuations_of_holds (folds : Folds s) {start : Int} {value : Nat} (count : Nat)
    {offset : Nat} (h : Holds s (start + (offset + 1 : Nat)) (continuations value count)) :
    readContinuations s start offset (value >>> (6 * count)) count =
      ⟨offset + count + 1, value, [], Nat.succ_pos _⟩ := by
  induction count generalizing offset with
  | zero => rfl
  | succ count ih =>
    have byte : ByteStore.get s ((start + (offset + 1 : Nat)) % wordSpan) =
        continuation value count := by
      rw [folds]
      exact h.head
    have low : (continuation value count).toNat % 64 = value >>> (6 * count) % 64 := by
      rw [toNat_continuation]
      omega
    have rest : Holds s (start + (offset + 1 + 1 : Nat)) (continuations value count) := by
      have next := h.tail
      have place : start + ((offset + 1 : Nat) : Int) + 1 = start + (offset + 1 + 1 : Nat) := by
        omega
      rwa [place] at next
    rw [readContinuations]
    simp only [byte, isContinuation_continuation, if_true, low, shiftRight_split]
    rw [ih rest]
    congr 1
    omega

/-- The marks of lead bytes: how many continuation bytes each announces and below what number its
own share of the value lies. -/
inductive Mark : Nat → Nat → Nat → Prop where
  | two : Mark 0xC0 1 32
  | three : Mark 0xE0 2 16
  | four : Mark 0xF0 3 8
  | five : Mark 0xF8 4 4
  | six : Mark 0xFC 5 2

theorem Mark.ofByte {mark count bound top : Nat} (h : Mark mark count bound) (small : top < bound) :
    Lead.ofByte (UInt8.ofNat (mark + top)) = .opens top count := by
  have fits : mark + top < 256 := by cases h <;> omega
  have byte : (UInt8.ofNat (mark + top)).toNat = mark + top := UInt8.toNat_ofNat_of_lt fits
  simp only [Lead.ofByte, byte]
  -- each row of the table falls through to its own branch
  cases h with
  | two =>
    rw [if_neg (by omega), if_pos (by omega), if_neg (by omega)]
    congr 1
    omega
  | three =>
    rw [if_neg (by omega), if_neg (by omega), if_pos (by omega)]
    congr 1
    omega
  | four =>
    rw [if_neg (by omega), if_neg (by omega), if_neg (by omega), if_pos (by omega)]
    congr 1
    omega
  | five =>
    rw [if_neg (by omega), if_neg (by omega), if_neg (by omega), if_neg (by omega),
      if_pos (by omega)]
    congr 1
    omega
  | six =>
    rw [if_neg (by omega), if_neg (by omega), if_neg (by omega), if_neg (by omega),
      if_neg (by omega), if_pos (by omega)]
    congr 1
    omega

theorem decodeStep_of_mark (folds : Folds s) {p : Int} {mark count bound value : Nat}
    (h : Mark mark count bound) (small : value >>> (6 * count) < bound)
    (held : Holds s p (form mark count value)) :
    decodeStep s p = ⟨count + 1, value, [], Nat.succ_pos _⟩ := by
  unfold form at held
  rw [decodeStep, held.head, h.ofByte small]
  have rest : Holds s (p + (0 + 1 : Nat)) (continuations value count) := held.tail
  show readContinuations s p 0 (value >>> (6 * count)) count = _
  rw [readContinuations_of_holds folds count rest]
  congr 1
  omega

theorem decodeStep_of_single {p : Int} {value : Nat} (small : value ≤ 0x7F)
    (held : Holds s p (form 0x00 0 value)) :
    decodeStep s p = ⟨1, value, [], Nat.one_pos⟩ := by
  have plain : form 0x00 0 value = [UInt8.ofNat value] := by simp [form, continuations]
  have fits : value < 256 := by omega
  have byte : (UInt8.ofNat value).toNat = value := UInt8.toNat_ofNat_of_lt fits
  have lead : Lead.ofByte (UInt8.ofNat value) = .single value := by
    rw [Lead.ofByte, byte]
    exact if_pos (by omega)
  rw [plain] at held
  rw [decodeStep, held.head, lead]

/-- A value that has a form of its own is read back, and the decoder stands behind its bytes. -/
theorem decodeStep_of_holds (folds : Folds s) {p : Int} {value : Nat} {bytes : List UInt8}
    (plain : ¬ (0xD800 ≤ value ∧ value ≤ 0xDFFF)) (encoded : encode? value = some bytes)
    (held : Holds s p bytes) :
    (decodeStep s p).value = value ∧ (decodeStep s p).width = bytes.length ∧
      (decodeStep s p).events = [] := by
  have shift (k : Nat) : value >>> k = value / 2 ^ k := Nat.shiftRight_eq_div_pow value k
  unfold encode? at encoded
  split at encoded
  · cases encoded
    rw [decodeStep_of_single (by omega) held]
    simp [form]
  · split at encoded
    · cases encoded
      rw [decodeStep_of_mark folds .two (by rw [shift]; omega) held]
      simp [form]
    · split at encoded
      · cases encoded
        rw [decodeStep_of_mark folds .three (by rw [shift]; omega) held]
        simp [form]
      · split at encoded
        · cases encoded
          rw [decodeStep_of_mark folds .four (by rw [shift]; omega) held]
          simp [form]
        · split at encoded
          · cases encoded
            rw [decodeStep_of_mark folds .five (by rw [shift]; omega) held]
            simp [form]
          · split at encoded
            · cases encoded
              rw [decodeStep_of_mark folds .six (by rw [shift]; omega) held]
              simp [form]
            · cases encoded

/-! ## A text -/

theorem char_lt (c : Char) : c.toNat < 0x110000 := by
  have valid : c.toNat.isValidChar := c.valid
  unfold Nat.isValidChar at valid
  omega

theorem encode_char (c : Char) : encode? c.toNat = some (encodeChar c) := by
  have bound := char_lt c
  have short : (encode? c.toNat).isSome = true := by
    unfold encode?
    repeat' split
    all_goals first | rfl | omega
  obtain ⟨bytes, same⟩ := Option.isSome_iff_exists.mp short
  rw [encodeChar, same, Option.getD_some]

theorem encodeChar_ne_nil (c : Char) : encodeChar c ≠ [] := by
  intro empty
  have long := encode_char c
  rw [empty] at long
  unfold encode? form at long
  repeat' split at long
  all_goals cases long

theorem eq_empty_of_encodeText {text : String} (h : encodeText text = []) : text = "" := by
  rw [encodeText, List.flatMap_eq_nil_iff] at h
  cases chars : text.toList with
  | nil => rw [← String.ofList_toList (s := text), chars]
  | cons c rest => exact absurd (h c (by simp [chars])) (encodeChar_ne_nil c)

theorem char_not_surrogate (c : Char) : ¬ (0xD800 ≤ c.toNat ∧ c.toNat ≤ 0xDFFF) := by
  have valid : c.toNat.isValidChar := c.valid
  unfold Nat.isValidChar at valid
  omega

theorem decodeRun_of_holds (folds : Folds s) (text : List Char) {p : Int}
    (held : Holds s p (text.flatMap encodeChar)) :
    decodeRun s p (text.flatMap encodeChar).length = (text.map Char.toNat, []) := by
  induction text generalizing p with
  | nil => simp [decodeRun]
  | cons c text ih =>
    rw [List.flatMap_cons] at held ⊢
    obtain ⟨value, width, events⟩ :=
      decodeStep_of_holds folds (char_not_surrogate c) (encode_char c) held.left
    have positive := (decodeStep s p).width_pos
    rw [decodeRun, if_neg (by rw [List.length_append]; omega)]
    have rest : (encodeChar c ++ text.flatMap encodeChar).length - (decodeStep s p).width =
        (text.flatMap encodeChar).length := by
      rw [width, List.length_append]
      omega
    have next : (decodeStep s p).next p = (p + (encodeChar c).length) % wordSpan := by
      rw [Step.next, width]
    simp only [rest, next, ih (folds.holds held.right), value, events, List.map_cons,
      List.append_nil]

end Store

theorem toChar_toNat (c : Char) : toChar c.toNat = c := by
  have valid : c.toNat.isValidChar := c.valid
  rw [toChar, if_pos valid, Char.ofNat_toNat]

theorem toText_map_toNat (text : String) : toText (text.toList.map Char.toNat) = text := by
  rw [toText, List.map_map]
  have same : (toChar ∘ Char.toNat) = id := funext toChar_toNat
  rw [same, List.map_id, String.ofList_toList]

end FragmentPipe.Utf8
