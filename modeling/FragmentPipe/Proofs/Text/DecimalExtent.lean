import Mathlib.Algebra.GroupWithZero.Nat
import Mathlib.Data.Nat.Log
import FragmentPipe.Produce.Field
import FragmentPipe.Proofs.Storage.RingRun

/-!
How far decimal text reaches. A number is put together before a scratch position and then moved, so
more bytes change than the text has. Main statements: `sameOutside_put` and
`sameOutside_fillDecimalText`, what may change are the bytes from the place of the text up to the
scratch position, the sign and a fraction before it included.
-/

namespace FragmentPipe

namespace Decimal

/-! ## How many digits there are -/

theorem length_digits_le {n count : Nat} (small : n < 10 ^ (count + 1)) :
    (digits n).length ≤ count + 1 := by
  induction count generalizing n with
  | zero =>
    rw [digits, if_pos (by simpa using small)]
    exact Nat.le_refl 1
  | succ count ih =>
    rw [digits]
    split
    · exact Nat.succ_le_succ (Nat.zero_le _)
    · have rest : n / 10 < 10 ^ (count + 1) :=
        Nat.div_lt_of_lt_mul (by rwa [Nat.pow_succ'] at small)
      exact Nat.succ_le_succ (ih rest)

theorem length_paddedDigits_le {n least count : Nat} (small : n < 10 ^ (count + 1))
    (filled : least ≤ count + 1) : (paddedDigits n least).length ≤ count + 1 := by
  have bound := length_digits_le small
  rw [paddedDigits, List.length_append, List.length_replicate]
  omega

theorem length_int_le (value : Int32) : (paddedDigits value.toInt.natAbs 0).length ≤ 10 := by
  have low := value.le_toInt
  have high := value.toInt_lt
  have small : value.toInt.natAbs < 10 ^ 10 := by omega
  exact length_paddedDigits_le small (Nat.zero_le (9 + 1))

theorem natAbs_long_lt (value : Int64) : value.toInt.natAbs < 10 ^ 19 := by
  have low := value.le_toInt
  have high := value.toInt_lt
  omega

theorem length_long_le (value : Int64) : (paddedDigits value.toInt.natAbs 0).length ≤ 19 :=
  length_paddedDigits_le (natAbs_long_lt value) (Nat.zero_le (18 + 1))

theorem exponentsFrom_add {n power k : Nat} (here : power = 10 ^ k) (reached : power ≤ n) :
    exponentsFrom n power + k = Nat.log 10 n := by
  fun_induction exponentsFrom n power generalizing k with
  | case1 power more ih =>
    have next : power * 10 = 10 ^ (k + 1) := by rw [here, Nat.pow_succ]
    rw [← ih next more.2]
    omega
  | case2 power stops =>
    have positive : 0 < power := here ▸ Nat.pow_pos (by decide)
    have below : n < 10 ^ (k + 1) := by
      rw [Nat.pow_succ, ← here]
      omega
    rw [Nat.zero_add, Nat.log_eq_of_pow_le_of_lt_pow (here ▸ reached) below]

theorem digitCount_eq {n : Nat} (positive : n ≠ 0) : digitCount n = Nat.log 10 n + 1 := by
  have exponent := exponentsFrom_add (n := n) (Nat.pow_zero 10).symm (Nat.one_le_iff_ne_zero.mpr positive)
  rw [digitCount, log10?, if_neg positive, Option.elim_some, ← exponent, Nat.add_zero]

/-- There are as many digits as the logarithm tells. -/
theorem length_digits (n : Nat) : (digits n).length = digitCount n := by
  fun_induction digits n with
  | case1 n small =>
    by_cases zero : n = 0
    · rw [zero]
      rfl
    · rw [digitCount_eq zero, Nat.log_of_lt small]
      rfl
  | case2 n large ih =>
    have log : Nat.log 10 n = Nat.log 10 (n / 10) + 1 :=
      Nat.log_of_one_lt_of_le (by decide) (Nat.le_of_not_lt large)
    rw [List.length_cons, ih, digitCount_eq (n := n / 10) (by omega), digitCount_eq (by omega), log]

/-- The number of bytes of the text of a number with at least `least` digits. -/
def textLength (value : Int) (least : Nat) : Nat :=
  (paddedDigits value.natAbs least).length + (if value < 0 then 1 else 0)

theorem textLength_zero (value : Int) :
    textLength value 0 = digitCount value.natAbs + if value < 0 then 1 else 0 := by
  rw [textLength, paddedDigits, List.length_append, List.length_replicate, length_digits,
    Nat.zero_sub, Nat.add_zero]

/-- A sign is one byte more. -/
theorem textLength_le {value : Int} {count : Nat}
    (digits : (paddedDigits value.natAbs 0).length ≤ count) : textLength value 0 ≤ count + 1 := by
  unfold textLength
  split
  · omega
  · omega

/-! ## Where they are put -/

/-- The text begins as many bytes before the scratch position as it has. -/
theorem put_eq {σ : Type} [ByteStore σ] (s : σ) (value : Int) (least : Nat) (scratch head : Int) :
    put s value least scratch head =
      (textLength value least, ByteStore.shift
        (ByteStore.put (putDownward s scratch (paddedDigits value.natAbs least)).2
          (scratch - (paddedDigits value.natAbs least).length - 1) minus)
        (scratch - textLength value least) head (textLength value least)) := by
  have start : (if value < 0 then scratch - ((paddedDigits value.natAbs least).length : Int) - 1
      else scratch - (paddedDigits value.natAbs least).length) = scratch - textLength value least := by
    unfold textLength
    split
    · omega
    · omega
  simp only [put, putDownward_fst, start, Int.sub_sub_self, Int.toNat_natCast]

theorem put_fst {σ : Type} [ByteStore σ] (s : σ) (value : Int) (least : Nat) (scratch head : Int) :
    (put s value least scratch head).1 = textLength value least := by
  rw [put_eq]

theorem sameOutside_putDownward (r : Ring UInt8) (position : Int) (bytes : List UInt8) :
    r.SameOutside (putDownward r position bytes).2 (position - bytes.length) bytes.length := by
  induction bytes generalizing r position with
  | nil => exact .refl r _ 0
  | cons b bs ih =>
    have length : (b :: bs).length = bs.length + 1 := rfl
    have first : r.SameOutside (r.set (position - 1) b) (position - (b :: bs).length)
        (b :: bs).length :=
      (r.sameOutside_set (position - 1) b).mono (by omega) (by omega)
    exact first.trans ((ih _ _).mono (by omega) (by omega))

/-- A number changes no bytes but those from its place up to the scratch position. -/
theorem sameOutside_put (r : Ring UInt8) (value : Int) (least span : Nat) (head : Int)
    (fits : (paddedDigits value.natAbs least).length < span) :
    r.SameOutside (put r value least (head + span) head).2 head span := by
  have text := sameOutside_putDownward r (head + span) (paddedDigits value.natAbs least)
  have sign := (putDownward r (head + span) (paddedDigits value.natAbs least)).2.sameOutside_set
    (head + span - (paddedDigits value.natAbs least).length - 1) minus
  have length : textLength value least ≤ span := by
    unfold textLength
    split
    · omega
    · omega
  rw [put_eq]
  refine ((text.mono (by omega) (by omega)).trans (sign.mono (by omega) (by omega))).trans ?_
  exact (Ring.sameOutside_shift _ _ head _).mono (Int.le_refl _) (by omega)

end Decimal

namespace Pipe

/-- The most bytes that a fixed point text and its scratch bytes can take. -/
def decimalTextSpan (places : Nat) (mantissa : Int) : Nat :=
  (if needsBareSign places mantissa then 1 else 0) +
    (if 0 < places then Decimal.textLength (mantissa.tdiv (placesDivisor places)) 0 + 1 else 0) + 21

theorem placesDivisor_eq (places : Nat) : placesDivisor places = ((10 ^ places : Nat) : Int) := rfl

theorem length_whole_le (places : Nat) (mantissa : Int64) :
    (Decimal.paddedDigits (mantissa.toInt.tdiv (placesDivisor places)).natAbs 0).length ≤ 19 := by
  have small : (mantissa.toInt.tdiv (placesDivisor places)).natAbs < 10 ^ 19 := by
    rw [Int.natAbs_tdiv]
    exact Nat.lt_of_le_of_lt (Nat.div_le_self _ _) (Decimal.natAbs_long_lt mantissa)
  exact Decimal.length_paddedDigits_le small (Nat.zero_le (18 + 1))

theorem natAbs_fraction_lt (places : Nat) (mantissa : Int) :
    (mantissa.tmod (placesDivisor places)).natAbs < 10 ^ places := by
  rw [Int.natAbs_tmod, placesDivisor_eq, Int.natAbs_natCast]
  exact Nat.mod_lt _ (Nat.pow_pos (by decide))

/-- The fraction has as many digits as there are places. -/
theorem textLength_fraction {places : Nat} (placed : 0 < places) (mantissa : Int) :
    Decimal.textLength ((mantissa.tmod (placesDivisor places)).natAbs : Int) places = places := by
  have small := natAbs_fraction_lt places mantissa
  have whole : places - 1 + 1 = places := Nat.sub_add_cancel placed
  rw [← whole] at small
  have digits := Decimal.length_digits_le small
  rw [whole] at digits
  rw [Decimal.textLength, Int.natAbs_natCast, Decimal.paddedDigits, List.length_append,
    List.length_replicate, if_neg (by omega)]
  omega

/-- The parts of a fixed point text, the whole part being written as a number. -/
theorem decimalTextLength_eq (places : Nat) (mantissa : Int) :
    decimalTextLength places mantissa =
      (if needsBareSign places mantissa then 1 else 0) +
        Decimal.textLength (mantissa.tdiv (placesDivisor places)) 0 +
        (if 0 < places then 1 + places else 0) := by
  rw [Decimal.textLength_zero]
  rfl

/-- A fixed point text ends where its length tells. -/
theorem fillDecimalText_fst (places : Nat) (mantissa : Int) (blob : Ring UInt8) (position : Int) :
    (fillDecimalText places mantissa blob position).1 =
      position + decimalTextLength places mantissa := by
  simp only [fillDecimalText, decimalTextLength_eq, Decimal.put_eq]
  by_cases placed : 0 < places
  · rw [if_pos placed, if_pos placed, textLength_fraction placed]
    split
    · push_cast
      omega
    · push_cast
      omega
  · rw [if_neg placed, if_neg placed]
    split
    · push_cast
      omega
    · push_cast
      omega

theorem decimalTextLength_le {places : Nat} (few : places ≤ maxPlaces) (mantissa : Int64) :
    decimalTextLength places mantissa.toInt ≤ decimalTextSpan places mantissa.toInt := by
  have whole := Decimal.textLength_le (length_whole_le places mantissa)
  unfold maxPlaces at few
  rw [decimalTextLength_eq]
  unfold decimalTextSpan
  split
  · split
    · omega
    · omega
  · split
    · omega
    · omega

/-- A fixed point text changes no bytes but those that it can take. -/
theorem sameOutside_fillDecimalText {places : Nat} (few : places ≤ maxPlaces) (mantissa : Int64)
    (blob : Ring UInt8) (position : Int) :
    blob.SameOutside (fillDecimalText places mantissa.toInt blob position).2 position
      (decimalTextSpan places mantissa.toInt) := by
  have whole := length_whole_le places mantissa
  have fraction : (Decimal.paddedDigits
      ((mantissa.toInt.tmod (placesDivisor places)).natAbs : Int).natAbs places).length ≤ 18 + 1 := by
    have small : (mantissa.toInt.tmod (placesDivisor places)).natAbs < 10 ^ 19 :=
      Nat.lt_of_lt_of_le (natAbs_fraction_lt places mantissa.toInt)
        (Nat.pow_le_pow_right (by decide) (Nat.le_succ_of_le few))
    exact Decimal.length_paddedDigits_le small (Nat.le_succ_of_le few)
  -- The sign, if there is one, is a byte of its own before the rest.
  obtain ⟨bare, signed, begun, width, sign⟩ : ∃ (bare : Nat) (signed : Ring UInt8),
      (if needsBareSign places mantissa.toInt = true then
        (position + 1, ByteStore.put blob position Decimal.minus) else (position, blob)) =
          (position + (bare : Int), signed) ∧
      (if needsBareSign places mantissa.toInt = true then 1 else 0) = bare ∧
      blob.SameOutside signed position bare := by
    split
    · exact ⟨1, _, rfl, rfl, blob.sameOutside_set position _⟩
    · exact ⟨0, blob, by simp, rfl, .refl blob position 0⟩
  have number := Decimal.sameOutside_put signed (mantissa.toInt.tdiv (placesDivisor places)) 0 21
    (position + bare) (by omega)
  unfold fillDecimalText decimalTextSpan
  rw [begun, width]
  simp only [Decimal.put_fst]
  by_cases placed : 0 < places
  · rw [if_pos placed, if_pos placed]
    have point := fun r : Ring UInt8 => r.sameOutside_set (position + bare +
      Decimal.textLength (mantissa.toInt.tdiv (placesDivisor places)) 0) Decimal.point
    have part := fun r : Ring UInt8 => Decimal.sameOutside_put r
      ((mantissa.toInt.tmod (placesDivisor places)).natAbs : Int) places 21 (position + bare +
        Decimal.textLength (mantissa.toInt.tdiv (placesDivisor places)) 0 + 1) (by omega)
    exact (((sign.mono (by omega) (by omega)).trans (number.mono (by omega) (by omega))).trans
      ((point _).mono (by omega) (by omega))).trans ((part _).mono (by omega) (by omega))
  · rw [if_neg placed, if_neg placed]
    exact (sign.mono (by omega) (by omega)).trans (number.mono (by omega) (by omega))

end Pipe

end FragmentPipe
