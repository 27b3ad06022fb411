import Mathlib.Algebra.Order.Field.Rat
import Mathlib.Data.Nat.Digits.Lemmas
import Mathlib.Tactic.Linarith
import Mathlib.Tactic.Positivity
import Mathlib.Tactic.Ring

/-!
Decimal numerals: a sign, the digits before the point and those behind it, with the text that they are
written as and the rational number that they stand for. A numeral is canonical if it has neither a
leading zero nor the sign of a number that is zero. `Numeral.ofMantissa` is the numeral of a number
with decimal places. Main statements: `Numeral.length_text_le`, no numeral of the same number with as
many places is shorter than a canonical one, and `Numeral.value_ofMantissa`.
-/

namespace FragmentPipe

/-- A decimal numeral, the highest digits first. -/
structure Numeral where
  negative : Bool
  whole : List Nat
  fraction : List Nat
  whole_ne_nil : whole ≠ []
  digits_lt : ∀ d ∈ whole ++ fraction, d < 10

namespace Numeral

/-- The text: a sign if it is negative, and a point if there are digits behind it. -/
def text (c : Numeral) : List Char :=
  (if c.negative then ['-'] else []) ++ c.whole.map Nat.digitChar ++
    (if c.fraction = [] then [] else '.' :: c.fraction.map Nat.digitChar)

/-- The number that all digits stand for without the point. -/
def magnitude (c : Numeral) : Nat := Nat.ofDigits 10 (c.whole ++ c.fraction).reverse

/-- The number that the numeral stands for. -/
def value (c : Numeral) : ℚ :=
  (if c.negative then -1 else 1) * (c.magnitude / 10 ^ c.fraction.length)

/-- No digit can be left out before the point, and no sign. -/
structure Canonical (c : Numeral) : Prop where
  leading : c.whole.length = 1 ∨ c.whole.head c.whole_ne_nil ≠ 0
  signed : c.negative = true → c.magnitude ≠ 0

variable {c o : Numeral}

/-- A text has the characters of digits, of the sign and of the point. -/
theorem lt_of_mem_text (c : Numeral) : ∀ x ∈ c.text, x.toNat < 256 := by
  have digit : ∀ d ∈ c.whole ++ c.fraction, (Nat.digitChar d).toNat < 256 := by
    intro d inside
    have small := c.digits_lt d inside
    rw [Nat.toNat_digitChar_of_lt_ten small]
    omega
  intro x inside
  unfold text at inside
  rcases List.mem_append.mp inside with front | behind
  · rcases List.mem_append.mp front with sign | whole
    · split at sign
      · rw [List.mem_singleton.mp sign]
        decide
      · cases sign
    · obtain ⟨d, among, rfl⟩ := List.mem_map.mp whole
      exact digit d (List.mem_append_left _ among)
  · split at behind
    · cases behind
    · rcases List.mem_cons.mp behind with rfl | fraction
      · decide
      · obtain ⟨d, among, rfl⟩ := List.mem_map.mp fraction
        exact digit d (List.mem_append_right _ among)

/-! ## The shortest numeral -/

theorem abs_value (c : Numeral) : |c.value| = c.magnitude / 10 ^ c.fraction.length := by
  have positive : (0 : ℚ) ≤ c.magnitude / 10 ^ c.fraction.length := by positivity
  unfold value
  split
  · rw [abs_mul, abs_neg, abs_one, one_mul, abs_of_nonneg positive]
  · rw [one_mul, abs_of_nonneg positive]

/-- Numerals of one number differ by zeros. -/
theorem magnitude_eq_of_value_eq (same : o.value = c.value)
    (places : c.fraction.length ≤ o.fraction.length) :
    o.magnitude = c.magnitude * 10 ^ (o.fraction.length - c.fraction.length) := by
  have sizes : (o.magnitude : ℚ) / 10 ^ o.fraction.length =
      c.magnitude / 10 ^ c.fraction.length := by
    rw [← abs_value, ← abs_value, same]
  rw [div_eq_div_iff (by positivity) (by positivity)] at sizes
  have whole : o.magnitude * 10 ^ c.fraction.length = c.magnitude * 10 ^ o.fraction.length := by
    exact_mod_cast sizes
  have split : (10 : Nat) ^ o.fraction.length =
      10 ^ (o.fraction.length - c.fraction.length) * 10 ^ c.fraction.length := by
    rw [← Nat.pow_add, Nat.sub_add_cancel places]
  rw [split, ← Nat.mul_assoc] at whole
  exact Nat.eq_of_mul_eq_mul_right (Nat.pow_pos (by decide)) whole

theorem magnitude_lt (c : Numeral) : c.magnitude < 10 ^ (c.whole.length + c.fraction.length) := by
  have small := Nat.ofDigits_lt_base_pow_length (b := 10) (l := (c.whole ++ c.fraction).reverse)
    (by decide) fun d inside => c.digits_lt d (List.mem_reverse.mp inside)
  rwa [List.length_reverse, List.length_append] at small

theorem le_magnitude (leading : c.whole.head c.whole_ne_nil ≠ 0) :
    10 ^ (c.whole.length + c.fraction.length) ≤ 10 * c.magnitude := by
  have nonempty : (c.whole ++ c.fraction).reverse ≠ [] := by simp [c.whole_ne_nil]
  have last : (c.whole ++ c.fraction).reverse.getLast nonempty ≠ 0 := by
    rwa [List.getLast_reverse, List.head_append_of_ne_nil c.whole_ne_nil]
  have large := Nat.pow_length_le_mul_ofDigits (b := 8) nonempty last
  rwa [List.length_reverse, List.length_append] at large

theorem length_whole_le (leading : c.whole.length = 1 ∨ c.whole.head c.whole_ne_nil ≠ 0)
    (same : o.value = c.value) (places : c.fraction.length ≤ o.fraction.length) :
    c.whole.length ≤ o.whole.length := by
  rcases leading with one | leading
  · rw [one]
    exact List.length_pos_iff.mpr o.whole_ne_nil
  · have bounds : 10 ^ (c.whole.length + o.fraction.length) <
        10 ^ (o.whole.length + o.fraction.length + 1) := by
      calc 10 ^ (c.whole.length + o.fraction.length)
          = 10 ^ (c.whole.length + c.fraction.length) *
              10 ^ (o.fraction.length - c.fraction.length) := by
            rw [← Nat.pow_add]
            congr 1
            omega
        _ ≤ 10 * c.magnitude * 10 ^ (o.fraction.length - c.fraction.length) :=
            Nat.mul_le_mul_right _ (le_magnitude leading)
        _ = 10 * o.magnitude := by rw [magnitude_eq_of_value_eq same places, Nat.mul_assoc]
        _ < 10 * 10 ^ (o.whole.length + o.fraction.length) :=
            Nat.mul_lt_mul_of_pos_left o.magnitude_lt (by decide)
        _ = 10 ^ (o.whole.length + o.fraction.length + 1) := (Nat.pow_succ' ..).symm
    have fewer := (Nat.pow_lt_pow_iff_right (by decide)).mp bounds
    omega

/-- A number below zero has a sign. -/
theorem negative_of_value_eq (signed : c.negative = true → c.magnitude ≠ 0)
    (same : o.value = c.value) (negative : c.negative = true) : o.negative = true := by
  have positive : (0 : ℚ) < c.magnitude := by exact_mod_cast Nat.pos_of_ne_zero (signed negative)
  have below : c.value < 0 := by
    have size : (0 : ℚ) < c.magnitude / 10 ^ c.fraction.length := by positivity
    rw [value, if_pos negative]
    linarith
  rw [← same, value] at below
  by_contra unsigned
  rw [if_neg unsigned, one_mul] at below
  exact absurd below (not_lt.mpr (by positivity))

/-- No numeral of the same number with as many places is shorter than a canonical one. -/
theorem length_text_le (canonical : c.Canonical) (same : o.value = c.value)
    (places : c.fraction.length ≤ o.fraction.length) : c.text.length ≤ o.text.length := by
  have whole := length_whole_le canonical.leading same places
  have sign : (if c.negative then ['-'] else []).length ≤
      (if o.negative then ['-'] else []).length := by
    by_cases negative : c.negative = true
    · rw [if_pos negative, if_pos (negative_of_value_eq canonical.signed same negative)]
    · rw [if_neg negative]
      exact Nat.zero_le _
  have fraction : (if c.fraction = [] then [] else '.' :: c.fraction.map Nat.digitChar).length ≤
      (if o.fraction = [] then [] else '.' :: o.fraction.map Nat.digitChar).length := by
    by_cases bare : c.fraction = []
    · rw [if_pos bare]
      exact Nat.zero_le _
    · have positive := List.length_pos_iff.mpr bare
      have padded : o.fraction ≠ [] := List.length_pos_iff.mp (by omega)
      rw [if_neg bare, if_neg padded, List.length_cons, List.length_cons, List.length_map,
        List.length_map]
      exact Nat.succ_le_succ places
  simp only [text, List.length_append, List.length_map]
  omega

/-! ## The numeral of a number with decimal places -/

/-- The digits of a number, the last one first; zero has a digit too. -/
def figures (n : Nat) : List Nat := if n = 0 then [0] else Nat.digits 10 n

/-- The digits of a number with zeros before them up to a count, the last one first. -/
def placed (n count : Nat) : List Nat :=
  Nat.digits 10 n ++ List.replicate (count - (Nat.digits 10 n).length) 0

theorem figures_ne_nil (n : Nat) : figures n ≠ [] := by
  unfold figures
  split
  · exact List.cons_ne_nil _ _
  · next nonzero => exact Nat.digits_ne_nil_iff_ne_zero.mpr nonzero

theorem lt_of_mem_figures {n d : Nat} (inside : d ∈ figures n) : d < 10 := by
  unfold figures at inside
  split at inside
  · rw [List.mem_singleton] at inside
    omega
  · exact Nat.digits_lt_base (by decide) inside

theorem lt_of_mem_placed {n count d : Nat} (inside : d ∈ placed n count) : d < 10 := by
  rcases List.mem_append.mp inside with digit | zero
  · exact Nat.digits_lt_base (by decide) digit
  · have zero_eq := (List.mem_replicate.mp zero).2
    omega

theorem ofDigits_figures (n : Nat) : Nat.ofDigits 10 (figures n) = n := by
  unfold figures
  split
  · next zero_eq => rw [zero_eq]; rfl
  · exact Nat.ofDigits_digits 10 n

theorem ofDigits_placed (n count : Nat) : Nat.ofDigits 10 (placed n count) = n := by
  rw [placed, Nat.ofDigits_append_replicate_zero, Nat.ofDigits_digits]

theorem length_placed {n count : Nat} (small : n < 10 ^ count) : (placed n count).length = count := by
  have fits := (Nat.digits_length_le_iff (by decide) n).mpr small
  rw [placed, List.length_append, List.length_replicate]
  omega

/-- The numeral of `mantissa / 10 ^ places`, all its places included. -/
def ofMantissa (places : Nat) (mantissa : Int) : Numeral where
  negative := decide (mantissa < 0)
  whole := (figures (mantissa.natAbs / 10 ^ places)).reverse
  fraction := (placed (mantissa.natAbs % 10 ^ places) places).reverse
  whole_ne_nil := by simp [figures_ne_nil]
  digits_lt := by
    intro d inside
    rcases List.mem_append.mp inside with whole | fraction
    · exact lt_of_mem_figures (List.mem_reverse.mp whole)
    · exact lt_of_mem_placed (List.mem_reverse.mp fraction)

variable (places : Nat) (mantissa : Int)

theorem length_fraction_ofMantissa : (ofMantissa places mantissa).fraction.length = places := by
  show (List.reverse _).length = places
  rw [List.length_reverse, length_placed (Nat.mod_lt _ (Nat.pow_pos (by decide)))]

theorem magnitude_ofMantissa : (ofMantissa places mantissa).magnitude = mantissa.natAbs := by
  have small : mantissa.natAbs % 10 ^ places < 10 ^ places := Nat.mod_lt _ (Nat.pow_pos (by decide))
  show Nat.ofDigits 10 (List.reverse (_ ++ _)) = _
  rw [List.reverse_append, ofMantissa, List.reverse_reverse, List.reverse_reverse,
    Nat.ofDigits_append, ofDigits_figures, ofDigits_placed, length_placed small, Nat.mod_add_div]

theorem canonical_ofMantissa : (ofMantissa places mantissa).Canonical := by
  constructor
  · show (List.reverse _).length = 1 ∨ (List.reverse _).head _ ≠ 0
    unfold figures
    by_cases noWhole : mantissa.natAbs / 10 ^ places = 0
    · exact .inl (by simp [noWhole])
    · right
      simp only [if_neg noWhole, List.head_reverse]
      exact Nat.getLast_digit_ne_zero 10 noWhole
  · intro negative
    have below : mantissa < 0 := of_decide_eq_true negative
    rw [magnitude_ofMantissa]
    omega

theorem value_ofMantissa : (ofMantissa places mantissa).value = mantissa / 10 ^ places := by
  rw [value, magnitude_ofMantissa, length_fraction_ofMantissa]
  have sign : (if (ofMantissa places mantissa).negative = true then (-1 : ℚ) else 1) *
      mantissa.natAbs = mantissa := by
    show (if decide (mantissa < 0) = true then (-1 : ℚ) else 1) * mantissa.natAbs = mantissa
    rw [← Int.cast_natCast]
    split
    · next below =>
      rw [Int.ofNat_natAbs_of_nonpos (Int.le_of_lt (of_decide_eq_true below)), Int.cast_neg]
      ring
    · next above =>
      rw [Int.natAbs_of_nonneg (Int.not_lt.mp fun below => above (decide_eq_true below)), one_mul]
  rw [← mul_div_assoc, sign]

/-- A numeral is the one to write a number with decimal places as: it stands for the number, has all of
its places and nothing that can be left out, and so no numeral is shorter. -/
structure Writes (c : Numeral) (mantissa : Int) (places : Nat) : Prop where
  canonical : c.Canonical
  length_fraction : c.fraction.length = places
  value : c.value = mantissa / 10 ^ places
  negative_iff : c.negative = true ↔ mantissa < 0
  shortest : ∀ o : Numeral, o.value = c.value → places ≤ o.fraction.length →
    c.text.length ≤ o.text.length

theorem writes_ofMantissa : (ofMantissa places mantissa).Writes mantissa places := by
  have length := length_fraction_ofMantissa places mantissa
  have canonical := canonical_ofMantissa places mantissa
  refine ⟨canonical, length, value_ofMantissa places mantissa, decide_eq_true_iff, ?_⟩
  intro o same enough
  exact length_text_le canonical same (by rwa [length])

end Numeral

end FragmentPipe
