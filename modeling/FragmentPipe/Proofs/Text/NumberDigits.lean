import FragmentPipe.Proofs.Text.NumberText
import FragmentPipe.Proofs.Text.Numeral

/-!
The digits of numbers that are written as text. Digits are stored from the last one down to the first,
with a minus sign before them, and then they are moved to their place: `Decimal.holds_put` tells what
lies there. `Pipe.decimalBytes` puts the parts of a fixed point text side by side. Main statements:
`decimalBytes_eq`, these bytes are the text of the numeral, and `holds_fillDecimalText`, they lie where
the text is filled in.
-/

namespace FragmentPipe

/-! ## Digits as bytes -/

namespace Decimal

theorem digits_eq (n : Nat) : digits n = (Numeral.figures n).map digitByte := by
  fun_induction digits n with
  | case1 n small =>
    unfold Numeral.figures
    split
    · next zero =>
      rw [zero]
      rfl
    · next nonzero => rw [Nat.digits_of_lt 10 n nonzero small, List.map_singleton]
  | case2 n large ih =>
    have nonzero : n ≠ 0 := by omega
    have rest : n / 10 ≠ 0 := by omega
    rw [Numeral.figures, if_neg nonzero, Nat.digits_def' (by decide) (Nat.pos_of_ne_zero nonzero),
      List.map_cons, ih, Numeral.figures, if_neg rest]

theorem paddedDigits_zero (n : Nat) : paddedDigits n 0 = (Numeral.figures n).map digitByte := by
  rw [paddedDigits, Nat.zero_sub, List.replicate_zero, List.append_nil, digits_eq]

/-- Behind a point zero has no digit of its own. -/
theorem paddedDigits_eq {count : Nat} (n : Nat) (counted : 0 < count) :
    paddedDigits n count = (Numeral.placed n count).map digitByte := by
  rw [paddedDigits, digits_eq, List.length_map, ← List.map_replicate, ← List.map_append]
  congr 1
  unfold Numeral.figures Numeral.placed
  by_cases zero : n = 0
  · rw [if_pos zero, zero, Nat.digits_zero, List.nil_append, List.length_singleton,
      List.length_nil, Nat.sub_zero, List.singleton_append, ← List.replicate_succ,
      Nat.sub_add_cancel counted]
  · rw [if_neg zero]

/-- The bytes of digits are those of their characters. -/
theorem encode_map_digitChar {l : List Nat} (small : ∀ d ∈ l, d < 10) :
    LowByte.encode (l.map Nat.digitChar) = l.map digitByte := by
  rw [LowByte.encode, List.map_map]
  refine List.map_congr_left fun d inside => ?_
  show UInt8.ofNat (Nat.digitChar d).toNat = UInt8.ofNat (0x30 + d)
  rw [Nat.toNat_digitChar_of_lt_ten (small d inside)]

/-- The bytes of a number: a sign where it is negative, and its digits. -/
def textBytes (value : Int) (least : Nat) : List UInt8 :=
  (if value < 0 then [minus] else []) ++ (paddedDigits value.natAbs least).reverse

theorem length_textBytes (value : Int) (least : Nat) :
    (textBytes value least).length = textLength value least := by
  unfold textBytes textLength
  rw [List.length_append, List.length_reverse, Nat.add_comm]
  split
  · rfl
  · rfl

/-! ## Digits in a ring -/

theorem holds_putDownward (r : Ring UInt8) (position : Int) (bytes : List UInt8)
    (fits : bytes.length ≤ r.size) :
    (putDownward r position bytes).2.Holds (position - bytes.length) bytes.reverse := by
  induction bytes generalizing r position with
  | nil => exact Ring.holds_nil _ _
  | cons b bs ih =>
    simp only [List.length_cons] at fits ⊢
    have rest := ih (r.set (position - 1) b) (position - 1) (by rw [Ring.size_set]; omega)
    have start : position - ((bs.length + 1 : Nat) : Int) = position - 1 - bs.length := by omega
    have behind : position - 1 - bs.length + ((bs.reverse.length : Nat) : Int) = position - 1 := by
      rw [List.length_reverse]
      omega
    rw [List.reverse_cons, Ring.holds_append, start, behind]
    refine ⟨rest, Ring.holds_cons.mpr ⟨?_, Ring.holds_nil _ _⟩⟩
    -- The bytes before it are less than a turn, so they do not reach around to the first one.
    have kept := (sameOutside_putDownward (r.set (position - 1) b) (position - 1) bs).same
      (position - 1) fun i inside =>
        (Ring.index_ne_of_lt _ (by omega) (by rw [Ring.size_set]; omega))
    exact kept.trans (r.get_set_self b rfl)

/-- With the sign that is put before them in any case the digits end at the scratch position. -/
theorem holds_signed (r : Ring UInt8) (value : Int) (least : Nat) (scratch : Int)
    (fits : (paddedDigits value.natAbs least).length + 1 ≤ r.size) :
    ((putDownward r scratch (paddedDigits value.natAbs least)).2.set
      (scratch - (paddedDigits value.natAbs least).length - 1) minus).Holds
        (scratch - textLength value least) (textBytes value least) := by
  have digits := holds_putDownward r scratch (paddedDigits value.natAbs least) (by omega)
  have size := (sameOutside_putDownward r scratch (paddedDigits value.natAbs least)).size
  have signed : ((putDownward r scratch (paddedDigits value.natAbs least)).2.set
      (scratch - (paddedDigits value.natAbs least).length - 1) minus).Holds
        (scratch - (paddedDigits value.natAbs least).length)
        (paddedDigits value.natAbs least).reverse := by
    refine digits.of_same fun x low high => ?_
    rw [List.length_reverse] at high
    exact Ring.get_set_of_ne _ _ (Ring.index_ne_of_lt _ (by omega) (by omega))
  unfold textLength textBytes
  split
  · have before : scratch - (((paddedDigits value.natAbs least).length + 1 : Nat) : Int) =
        scratch - (paddedDigits value.natAbs least).length - 1 := by omega
    rw [before, List.singleton_append]
    refine Ring.holds_cons.mpr ⟨Ring.get_set_self _ _ rfl, ?_⟩
    rwa [Int.sub_add_cancel]
  · exact signed

/-- A number is put behind a run, which stays. -/
theorem holds_put {r : Ring UInt8} {p : Int} {l : List UInt8} (h : r.Holds p l) (value : Int)
    (least span : Nat) (fits : (paddedDigits value.natAbs least).length < span)
    (turn : l.length + span ≤ r.size) :
    (put r value least (p + l.length + span) (p + l.length)).2.Holds p
      (l ++ textBytes value least) := by
  have text := textLength_le_succ value least
  have whole := holds_signed r value least (p + l.length + span) (by omega)
  have changed := sameOutside_put r value least span (p + l.length) fits
  have size := (sameOutside_putDownward r (p + l.length + span)
    (paddedDigits value.natAbs least)).size
  refine Ring.holds_append.mpr ⟨h.of_sameOutside changed (Int.le_refl _) (by omega), ?_⟩
  have length := length_textBytes value least
  have turn' : p + l.length + span - textLength value least + (textBytes value least).length ≤
      p + l.length + ((putDownward r (p + l.length + span) (paddedDigits value.natAbs least)).2.set
        (p + l.length + span - (paddedDigits value.natAbs least).length - 1) minus).size := by
    rw [length, Ring.size_set, size]
    omega
  have moved := whole.shift (by omega) turn'
  rw [put_eq]
  rwa [length] at moved

end Decimal

/-! ## Fixed point texts -/

namespace Pipe

/-- The sign that the whole part does not carry. -/
def bareBytes (places : Nat) (mantissa : Int) : List UInt8 :=
  if needsBareSign places mantissa then [Decimal.minus] else []

theorem length_bareBytes (places : Nat) (mantissa : Int) :
    (bareBytes places mantissa).length = bareWidth places mantissa := by
  unfold bareBytes bareWidth
  split
  · rfl
  · rfl

/-- The bytes of a fixed point text: a sign where the whole part has none, the whole part, and with
places a point and as many digits. -/
def decimalBytes (places : Nat) (mantissa : Int) : List UInt8 :=
  bareBytes places mantissa ++ Decimal.textBytes (mantissa.tdiv (placesDivisor places)) 0 ++
    (if 0 < places then Decimal.point :: Decimal.textBytes (fractionOf places mantissa) places
      else [])

/-- The whole part of a number below zero has a sign, unless it is zero. -/
theorem tdiv_neg_iff (places : Nat) (mantissa : Int) :
    mantissa.tdiv (placesDivisor places) < 0 ↔
      mantissa < 0 ∧ mantissa.tdiv (placesDivisor places) ≠ 0 := by
  have positive : 0 < placesDivisor places := by
    rw [placesDivisor_eq]
    exact_mod_cast Nat.pow_pos (by decide)
  constructor
  · intro below
    refine ⟨Int.not_le.mp fun above => ?_, Int.ne_of_lt below⟩
    exact absurd below (Int.not_lt.mpr (Int.tdiv_nonneg above (Int.le_of_lt positive)))
  · rintro ⟨below, noWhole⟩
    have opposite : 0 ≤ (-mantissa).tdiv (placesDivisor places) :=
      Int.tdiv_nonneg (by omega) (Int.le_of_lt positive)
    rw [Int.neg_tdiv] at opposite
    omega

/-- The sign is written once, alone or with the whole part. -/
theorem sign_append_whole (places : Nat) (mantissa : Int) :
    bareBytes places mantissa ++ Decimal.textBytes (mantissa.tdiv (placesDivisor places)) 0 =
      (if mantissa < 0 then [Decimal.minus] else []) ++
        ((Numeral.figures (mantissa.natAbs / 10 ^ places)).map Decimal.digitByte).reverse := by
  have size : (mantissa.tdiv (placesDivisor places)).natAbs = mantissa.natAbs / 10 ^ places := by
    rw [Int.natAbs_tdiv, placesDivisor_eq, Int.natAbs_natCast]
    rfl
  rw [Decimal.textBytes, size, Decimal.paddedDigits_zero, ← List.append_assoc]
  congr 1
  have whole := tdiv_neg_iff places mantissa
  unfold bareBytes needsBareSign
  by_cases below : mantissa < 0
  · by_cases noWhole : mantissa.tdiv (placesDivisor places) = 0
    · simp [below, noWhole]
    · simp [below, noWhole, whole.mpr ⟨below, noWhole⟩]
  · have above : ¬mantissa.tdiv (placesDivisor places) < 0 := fun signed =>
      below (whole.mp signed).1
    simp [below, above]

theorem textBytes_fractionOf {places : Nat} (placed : 0 < places) (mantissa : Int) :
    Decimal.textBytes (fractionOf places mantissa) places =
      ((Numeral.placed (mantissa.natAbs % 10 ^ places) places).map Decimal.digitByte).reverse := by
  have size : (fractionOf places mantissa).natAbs = mantissa.natAbs % 10 ^ places := by
    rw [fractionOf, Int.natAbs_natCast, Int.natAbs_tmod, placesDivisor_eq, Int.natAbs_natCast]
  have unsigned : ¬fractionOf places mantissa < 0 := Int.not_lt.mpr (Int.natCast_nonneg _)
  rw [Decimal.textBytes, if_neg unsigned, List.nil_append, size, Decimal.paddedDigits_eq _ placed]

/-- The text of a number with decimal places is that of its numeral. -/
theorem decimalBytes_eq (places : Nat) (mantissa : Int) :
    decimalBytes places mantissa = LowByte.encode (Numeral.ofMantissa places mantissa).text := by
  have whole := Decimal.encode_map_digitChar
    (l := (Numeral.figures (mantissa.natAbs / 10 ^ places)).reverse)
    fun d inside => Numeral.lt_of_mem_figures (List.mem_reverse.mp inside)
  have fraction := Decimal.encode_map_digitChar
    (l := (Numeral.placed (mantissa.natAbs % 10 ^ places) places).reverse)
    fun d inside => Numeral.lt_of_mem_placed (List.mem_reverse.mp inside)
  have sign : LowByte.encode (if decide (mantissa < 0) = true then ['-'] else []) =
      if mantissa < 0 then [Decimal.minus] else [] := by
    by_cases below : mantissa < 0
    · simp [below, LowByte.encode, Decimal.minus]
    · simp [below, LowByte.encode]
  have parts : ∀ a b c : List Char,
      LowByte.encode (a ++ b ++ c) = LowByte.encode a ++ LowByte.encode b ++ LowByte.encode c :=
    fun a b c => by simp [LowByte.encode]
  have length := Numeral.length_fraction_ofMantissa places mantissa
  rw [decimalBytes, sign_append_whole, Numeral.text, parts]
  show _ = LowByte.encode (if decide (mantissa < 0) = true then ['-'] else []) ++
    LowByte.encode ((Numeral.figures (mantissa.natAbs / 10 ^ places)).reverse.map Nat.digitChar) ++ _
  rw [sign, whole, List.map_reverse]
  congr 1
  by_cases placed : 0 < places
  · have behind : (Numeral.ofMantissa places mantissa).fraction ≠ [] :=
      List.length_pos_iff.mp (by omega)
    rw [if_pos placed, if_neg behind, textBytes_fractionOf placed, ← List.map_reverse, ← fraction]
    rfl
  · have behind : (Numeral.ofMantissa places mantissa).fraction = [] :=
      List.eq_nil_of_length_eq_zero (by omega)
    rw [if_neg placed, if_pos behind]
    rfl

theorem length_bareBytes_append_whole (places : Nat) (mantissa : Int) :
    (bareBytes places mantissa ++
      Decimal.textBytes (mantissa.tdiv (placesDivisor places)) 0).length =
        bareWidth places mantissa + wholeWidth places mantissa := by
  rw [List.length_append, length_bareBytes, Decimal.length_textBytes]
  rfl

theorem length_decimalBytes (places : Nat) (mantissa : Int) :
    (decimalBytes places mantissa).length = decimalTextLength places mantissa := by
  rw [decimalBytes, List.length_append, length_bareBytes_append_whole, decimalTextLength_eq]
  congr 1
  split
  · next placed =>
    rw [List.length_cons, Decimal.length_textBytes, fractionOf, textLength_fraction placed,
      Nat.add_comm]
  · rfl

/-- A number without places has no other bytes than its digits and its sign. -/
theorem decimalBytes_zero (value : Int) :
    decimalBytes 0 value = Decimal.textBytes value 0 := by
  have whole : value.tdiv (placesDivisor 0) = value := Int.tdiv_one value
  have bare : bareBytes 0 value = [] := by
    unfold bareBytes needsBareSign
    rw [whole]
    exact if_neg fun signed => by
      have noWhole := of_decide_eq_true signed
      omega
  rw [decimalBytes, bare, whole, if_neg (Nat.lt_irrefl 0), List.append_nil, List.nil_append]

theorem length_decimalBytes_zero (value : Int) :
    (decimalBytes 0 value).length = Decimal.textLength value 0 := by
  rw [decimalBytes_zero, Decimal.length_textBytes]

/-- A number without places lies where it is put. -/
theorem holds_put_zero (value : Int) (span : Nat)
    (fits : (Decimal.paddedDigits value.natAbs 0).length < span) {r : Ring UInt8}
    (wide : span ≤ r.size) (position : Int) :
    (Decimal.put r value 0 (position + span) position).2.Holds position (decimalBytes 0 value) := by
  have here : position + (([] : List UInt8).length : Int) = position := Int.add_zero _
  have put := Decimal.holds_put (Ring.holds_nil r position) value 0 span fits (by
    rw [List.length_nil]
    omega)
  rwa [here, List.nil_append, ← decimalBytes_zero] at put

theorem holds_signedBare (places : Nat) (mantissa : Int) (r : Ring UInt8) (position : Int) :
    (signedBare places mantissa r position).Holds position (bareBytes places mantissa) := by
  unfold signedBare bareBytes
  split
  · exact Ring.holds_cons.mpr ⟨r.get_set_self _ rfl, Ring.holds_nil _ _⟩
  · exact Ring.holds_nil _ _

theorem bareWidth_le (places : Nat) (mantissa : Int) : bareWidth places mantissa ≤ 1 := by
  unfold bareWidth
  split
  · exact Nat.le_refl 1
  · exact Nat.zero_le 1

theorem holds_withWhole (places : Nat) (mantissa : Int64) {r : Ring UInt8} (wide : 64 ≤ r.size)
    (position : Int) :
    (withWhole places mantissa.toInt r position).size = r.size ∧
      (withWhole places mantissa.toInt r position).Holds position
        (bareBytes places mantissa.toInt ++
          Decimal.textBytes (mantissa.toInt.tdiv (placesDivisor places)) 0) := by
  have digits := length_whole_le places mantissa
  have bare := bareWidth_le places mantissa.toInt
  have painted := paints_signedBare places mantissa.toInt position
  have size := painted.size r
  have put := Decimal.holds_put (holds_signedBare places mantissa.toInt r position)
    (mantissa.toInt.tdiv (placesDivisor places)) 0 21 (by omega)
    (by rw [length_bareBytes, size]; omega)
  rw [length_bareBytes] at put
  exact ⟨(Decimal.paints_put painted (mantissa.toInt.tdiv (placesDivisor places)) 0 21
    (bareWidth places mantissa.toInt) (by omega)).size r, put⟩

/-- A fixed point text lies where it is filled in. -/
theorem holds_fillDecimalText {places : Nat} (few : places ≤ maxPlaces) (mantissa : Int64)
    {r : Ring UInt8} (wide : 64 ≤ r.size) (position : Int) :
    (fillDecimalText places mantissa.toInt r position).2.Holds position
      (decimalBytes places mantissa.toInt) := by
  obtain ⟨size, held⟩ := holds_withWhole places mantissa wide position
  have bare := bareWidth_le places mantissa.toInt
  have whole : wholeWidth places mantissa.toInt ≤ 20 :=
    Decimal.textLength_le (length_whole_le places mantissa)
  have length := length_bareBytes_append_whole places mantissa.toInt
  rw [fillDecimalText_snd, decimalBytes]
  by_cases placed : 0 < places
  · have digits := length_fraction_le few mantissa.toInt
    have point := held.setList_append (m := [Decimal.point]) (by
      rw [length, size, List.length_singleton]
      omega)
    have grown : (bareBytes places mantissa.toInt ++
        Decimal.textBytes (mantissa.toInt.tdiv (placesDivisor places)) 0 ++
          [Decimal.point]).length =
        bareWidth places mantissa.toInt + wholeWidth places mantissa.toInt + 1 := by
      rw [List.length_append, length, List.length_singleton]
    have part := Decimal.holds_put point (fractionOf places mantissa.toInt) places 21 (by omega)
      (by rw [grown, Ring.size_setList, size]; omega)
    rw [grown, length, List.append_assoc, List.singleton_append] at part
    rw [if_pos placed, if_pos placed]
    exact part
  · rw [if_neg placed, if_neg placed, List.append_nil]
    exact held

end Pipe

end FragmentPipe
