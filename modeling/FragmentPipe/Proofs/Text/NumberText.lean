import FragmentPipe.Proofs.Storage.Paint
import FragmentPipe.Proofs.Transfer.Unreleased

/-!
Numbers written as text, and the bytes that this touches. `NumberText` is a number with the way it is
written. The digits and a minus sign are put together before a scratch position, so bytes behind the
text are stored too: `NumberText.Touches` tells their offsets behind the blob head. Main statement:
`text_spares_iff`, an accepted number spares the bytes that are not yet released, whatever they are,
if and only if none of the offsets goes around the ring as far as these bytes.
-/

namespace FragmentPipe

/-! ## Digits -/

namespace Decimal

/-- The offsets at which a number is stored: the text, and before the scratch position the digits
with a minus sign. -/
def Touches (value : Int) (least span k : Nat) : Prop :=
  k < textLength value least ∨
    (span - ((paddedDigits value.natAbs least).length + 1) ≤ k ∧ k < span)

theorem textLength_le_succ (value : Int) (least : Nat) :
    textLength value least ≤ (paddedDigits value.natAbs least).length + 1 := by
  unfold textLength
  split
  · exact Nat.le_refl _
  · exact Nat.le_succ _

variable {f : Ring UInt8 → Ring UInt8} {p : Int} {A : Nat → Prop}

theorem paints_putDownward (h : Ring.Paints f p A) (bytes : List UInt8) (top : Nat)
    (fits : bytes.length ≤ top) :
    Ring.Paints (fun r => (putDownward (f r) (p + top) bytes).2) p
      fun k => A k ∨ (top - bytes.length ≤ k ∧ k < top) := by
  induction bytes generalizing f A top with
  | nil => exact h.congr fun k => ⟨.inl, fun either => either.resolve_right (by simp)⟩
  | cons b bs ih =>
    simp only [List.length_cons] at fits ⊢
    have first := h.store (top - 1) (fun _ => b) fun _ _ _ => rfl
    have rest := ih first (top - 1) (by omega)
    have below : p + ((top - 1 : Nat) : Int) = p + top - 1 := by omega
    rw [below] at rest
    refine rest.congr fun k => ?_
    constructor
    · rintro ((painted | rfl) | lower)
      · exact .inl painted
      · exact .inr (by omega)
      · exact .inr (by omega)
    · rintro (painted | either)
      · exact .inl (.inl painted)
      · rcases Nat.lt_or_ge k (top - 1) with lower | highest
        · exact .inr (by omega)
        · exact .inl (.inr (by omega))

/-- What a number touches. -/
theorem paints_put (h : Ring.Paints f p A) (value : Int) (least span base : Nat)
    (fits : (paddedDigits value.natAbs least).length < span) :
    Ring.Paints (fun r => (put (f r) value least (p + base + span) (p + base)).2) p
      fun k => A k ∨ (base ≤ k ∧ Touches value least span (k - base)) := by
  have text := textLength_le_succ value least
  have digits := paints_putDownward h (paddedDigits value.natAbs least) (base + span) (by omega)
  have sign := digits.store (base + span - ((paddedDigits value.natAbs least).length + 1))
    (fun _ => minus) fun _ _ _ => rfl
  have whole := sign.shift (base + span - textLength value least) base (textLength value least)
    fun i inside => by omega
  have scratch : p + ((base + span : Nat) : Int) = p + base + span := by omega
  have before : p + ((base + span - ((paddedDigits value.natAbs least).length + 1) : Nat) : Int) =
      p + base + span - (paddedDigits value.natAbs least).length - 1 := by omega
  have source : p + ((base + span - textLength value least : Nat) : Int) =
      p + base + span - textLength value least := by omega
  rw [scratch, before, source] at whole
  simp only [put_eq]
  refine whole.congr fun k => ?_
  unfold Touches
  constructor
  · rintro (((painted | digit) | rfl) | moved)
    · exact .inl painted
    · exact .inr (by omega)
    · exact .inr (by omega)
    · exact .inr (by omega)
  · rintro (painted | ⟨behind, moved | ⟨low, high⟩⟩)
    · exact .inl (.inl (.inl painted))
    · exact .inr (by omega)
    · rcases Nat.eq_or_lt_of_le low with sign | digit
      · exact .inl (.inr (by omega))
      · exact .inl (.inl (.inr (by omega)))

/-- What a number alone touches. -/
theorem paints_alone (value : Int) (span : Nat) (position : Int)
    (fits : (paddedDigits value.natAbs 0).length < span) :
    Ring.Paints (fun r => (put r value 0 (position + span) position).2) position
      (Touches value 0 span) := by
  have here : position + ((0 : Nat) : Int) = position := Int.add_zero _
  have painted := paints_put (Ring.Paints.nothing position) value 0 span 0 fits
  rw [here] at painted
  exact painted.congr fun k => by simp

theorem lt_of_touches {value : Int} {least span k : Nat} (touched : Touches value least span k)
    (fits : (paddedDigits value.natAbs least).length < span) : k < span := by
  have text := textLength_le_succ value least
  unfold Touches at touched
  omega

end Decimal

/-! ## Numbers -/

/-- A number that is written as text: a 32 bit number, a 64 bit number, or one with decimal
places. -/
inductive NumberText where
  | int (value : Int32)
  | long (value : Int64)
  | decimal (places : Nat) (mantissa : Int64)

namespace Pipe

/-- The width of a sign that the whole part does not carry. -/
def bareWidth (places : Nat) (mantissa : Int) : Nat := if needsBareSign places mantissa then 1 else 0

/-- The width of the whole part. -/
def wholeWidth (places : Nat) (mantissa : Int) : Nat :=
  Decimal.textLength (mantissa.tdiv (placesDivisor places)) 0

/-- The digits behind the point, as a number. -/
def fractionOf (places : Nat) (mantissa : Int) : Int :=
  ((mantissa.tmod (placesDivisor places)).natAbs : Int)

/-- A blob with the sign that the whole part does not carry. -/
def signedBare (places : Nat) (mantissa : Int) (blob : Ring UInt8) (position : Int) : Ring UInt8 :=
  if needsBareSign places mantissa then ByteStore.put blob position Decimal.minus else blob

/-- A blob with the sign and the whole part. -/
def withWhole (places : Nat) (mantissa : Int) (blob : Ring UInt8) (position : Int) : Ring UInt8 :=
  (Decimal.put (signedBare places mantissa blob position) (mantissa.tdiv (placesDivisor places)) 0
    (position + bareWidth places mantissa + (21 : Nat)) (position + bareWidth places mantissa)).2

/-- The parts of a fixed point text, each at its place. -/
theorem fillDecimalText_snd (places : Nat) (mantissa : Int) (blob : Ring UInt8) (position : Int) :
    (fillDecimalText places mantissa blob position).2 =
      if 0 < places then
        (Decimal.put
          ((withWhole places mantissa blob position).set
            (position + (bareWidth places mantissa + wholeWidth places mantissa : Nat))
            Decimal.point)
          (fractionOf places mantissa) places
          (position + (bareWidth places mantissa + wholeWidth places mantissa + 1 : Nat) +
            (21 : Nat))
          (position + (bareWidth places mantissa + wholeWidth places mantissa + 1 : Nat))).2
      else withWhole places mantissa blob position := by
  have point : position + ((bareWidth places mantissa + wholeWidth places mantissa : Nat) : Int) =
      position + bareWidth places mantissa + wholeWidth places mantissa := by omega
  have behind :
      position + ((bareWidth places mantissa + wholeWidth places mantissa + 1 : Nat) : Int) =
        position + bareWidth places mantissa + wholeWidth places mantissa + 1 := by omega
  have begun : (if needsBareSign places mantissa then
      (position + 1, ByteStore.put blob position Decimal.minus) else (position, blob)) =
        (position + bareWidth places mantissa, signedBare places mantissa blob position) := by
    unfold bareWidth signedBare
    split
    · rfl
    · rw [Int.natCast_zero, Int.add_zero]
  rw [point, behind]
  unfold fillDecimalText
  rw [begun]
  simp only [Decimal.put_fst]
  split
  · rfl
  · rfl

/-- What a fixed point text touches. -/
def TouchesDecimal (places : Nat) (mantissa : Int) (k : Nat) : Prop :=
  let bare := bareWidth places mantissa
  let point := bare + wholeWidth places mantissa
  (k < bare ∨
    (bare ≤ k ∧ Decimal.Touches (mantissa.tdiv (placesDivisor places)) 0 21 (k - bare))) ∨
  (0 < places ∧ (k = point ∨
    (point + 1 ≤ k ∧ Decimal.Touches (fractionOf places mantissa) places 21 (k - (point + 1)))))

theorem paints_signedBare (places : Nat) (mantissa position : Int) :
    Ring.Paints (fun r => signedBare places mantissa r position) position
      fun k => k < bareWidth places mantissa := by
  have empty := Ring.Paints.nothing position
  unfold signedBare bareWidth
  split
  · have sign := empty.store 0 (fun _ => Decimal.minus) fun _ _ _ => rfl
    rw [Int.natCast_zero, Int.add_zero] at sign
    exact sign.congr fun k => by simp
  · exact empty.congr fun k => by simp

theorem length_fraction_le {places : Nat} (few : places ≤ maxPlaces) (mantissa : Int) :
    (Decimal.paddedDigits (fractionOf places mantissa).natAbs places).length ≤ 19 := by
  have small : (fractionOf places mantissa).natAbs < 10 ^ 19 :=
    Nat.lt_of_lt_of_le (natAbs_fraction_lt places mantissa)
      (Nat.pow_le_pow_right (by decide) (Nat.le_succ_of_le few))
  exact Decimal.length_paddedDigits_le small (Nat.le_succ_of_le few)

theorem textLength_fractionOf {places : Nat} (few : places ≤ maxPlaces) (mantissa : Int) :
    Decimal.textLength (fractionOf places mantissa) places ≤ 20 :=
  Nat.le_trans (Decimal.textLength_le_succ _ _) (Nat.succ_le_succ (length_fraction_le few mantissa))

theorem paints_fillDecimalText {places : Nat} (few : places ≤ maxPlaces) (mantissa : Int64)
    (position : Int) :
    Ring.Paints (fun r => (fillDecimalText places mantissa.toInt r position).2) position
      (TouchesDecimal places mantissa.toInt) := by
  have wholeFits := length_whole_le places mantissa
  have fractionFits := length_fraction_le few mantissa.toInt
  have whole := Decimal.paints_put (paints_signedBare places mantissa.toInt position)
    (mantissa.toInt.tdiv (placesDivisor places)) 0 21 (bareWidth places mantissa.toInt) (by omega)
  have point := whole.store (bareWidth places mantissa.toInt + wholeWidth places mantissa.toInt)
    (fun _ => Decimal.point) fun _ _ _ => rfl
  have part := Decimal.paints_put point (fractionOf places mantissa.toInt) places 21
    (bareWidth places mantissa.toInt + wholeWidth places mantissa.toInt + 1) (by omega)
  simp only [fillDecimalText_snd]
  unfold TouchesDecimal
  by_cases placed : 0 < places
  · simp only [if_pos placed]
    refine part.congr fun k => ?_
    simp only [placed, true_and, or_assoc]
  · simp only [if_neg placed]
    refine whole.congr fun k => ?_
    simp only [placed, false_and, or_false]

theorem putField_of_fits {p : Pipe} {checked : Int} {fill : Ring UInt8 → Int → Int × Ring UInt8}
    (fits : p.nextAverage checked ≤ p.store.config.maxAverage) :
    p.putField checked fill = (.ok (), { p with
      producer.average := p.nextAverage checked
      store.blob := (fill p.store.blob p.producer.blobHead).2
        }.commitField (fill p.store.blob p.producer.blobHead).1) := by
  unfold putField checkLength
  rw [if_neg (Int.not_lt.mpr fits)]

theorem putField_of_exceeds {p : Pipe} {checked : Int} {fill : Ring UInt8 → Int → Int × Ring UInt8}
    (exceeds : p.store.config.maxAverage < p.nextAverage checked) :
    (p.putField checked fill).1.isOk = false := by
  unfold putField checkLength
  rw [if_pos exceeds]
  rfl

end Pipe

namespace NumberText

/-- The field that the number is written as. -/
def made : NumberText → Made
  | int value => .intText value
  | long value => .longText value
  | decimal places mantissa => .decimalText places mantissa

/-- The length that is checked before the number is written. -/
def checked : NumberText → Int
  | int _ => Pipe.intTextSpan
  | long _ => Pipe.longTextSpan
  | decimal places mantissa => Pipe.decimalTextLength places mantissa.toInt

/-- The blob after the number is written at a position. -/
def fill (n : NumberText) (blob : Ring UInt8) (position : Int) : Ring UInt8 :=
  match n with
  | int value => (Decimal.put blob value.toInt 0 (position + Pipe.intTextSpan) position).2
  | long value => (Decimal.put blob value.toInt 0 (position + Pipe.longTextSpan) position).2
  | decimal places mantissa => (Pipe.fillDecimalText places mantissa.toInt blob position).2

/-- The offsets behind the blob head at which the number is stored. -/
def Touches (n : NumberText) (k : Nat) : Prop :=
  match n with
  | int value => Decimal.Touches value.toInt 0 12 k
  | long value => Decimal.Touches value.toInt 0 21 k
  | decimal places mantissa => Pipe.TouchesDecimal places mantissa.toInt k

/-- Whether the average stays within its limit and there are not too many places. -/
def Allowed (n : NumberText) (p : Pipe) : Prop :=
  (∀ places mantissa, n = decimal places mantissa → places ≤ Pipe.maxPlaces) ∧
    p.nextAverage n.checked ≤ p.store.config.maxAverage

/-- The pipe after the number is accepted. -/
def after (n : NumberText) (p : Pipe) : Pipe :=
  { p with
    producer.average := p.nextAverage n.checked
    store.blob := n.fill p.store.blob p.producer.blobHead }.commitField n.made.length

variable {p q : Pipe} {n : NumberText}

/-- A number is accepted if it is allowed: it is checked, written behind the blob head and
committed. -/
theorem put_made (allowed : n.Allowed p) : n.made.put p = (.ok (), n.after p) := by
  obtain ⟨few, fits⟩ := allowed
  cases n with
  | int value =>
    show p.putIntText value = _
    have fits : p.nextAverage Pipe.intTextSpan ≤ p.store.config.maxAverage := fits
    rw [Pipe.putIntText, Pipe.putField_of_fits fits]
    simp only [Decimal.put_fst]
    rfl
  | long value =>
    show p.putLongText value = _
    have fits : p.nextAverage Pipe.longTextSpan ≤ p.store.config.maxAverage := fits
    rw [Pipe.putLongText, Pipe.putField_of_fits fits]
    simp only [Decimal.put_fst]
    rfl
  | decimal places mantissa =>
    have enough : ¬Pipe.maxPlaces < places := Nat.not_lt.mpr (few places mantissa rfl)
    have length :
        (Pipe.fillDecimalText places mantissa.toInt p.store.blob p.producer.blobHead).1 -
          p.producer.blobHead = Pipe.decimalTextLength places mantissa.toInt := by
      rw [Pipe.fillDecimalText_fst]
      omega
    show p.putDecimalText places mantissa = _
    have fits : p.nextAverage (Pipe.decimalTextLength places mantissa.toInt) ≤
      p.store.config.maxAverage := fits
    rw [Pipe.putDecimalText, if_neg enough, Pipe.putField_of_fits fits]
    dsimp only
    rw [length]
    rfl

/-- No other number is accepted. -/
theorem allowed_of_put (accepted : n.made.put p = (.ok (), q)) : n.Allowed p := by
  have fine : (n.made.put p).1.isOk = true := congrArg (fun answer => answer.1.isOk) accepted
  refine ⟨?_, ?_⟩
  · rintro places mantissa rfl
    change (p.putDecimalText places mantissa).1.isOk = true at fine
    unfold Pipe.putDecimalText at fine
    split at fine
    · cases fine
    · next few => exact Nat.not_lt.mp few
  · refine Int.not_lt.mp fun exceeds => ?_
    cases n with
    | int value => exact absurd ((Pipe.putField_of_exceeds exceeds).symm.trans fine) (by decide)
    | long value => exact absurd ((Pipe.putField_of_exceeds exceeds).symm.trans fine) (by decide)
    | decimal places mantissa =>
      change (p.putDecimalText places mantissa).1.isOk = true at fine
      unfold Pipe.putDecimalText at fine
      split at fine
      · cases fine
      · exact absurd ((Pipe.putField_of_exceeds exceeds).symm.trans fine) (by decide)

/-! ## What a number touches -/

theorem paints_fill {position : Int} (allowed : n.Allowed p) :
    Ring.Paints (fun r => n.fill r position) position n.Touches := by
  cases n with
  | int value =>
    have digits := Decimal.length_int_le value
    exact Decimal.paints_alone value.toInt 12 position (by omega)
  | long value =>
    have digits := Decimal.length_long_le value
    exact Decimal.paints_alone value.toInt 21 position (by omega)
  | decimal places mantissa =>
    have few := allowed.1 places mantissa rfl
    exact Pipe.paints_fillDecimalText few mantissa position

/-- No offset lies out of reach. -/
theorem lt_reach_of_touches {k : Nat} (allowed : n.Allowed p) (touched : n.Touches k) :
    k < n.made.reach := by
  cases n with
  | int value =>
    have digits := Decimal.length_int_le value
    show k < 12
    exact Decimal.lt_of_touches touched (by omega)
  | long value =>
    have digits := Decimal.length_long_le value
    show k < 21
    exact Decimal.lt_of_touches touched (by omega)
  | decimal places mantissa =>
    have whole := Decimal.textLength_le (Pipe.length_whole_le places mantissa)
    have fraction := Pipe.textLength_fractionOf (allowed.1 places mantissa rfl) mantissa.toInt
    change Pipe.TouchesDecimal places mantissa.toInt k at touched
    show k < Pipe.decimalTextSpan places mantissa.toInt
    unfold Pipe.TouchesDecimal Decimal.Touches Pipe.bareWidth Pipe.wholeWidth at touched
    unfold Pipe.decimalTextSpan
    by_cases placed : 0 < places
    · rw [if_pos placed]
      omega
    · rw [if_neg placed]
      omega

/-- The last digit is put down where the reach ends. -/
theorem touches_last (n : NumberText) : n.Touches (n.made.reach - 1) := by
  cases n with
  | int value => exact .inr (by show _ ≤ 12 - 1 ∧ 12 - 1 < 12; omega)
  | long value => exact .inr (by show _ ≤ 21 - 1 ∧ 21 - 1 < 21; omega)
  | decimal places mantissa =>
    show Pipe.TouchesDecimal places mantissa.toInt (Pipe.decimalTextSpan places mantissa.toInt - 1)
    unfold Pipe.TouchesDecimal Decimal.Touches Pipe.decimalTextSpan Pipe.bareWidth Pipe.wholeWidth
    by_cases placed : 0 < places
    · rw [if_pos placed]
      exact .inr ⟨placed, .inr ⟨by omega, .inr (by omega)⟩⟩
    · rw [if_neg placed]
      exact .inl (.inr ⟨by omega, .inr (by omega)⟩)

/-! ## Unreleased bytes -/

/-- Whatever the blob holds, the number leaves the bytes from `released` up to `reached` as they
are. -/
def Spares (n : NumberText) (p : Pipe) (released reached : Int) : Prop :=
  ∀ blob : Ring UInt8, blob.size = p.store.blob.size → ∀ x, released ≤ x → x < reached →
    (n.made.put { p with store.blob := blob }).2.store.blob.get x = blob.get x

variable {released reached : Int}

theorem spares_iff_touches (u : p.Unreleased released reached) (allowed : n.Allowed p) :
    n.Spares p released reached ↔
      ∀ k, n.Touches k →
        ((k % p.store.blob.size : Nat) : Int) + (reached - released) < p.store.blob.size := by
  rw [← (paints_fill allowed).spares_iff u.head]
  unfold Spares
  refine forall_congr' fun blob => ?_
  have same : n.made.put { p with store.blob := blob } =
      (.ok (), n.after { p with store.blob := blob }) := put_made allowed
  rw [same]
  rfl

/-- An accepted number spares the unreleased bytes, whatever they are, exactly if none of the offsets
that it touches goes around the ring as far as they lie. Where the ring has as many bytes as the number
reaches, this asks for room for all of its reach, not only for its text. -/
theorem text_spares_iff (u : p.Unreleased released reached) (accepted : n.made.put p = (.ok (), q)) :
    (n.Spares p released reached ↔
      ∀ k, n.Touches k →
        ((k % p.store.blob.size : Nat) : Int) + (reached - released) < p.store.blob.size) ∧
    (n.made.reach ≤ p.store.blob.size →
      (n.Spares p released reached ↔
        reached - released + n.made.reach ≤ p.store.blob.size)) ∧
    (n.Spares p released reached →
      ∀ x, released ≤ x → x < reached → q.store.blob.get x = p.store.blob.get x) := by
  have allowed := allowed_of_put accepted
  have touches := spares_iff_touches u allowed
  refine ⟨touches, ?_, ?_⟩
  · intro fits
    rw [touches]
    constructor
    · intro clear
      have last := clear _ n.touches_last
      have positive := p.store.blob.size_pos
      rw [Nat.mod_eq_of_lt (by omega)] at last
      omega
    · intro room k touched
      have near := lt_reach_of_touches allowed touched
      rw [Nat.mod_eq_of_lt (by omega)]
      omega
  · intro spared
    have kept := spared p.store.blob rfl
    rwa [accepted] at kept

/-- Behind 52 bytes of 64 a 32 bit number is safe, behind 53 it is not. -/
theorem text_spares_iff_sample :
    ∃ s t, play anyCall (Session.start notePipe) (noteSample 52) = some s ∧
      play anyCall (Session.start notePipe) (noteSample 53) = some t ∧
      (int 7).Spares s.pipe 0 52 ∧ ¬(int 7).Spares t.pipe 0 53 := by
  have evaluated : ∀ count ∈ [52, 53],
      (play anyCall (Session.start notePipe) (noteSample count)).any fun s =>
        s.blobAt s.released = 0 ∧
        s.blobAt s.written.length + (s.current.taken : Int) = (count : Int) ∧
        s.pipe.store.blob.size = 64 ∧ ((int 7).made.put s.pipe).1.isOk = true := by decide +kernel
  obtain ⟨s, played, checked⟩ := (Option.any_eq_true ..).mp (evaluated 52 (by decide))
  obtain ⟨t, played', checked'⟩ := (Option.any_eq_true ..).mp (evaluated 53 (by decide))
  obtain ⟨low, high, size, fine⟩ := of_decide_eq_true checked
  obtain ⟨low', high', size', fine'⟩ := of_decide_eq_true checked'
  have u := Session.unreleased_of_reaches (.opened open?_note) (Reaches.of_play played)
  have u' := Session.unreleased_of_reaches (.opened open?_note) (Reaches.of_play played')
  rw [low, high] at u
  rw [low', high'] at u'
  obtain ⟨-, room, -⟩ := text_spares_iff u (Prod.ext (eq_ok_of_isOk fine) rfl)
  obtain ⟨-, room', -⟩ := text_spares_iff u' (Prod.ext (eq_ok_of_isOk fine') rfl)
  rw [size] at room
  rw [size'] at room'
  refine ⟨s, t, played, played', (room (by decide)).mpr (by decide), ?_⟩
  exact fun spared => absurd ((room' (by decide)).mp spared) (by decide)

/-- Behind 60 unreleased bytes of 64 there is room for the one digit of the number seven, but to write
it as text changes unreleased bytes. -/
theorem overwrites_unreleased :
    (play anyCall (Session.start notePipe) (noteSample 60)).any fun s =>
      s.released = 0 ∧ s.blobAt s.written.length + (s.current.taken : Int) = 60 ∧
      ∀ n ∈ [int 7, long 7, decimal 0 7],
        (n.made.put s.pipe).1.isOk = true ∧ 60 + n.made.length ≤ s.pipe.store.blob.size ∧
        ∃ x ∈ List.range 60,
          (n.made.put s.pipe).2.store.blob.get x ≠ s.pipe.store.blob.get x := by
  decide +kernel

end NumberText

end FragmentPipe
