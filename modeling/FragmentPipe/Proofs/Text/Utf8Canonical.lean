import FragmentPipe.Proofs.Transfer.Reading

/-!
Bytes that no encoder need have written. `readContinuations_of_all` and `readContinuations_broken`
say what the continuation bytes of a form come to, and `Lead.ofByte_opens` what a lead byte may be.
Main statement: `canonical_iff`, a value is decoded from the bytes that its encoder stores exactly
if its lead is no continuation byte and no form of another length would do. The decoder asks for
neither: `accepts_malformed` has a form for each way in which the two part.
-/

namespace FragmentPipe.Utf8

section Store

variable {σ : Type} [ByteStore σ] {s : σ}

/-! ## The continuation bytes -/

/-- The bytes that a step passes are those that the lead announces, whatever they are. -/
theorem width_readContinuations (s : σ) (start : Int) (offset bits count : Nat) :
    (readContinuations s start offset bits count).width = offset + count + 1 := by
  induction count generalizing offset bits with
  | zero => rfl
  | succ count ih =>
    rw [readContinuations]
    split
    · rw [ih]
      omega
    · rfl

theorem getList_succ (s : σ) (p : Int) (count : Nat) :
    ByteStore.getList s p (count + 1) =
      ByteStore.get s p :: ByteStore.getList s (p + 1) count := by
  simp only [ByteStore.getList, List.range_succ_eq_map, List.map_cons, List.map_map,
    Int.natCast_zero, Int.add_zero, List.cons.injEq, true_and]
  apply List.map_congr_left
  intro k _
  show ByteStore.get s (p + ((k + 1 : Nat) : Int)) = ByteStore.get s (p + 1 + k)
  congr 1
  omega

/-- A continuation byte is told by its low six bits. -/
theorem continuation_eq {byte : UInt8} {value place : Nat} (form : isContinuation byte = true)
    (low : value >>> (6 * place) % 64 = byte.toNat % 64) : continuation value place = byte := by
  have high : byte.toNat / 64 = 2 := by simpa [isContinuation] using form
  have whole : 0x80 + byte.toNat % 64 = byte.toNat := by omega
  rw [continuation, low, whole, UInt8.ofNat_toNat]

/-- Where all announced bytes are continuation bytes, they are those of the value. -/
theorem readContinuations_of_all (folds : Folds s) (start : Int) (offset bits count : Nat)
    (all : ∀ i < count,
      isContinuation (ByteStore.get s (start + (offset + 1 + i : Nat))) = true) :
    (readContinuations s start offset bits count).value >>> (6 * count) = bits ∧
      ByteStore.getList s (start + (offset + 1 : Nat)) count =
        continuations (readContinuations s start offset bits count).value count := by
  induction count generalizing offset bits with
  | zero => exact ⟨rfl, rfl⟩
  | succ count ih =>
    have first : isContinuation (ByteStore.get s (start + (offset + 1 : Nat))) = true :=
      all 0 (Nat.succ_pos _)
    have byte : ByteStore.get s ((start + (offset + 1 : Nat)) % wordSpan) =
        ByteStore.get s (start + (offset + 1 : Nat)) := folds _
    have rest : ∀ i < count,
        isContinuation (ByteStore.get s (start + (offset + 1 + 1 + i : Nat))) = true := by
      intro i inside
      have next := all (i + 1) (by omega)
      rwa [show offset + 1 + (i + 1) = offset + 1 + 1 + i by omega] at next
    have place : start + ((offset + 1 : Nat) : Int) + 1 = start + (offset + 1 + 1 : Nat) := by omega
    rw [readContinuations, getList_succ, place]
    simp only [byte, first, if_true]
    generalize ByteStore.get s (start + (offset + 1 : Nat)) = b at first
    obtain ⟨shifted, bytes⟩ := ih (offset + 1) (bits * 64 + b.toNat % 64) rest
    -- six bits more of the value are those of the byte, the rest is what the lead gave
    have split := shiftRight_split
      (readContinuations s start (offset + 1) (bits * 64 + b.toNat % 64) count).value count
    rw [bytes, continuations]
    refine ⟨by omega, ?_⟩
    rw [continuation_eq first (by omega)]

/-- An announced byte of another form breaks the whole form. -/
theorem readContinuations_broken (folds : Folds s) {start : Int} (count : Nat) {offset bits k : Nat}
    (inside : k < count)
    (other : isContinuation (ByteStore.get s (start + (offset + 1 + k : Nat))) = false) :
    (readContinuations s start offset bits count).value = replacement := by
  induction count generalizing offset bits k with
  | zero => exact absurd inside (Nat.not_lt_zero k)
  | succ count ih =>
    rw [readContinuations]
    split
    · next first =>
      cases k with
      | zero =>
        rw [folds] at first
        exact absurd (first.symm.trans other) Bool.true_eq_false.mp
      | succ k =>
        apply ih (k := k) (by omega)
        rwa [show offset + 1 + 1 + k = offset + 1 + (k + 1) by omega]
    · rfl

end Store

/-! ## The lead byte -/

/-- A lead byte is a mark with the first bits of the value, unless it is a continuation byte that
passes for one. -/
theorem Lead.ofByte_opens {byte : UInt8} {bits count : Nat}
    (lead : Lead.ofByte byte = .opens bits count) (plain : isContinuation byte = false) :
    ∃ mark bound, Mark mark count bound ∧ bits < bound ∧ byte = UInt8.ofNat (mark + bits) := by
  have range := byte.toNat_lt
  have high : byte.toNat / 64 ≠ 2 := by simpa [isContinuation] using plain
  have whole (mark : Nat) (same : byte.toNat = mark + bits) : byte = UInt8.ofNat (mark + bits) := by
    rw [← same, UInt8.ofNat_toNat]
  simp only [Lead.ofByte] at lead
  repeat' split at lead
  all_goals cases lead
  · exact ⟨_, _, .two, by omega, whole _ (by omega)⟩
  · exact ⟨_, _, .three, by omega, whole _ (by omega)⟩
  · exact ⟨_, _, .four, by omega, whole _ (by omega)⟩
  · exact ⟨_, _, .five, by omega, whole _ (by omega)⟩
  · exact ⟨_, _, .six, by omega, whole _ (by omega)⟩

theorem Lead.ofByte_single {byte : UInt8} {value : Nat} (lead : Lead.ofByte byte = .single value) :
    value = byte.toNat ∧ value < 0x80 := by
  simp only [Lead.ofByte] at lead
  repeat' split at lead
  all_goals cases lead
  exact ⟨rfl, ‹_›⟩

/-- A value whose announced length is that of a mark has the form of that mark. -/
theorem Mark.encode? {mark count bound value : Nat} (h : Mark mark count bound)
    (told : encodedLength? value = some (count + 1)) :
    Utf8.encode? value = some (form mark count value) := by
  unfold encodedLength? at told
  unfold Utf8.encode?
  cases h <;> (repeat' split at told) <;> cases told <;> (repeat' split) <;> first | rfl | omega

theorem isContinuation_ofNat {n : Nat} (fits : n < 256) (high : n / 64 ≠ 2) :
    isContinuation (UInt8.ofNat n) = false := by
  have byte : (UInt8.ofNat n).toNat = n := UInt8.toNat_ofNat_of_lt fits
  rw [isContinuation, byte]
  exact beq_eq_false_iff_ne.mpr high

theorem Mark.isContinuation {mark count bound top : Nat} (h : Mark mark count bound)
    (small : top < bound) : Utf8.isContinuation (UInt8.ofNat (mark + top)) = false := by
  have fits : mark + top < 256 := by cases h <;> omega
  have high : (mark + top) / 64 ≠ 2 := by cases h <;> omega
  exact isContinuation_ofNat fits high

/-- No encoded value begins with a continuation byte. -/
theorem isContinuation_head {value : Nat} {byte : UInt8} {rest : List UInt8}
    (encoded : encode? value = some (byte :: rest)) : isContinuation byte = false := by
  have shift (k : Nat) : value >>> k = value / 2 ^ k := Nat.shiftRight_eq_div_pow value k
  unfold encode? at encoded
  split at encoded
  · cases encoded
    exact isContinuation_ofNat (by rw [shift]; omega) (by rw [shift]; omega)
  · repeat' split at encoded
    all_goals cases encoded
    · exact Mark.two.isContinuation (by rw [shift]; omega)
    · rfl
    · exact Mark.three.isContinuation (by rw [shift]; omega)
    · exact Mark.four.isContinuation (by rw [shift]; omega)
    · exact Mark.five.isContinuation (by rw [shift]; omega)
    · exact Mark.six.isContinuation (by rw [shift]; omega)

/-! ## A step -/

section Store

variable {σ : Type} [ByteStore σ] {s : σ}

/-- A form with a byte of another form among those announced is broken. -/
theorem decodeStep_broken (folds : Folds s) {p : Int} {k : Nat} (behind : 0 < k)
    (inside : k < (decodeStep s p).width)
    (other : isContinuation (ByteStore.get s (p + k)) = false) :
    (decodeStep s p).value = replacement := by
  unfold decodeStep at inside ⊢
  cases lead : Lead.ofByte (ByteStore.get s p) with
  | single value =>
    rw [lead] at inside
    exact absurd inside (by simp only; omega)
  | opens bits count =>
    simp only [lead, width_readContinuations] at inside
    apply readContinuations_broken folds (k := k - 1) count (by omega)
    rwa [show 0 + 1 + (k - 1) = k by omega]
  | stray extra => rfl

/-- What a step makes of a lead that announces continuation bytes of the right form. -/
theorem decodeStep_of_opens (folds : Folds s) {p : Int} {bits count : Nat}
    (lead : Lead.ofByte (ByteStore.get s p) = .opens bits count)
    (all : ∀ i < count, isContinuation (ByteStore.get s (p + (1 + i : Nat))) = true) :
    (decodeStep s p).value >>> (6 * count) = bits ∧
      ByteStore.getList s p (count + 1) =
        ByteStore.get s p :: continuations (decodeStep s p).value count := by
  obtain ⟨top, bytes⟩ := readContinuations_of_all folds p 0 bits count
    (by simpa only [Nat.zero_add] using all)
  have step : decodeStep s p = readContinuations s p 0 bits count := by rw [decodeStep, lead]
  rw [step, getList_succ]
  exact ⟨top, congrArg _ bytes⟩

/-- A step from a lead of its own and over bytes of the right form has passed the bytes that the
encoder stores for its value, if these are as many. -/
theorem encode?_decodeStep (folds : Folds s) {p : Int}
    (known : (decodeStep s p).value ≠ replacement)
    (lead : isContinuation (ByteStore.get s p) = false)
    (told : encodedLength? (decodeStep s p).value = some (decodeStep s p).width) :
    encode? (decodeStep s p).value =
      some (ByteStore.getList s p (decodeStep s p).width) := by
  cases first : Lead.ofByte (ByteStore.get s p) with
  | single value =>
    obtain ⟨rfl, small⟩ := Lead.ofByte_single first
    have step : decodeStep s p = ⟨1, (ByteStore.get s p).toNat, [], Nat.one_pos⟩ := by
      rw [decodeStep, first]
    rw [step, getList_succ]
    show encode? (ByteStore.get s p).toNat = some [ByteStore.get s p]
    rw [encode?, if_pos (by omega)]
    simp [form, continuations]
  | opens bits count =>
    have width : (decodeStep s p).width = count + 1 := by
      rw [decodeStep, first, width_readContinuations, Nat.zero_add]
    have all : ∀ i < count, isContinuation (ByteStore.get s (p + (1 + i : Nat))) = true := by
      intro i inside
      apply Bool.of_not_eq_false
      exact fun other => known (decodeStep_broken folds (by omega) (by omega) other)
    obtain ⟨top, bytes⟩ := decodeStep_of_opens folds first all
    obtain ⟨mark, bound, marked, -, byte⟩ := Lead.ofByte_opens first lead
    rw [width] at told ⊢
    rw [marked.encode? told, bytes, form, top, ← byte]
  | stray extra =>
    exact absurd (by rw [decodeStep, first]; rfl) known

/-- A value that is decoded, and is not the replacement character, is decoded from the very bytes
that the encoder stores for it exactly if the lead is no continuation byte and the value has no form
of another length. A form with a byte of another kind among those announced, and a lead that
announces nothing, give the replacement character. -/
theorem canonical_iff (σ : Type) [ByteStore σ] (s : σ) (folds : Folds s) (p : Int) :
    ((decodeStep s p).value ≠ replacement →
      (encode? (decodeStep s p).value =
          some (ByteStore.getList s p (decodeStep s p).width) ↔
        isContinuation (ByteStore.get s p) = false ∧
          encodedLength? (decodeStep s p).value = some (decodeStep s p).width)) ∧
    (∀ k, 0 < k → k < (decodeStep s p).width →
      isContinuation (ByteStore.get s (p + k)) = false → (decodeStep s p).value = replacement) ∧
    (∀ extra, Lead.ofByte (ByteStore.get s p) = .stray extra →
      (decodeStep s p).value = replacement) := by
  refine ⟨fun known => ⟨fun encoded => ⟨?lead, ?told⟩, ?back⟩, ?broken, ?stray⟩
  case lead =>
    obtain ⟨count, width⟩ := Nat.exists_eq_add_of_lt (decodeStep s p).width_pos
    rw [width, Nat.zero_add, getList_succ] at encoded
    exact isContinuation_head encoded
  case told =>
    rw [← length_encode, encoded, Option.map_some, ByteStore.length_getList]
  case back =>
    rintro ⟨lead, told⟩
    exact encode?_decodeStep folds known lead told
  case broken =>
    exact fun k behind inside other => decodeStep_broken folds behind inside other
  case stray =>
    intro extra first
    rw [decodeStep, first]
    rfl

end Store

/-- A character in its own form, a form that is broken after its lead, and a lead that announces
nothing. -/
theorem canonical_iff_sample :
    let bytes : Buffer := #[0xE4, 0xB8, 0xAD, 0xE4, 0x41, 0x42, 0x80, 0x41]
    encode? 0x4E2D = some (ByteStore.getList bytes 0 3) ∧
      (decodeStep bytes 3).value = replacement ∧ (decodeStep bytes 6).value = replacement := by
  intro bytes
  have folds := Pipe.folds_buffer bytes
  have value : (decodeStep bytes 0).value = 0x4E2D := by decide +kernel
  have width : (decodeStep bytes 0).width = 3 := by decide +kernel
  have encoded := ((canonical_iff Buffer bytes folds 0).1 (by rw [value]; decide)).mpr
    (by rw [value, width]; decide +kernel)
  rw [value, width] at encoded
  exact ⟨encoded,
    (canonical_iff Buffer bytes folds 3).2.1 1 (by decide) (by decide +kernel) (by decide +kernel),
    (canonical_iff Buffer bytes folds 6).2.2 1 (by decide +kernel)⟩

/-- Bytes that are decoded to a value although its encoder stores others: a form that is too long, a
surrogate, a continuation byte that passes for a lead, and the last value of four bytes, which the
encoder writes in five. -/
theorem accepts_malformed :
    ((decodeStep (#[0xC0, 0x80] : Buffer) 0).value, (decodeStep (#[0xC0, 0x80] : Buffer) 0).width) =
        (0, 2) ∧ encode? 0 = some [0] ∧
    ((decodeStep (#[0xED, 0xA0, 0x80] : Buffer) 0).value,
        (decodeStep (#[0xED, 0xA0, 0x80] : Buffer) 0).width) = (0xD800, 3) ∧
      encode? 0xD800 = some [0x3F] ∧
    ((decodeStep (#[0xA4, 0xB8, 0xAD] : Buffer) 0).value,
        (decodeStep (#[0xA4, 0xB8, 0xAD] : Buffer) 0).width) = (0x4E2D, 3) ∧
      encode? 0x4E2D = some [0xE4, 0xB8, 0xAD] ∧
    ((decodeStep (#[0xF7, 0xBF, 0xBF, 0xBF] : Buffer) 0).value,
        (decodeStep (#[0xF7, 0xBF, 0xBF, 0xBF] : Buffer) 0).width) = (0x1FFFFF, 4) ∧
      encode? 0x1FFFFF = some [0xF8, 0x87, 0xBF, 0xBF, 0xBF] := by
  decide +kernel

end FragmentPipe.Utf8
