import FragmentPipe.Proofs.Text.Utf8Canonical
import FragmentPipe.Proofs.Transfer.Session
import FragmentPipe.Stream.FieldView

/-!
What the text of a field depends on. The width of a step is told by its lead byte, so two places
that agree on the bytes of a field are decoded in the same steps; only the last one can pass the end
of the field, and its value is then made of bytes that lie outside. `overrun?` is that value. Main
statement: `text_same_iff`, for every way of reading a field as text. Two texts of the same bytes
differ exactly where those values are different characters, and a text is that of its own bytes
exactly where the value is the replacement character.
-/

namespace FragmentPipe.Utf8

/-- The bytes that a lead byte and what it announces take. -/
def Lead.width : Lead → Nat
  | single _ => 1
  | opens _ count => count + 1
  | stray extra => extra + 1

section Store

variable {σ τ : Type} [ByteStore σ] [ByteStore τ] {s : σ} {t : τ}

/-- The value of the step that passes the end of `length` bytes. -/
def overrun? (s : σ) (position : Int) (length : Nat) : Option Nat :=
  if length = 0 then none
  else
    let step := decodeStep s position
    if length < step.width then some step.value
    else overrun? s (step.next position) (length - step.width)
termination_by length
decreasing_by
  have progress : 0 < (decodeStep s position).width := (decodeStep s position).width_pos
  omega

/-- Two places have the same bytes from `p` and from `q` on. -/
def SameBytes (s : σ) (p : Int) (t : τ) (q : Int) (length : Nat) : Prop :=
  ∀ i : Nat, i < length → ByteStore.get s (p + i) = ByteStore.get t (q + i)

instance (s : σ) (p : Int) (t : τ) (q : Int) (length : Nat) :
    Decidable (SameBytes s p t q length) :=
  inferInstanceAs (Decidable (∀ i : Nat, i < length →
    ByteStore.get s (p + i) = ByteStore.get t (q + i)))

theorem SameBytes.head {p q : Int} {length : Nat} (same : SameBytes s p t q length)
    (nonempty : 0 < length) : ByteStore.get s p = ByteStore.get t q := by
  simpa using same 0 nonempty

theorem SameBytes.mono {p q : Int} {length shorter : Nat} (same : SameBytes s p t q length)
    (less : shorter ≤ length) : SameBytes s p t q shorter :=
  fun i inside => same i (by omega)

/-- What is left of the bytes lies behind those passed, whether or not the positions are folded. -/
theorem SameBytes.drop (folds : Folds s) (folds' : Folds t) {p q : Int} {length : Nat}
    (same : SameBytes s p t q length) (count : Nat) :
    SameBytes s ((p + count) % wordSpan) t ((q + count) % wordSpan) (length - count) := by
  intro i inside
  have rest := same (count + i) (by omega)
  rw [← folds, ← folds' (_ + _), Int.emod_add_emod, Int.emod_add_emod, folds, folds']
  have left : p + count + (i : Int) = p + ((count + i : Nat) : Int) := by omega
  have right : q + count + (i : Int) = q + ((count + i : Nat) : Int) := by omega
  rw [left, right, rest]

/-! ## A step -/

theorem width_decodeStep (s : σ) (p : Int) :
    (decodeStep s p).width = (Lead.ofByte (ByteStore.get s p)).width := by
  unfold decodeStep
  cases Lead.ofByte (ByteStore.get s p) with
  | single value => rfl
  | opens bits count => rw [width_readContinuations, Nat.zero_add]; rfl
  | stray extra => rfl

theorem readContinuations_congr (folds : Folds s) (folds' : Folds t) {p q : Int} (count : Nat)
    {offset bits : Nat} (same : SameBytes s p t q (offset + count + 1)) :
    (readContinuations s p offset bits count).value =
      (readContinuations t q offset bits count).value := by
  induction count generalizing offset bits with
  | zero => rfl
  | succ count ih =>
    have byte : ByteStore.get s ((p + (offset + 1 : Nat)) % wordSpan) =
        ByteStore.get t ((q + (offset + 1 : Nat)) % wordSpan) := by
      rw [folds, folds']
      exact same (offset + 1) (by omega)
    rw [readContinuations, readContinuations]
    simp only [byte]
    split
    · exact ih (same.mono (by omega))
    · rfl

/-- A step over bytes that two places have in common gives the same value in both. -/
theorem value_decodeStep (folds : Folds s) (folds' : Folds t) {p q : Int}
    (same : SameBytes s p t q (decodeStep s p).width) :
    (decodeStep s p).value = (decodeStep t q).value := by
  have lead := same.head (decodeStep s p).width_pos
  rw [width_decodeStep] at same
  unfold decodeStep
  rw [← lead]
  cases first : Lead.ofByte (ByteStore.get s p) with
  | single value => rfl
  | opens bits count =>
    rw [first] at same
    exact readContinuations_congr folds folds' count (by rwa [Nat.zero_add])
  | stray extra => rfl

/-! ## A field -/

/-- Two places that agree on the bytes of a field give the same values, but for one that is made of
bytes behind the field in both. -/
theorem decodeRun_congr (folds : Folds s) (folds' : Folds t) {p q : Int} {length : Nat}
    (same : SameBytes s p t q length) :
    (overrun? s p length).isSome = (overrun? t q length).isSome ∧
      ∃ front, (decodeRun s p length).1 = front ++ (overrun? s p length).toList ∧
        (decodeRun t q length).1 = front ++ (overrun? t q length).toList := by
  induction length using Nat.strongRecOn generalizing p q with
  | ind length ih =>
    by_cases empty : length = 0
    · subst empty
      refine ⟨by simp [overrun?], [], ?_, ?_⟩ <;> simp [decodeRun, overrun?]
    have widths : (decodeStep s p).width = (decodeStep t q).width := by
      rw [width_decodeStep, width_decodeStep, same.head (by omega)]
    have progress := (decodeStep s p).width_pos
    rw [decodeRun, decodeRun, overrun?, overrun?, if_neg empty, if_neg empty, if_neg empty,
      if_neg empty]
    simp only [← widths]
    by_cases beyond : length < (decodeStep s p).width
    · have done : length - (decodeStep s p).width = 0 := by omega
      simp only [if_pos beyond, done, Option.isSome_some, true_and]
      refine ⟨[], ?_, ?_⟩ <;> simp [decodeRun]
    · have value := value_decodeStep folds folds' (same.mono (by omega))
      obtain ⟨both, front, left, right⟩ := ih (length - (decodeStep s p).width) (by omega)
        (same.drop folds folds' (decodeStep s p).width)
      simp only [if_neg beyond, Step.next, ← widths]
      refine ⟨both, (decodeStep s p).value :: front, ?_, ?_⟩
      · rw [left, List.cons_append]
      · rw [right, ← value, List.cons_append]

/-- A form that passes the end of a field is broken by the next byte unless that is a continuation
byte. -/
theorem overrun?_broken (folds : Folds s) {p : Int} {length value : Nat}
    (behind : isContinuation (ByteStore.get s (p + length)) = false)
    (passes : overrun? s p length = some value) : value = replacement := by
  induction length using Nat.strongRecOn generalizing p with
  | ind length ih =>
    rw [overrun?] at passes
    by_cases empty : length = 0
    · rw [if_pos empty] at passes
      cases passes
    rw [if_neg empty] at passes
    simp only at passes
    have progress := (decodeStep s p).width_pos
    by_cases beyond : length < (decodeStep s p).width
    · rw [if_pos beyond, Option.some.injEq] at passes
      rw [← passes]
      exact decodeStep_broken folds (by omega) beyond behind
    · rw [if_neg beyond] at passes
      apply ih (length - (decodeStep s p).width) (by omega) _ passes
      have place : p + ((decodeStep s p).width : Int) +
          ((length - (decodeStep s p).width : Nat) : Int) = p + (length : Int) := by omega
      rw [Step.next, ← folds, Int.emod_add_emod, folds, place]
      exact behind

end Store

/-! ## Texts -/

/-- The text of bytes that lie in a place. -/
def textOf {σ : Type} [ByteStore σ] (s : σ) (p : Int) (length : Nat) : String :=
  toText (decodeRun s p length).1

/-- The text of bytes with nothing behind them. -/
def textAlone (bytes : List UInt8) : String := textOf (bytes.toArray : Buffer) 0 bytes.length

theorem toText_append (a b : List Nat) : toText (a ++ b) = toText a ++ toText b := by
  rw [toText, List.map_append, String.ofList_append]
  rfl

theorem toText_toList_inj {a b : Option Nat} :
    toText a.toList = toText b.toList ↔ a.map toChar = b.map toChar := by
  rw [toText, toText, String.ofList_inj]
  cases a <;> cases b <;> simp

/-- Two texts of the same bytes are the same exactly if the values that are not made of these bytes
alone are. -/
theorem textOf_congr {σ τ : Type} [ByteStore σ] [ByteStore τ] {s : σ} {t : τ} (folds : Folds s)
    (folds' : Folds t) {p q : Int} {length : Nat} (same : SameBytes s p t q length) :
    textOf s p length = textOf t q length ↔
      (overrun? s p length).map toChar = (overrun? t q length).map toChar := by
  obtain ⟨-, front, left, right⟩ := decodeRun_congr folds folds' same
  rw [textOf, textOf, left, right, toText_append, toText_append, ← toText_toList_inj]
  exact String.append_right_inj (toText front)

/-- Bytes of a place are the same as those of a buffer that holds nothing else. -/
theorem sameBytes_alone {σ : Type} [ByteStore σ] (s : σ) (p : Int) {length : Nat}
    (short : (length : Int) ≤ Pipe.maxInt) :
    SameBytes s p ((ByteStore.getList s p length).toArray : Buffer) 0 length := by
  intro i inside
  have found := Pipe.holds_buffer (b := (ByteStore.getList s p length).toArray)
    (by simpa using short) i (by simpa using inside)
  rw [found]
  simp [ByteStore.getList]

/-- Behind the bytes of a buffer nothing goes on. -/
theorem behind_alone (bytes : List UInt8) (short : (bytes.length : Int) ≤ Pipe.maxInt) :
    isContinuation (ByteStore.get (bytes.toArray : Buffer) (0 + bytes.length)) = false := by
  have word : ((0 + (bytes.length : Int)) % wordSpan).toNat = bytes.length := by
    unfold Pipe.maxInt at short
    rw [Int.emod_eq_of_lt (by omega) (by unfold wordSpan; omega)]
    omega
  have beyond : (bytes.toArray : Buffer).getD bytes.length 0 = 0 := by simp [Array.getD]
  show isContinuation ((bytes.toArray : Buffer).getD ((0 + (bytes.length : Int)) % wordSpan).toNat 0) = _
  rw [word, beyond]
  rfl

/-- A text is that of its bytes alone exactly if no form passes their end, or the one that does
comes out as the replacement character. -/
theorem textOf_alone {σ : Type} [ByteStore σ] {s : σ} (folds : Folds s) {p : Int} {length : Nat}
    (short : (length : Int) ≤ Pipe.maxInt) :
    textOf s p length = textAlone (ByteStore.getList s p length) ↔
      ∀ value, overrun? s p length = some value → toChar value = '\uFFFD' := by
  have size := ByteStore.length_getList s p length
  have folds' := Pipe.folds_buffer (ByteStore.getList s p length).toArray
  have same := sameBytes_alone s p short
  have both := (decodeRun_congr folds folds' same).1
  rw [textAlone, size, textOf_congr folds folds' same]
  cases passes : overrun? s p length with
  | none =>
    rw [passes, Option.isSome_none] at both
    have closed := Option.isNone_iff_eq_none.mp (Option.isSome_eq_false_iff.mp both.symm)
    simp [closed]
  | some value =>
    rw [passes, Option.isSome_some] at both
    obtain ⟨cut, alone⟩ := Option.isSome_iff_exists.mp both.symm
    have behind := behind_alone (ByteStore.getList s p length) (by rwa [size])
    rw [size] at behind
    have broken := overrun?_broken folds' behind alone
    have shown : toChar replacement = '\uFFFD' := by decide
    simp [alone, broken, shown]

/-- What holds of the texts that two rings give for `length` bytes at `p` on which they agree. -/
structure SameText (r r' : Ring UInt8) (p : Int) (length : Nat) (a b : String) : Prop where
  /-- Whether a form passes the end of the field is told by the field. -/
  ends : (overrun? r p length).isSome = (overrun? r' p length).isSome
  /-- All but this form is the same in both. -/
  front : ∃ front, a = front ++ toText (overrun? r p length).toList ∧
    b = front ++ toText (overrun? r' p length).toList
  same_iff : a = b ↔ (overrun? r p length).map toChar = (overrun? r' p length).map toChar
  alone_iff : a = textAlone (ByteStore.getList r p length) ↔
    ∀ value, overrun? r p length = some value → toChar value = '\uFFFD'
  /-- A byte behind the field that is no continuation byte keeps the two apart. -/
  apart : isContinuation (ByteStore.get r (p + length)) = false →
    a = textAlone (ByteStore.getList r p length)

theorem sameText {r r' : Ring UInt8} {p : Int} {length : Nat} (bits : r.bits ≤ 32)
    (bits' : r'.bits ≤ 32) (short : (length : Int) ≤ Pipe.maxInt)
    (same : SameBytes r p r' p length) :
    SameText r r' p length (textOf r p length) (textOf r' p length) := by
  have folds : Folds r := Pipe.folds_ring (Ring.size_dvd bits)
  have folds' : Folds r' := Pipe.folds_ring (Ring.size_dvd bits')
  obtain ⟨ends, front, left, right⟩ := decodeRun_congr folds folds' same
  refine ⟨ends, ⟨toText front, ?_, ?_⟩, textOf_congr folds folds' same, textOf_alone folds short,
    ?apart⟩
  · rw [textOf, left, toText_append]
  · rw [textOf, right, toText_append]
  case apart =>
    intro behind
    refine (textOf_alone folds short).mpr ?_
    intro value passes
    rw [overrun?_broken folds behind passes]
    decide

theorem SameBytes.getList {σ τ : Type} [ByteStore σ] [ByteStore τ] {s : σ} {t : τ} {p q : Int}
    {length : Nat} (same : SameBytes s p t q length) :
    ByteStore.getList s p length = ByteStore.getList t q length := by
  apply List.map_congr_left
  intro k inside
  exact same k (List.mem_range.mp inside)

end FragmentPipe.Utf8

namespace FragmentPipe

open Utf8 (SameBytes SameText textOf toText)

theorem Pipe.readUtf8_text (p : Pipe) (offset length : Int) :
    (p.readUtf8 ⟨.blob offset, length⟩).1.2 =
      textOf p.store.blob (p.restorePosition offset % wordSpan) length.toNat := by
  unfold readUtf8
  split
  · next absent =>
    have noBytes : length.toNat = 0 := Int.toNat_eq_zero.mpr absent
    rw [noBytes, textOf, Utf8.decodeRun]
    rfl
  · rfl

theorem FieldView.decodeText_text {v : FieldView} (ring : v.backing = .blob) (s : Store)
    (count : Nat) :
    toText (v.decodeText s count).1.1 = textOf s.blob v.position (min count v.remaining) := by
  simp only [decodeText, ring]
  rfl

/-- Reading a length and its text fails in the length, in the bytes that follow it, or gives the
text of these. -/
theorem FieldView.readText_text {v : FieldView} (ring : v.backing = .blob) (s : Store) :
    (v.readText s).1.map (fun found => toText found.1) =
      if v.remaining < 2 ∨ v.remaining - 2 < LittleEndian.decode (v.bytes s 2) then
        .error .unexpectedEnd
      else
        .ok (textOf s.blob ((v.position + 2) % wordSpan) (LittleEndian.decode (v.bytes s 2))) := by
  unfold readText takeNumber
  by_cases few : v.remaining < 2
  · rw [if_pos few, if_pos (.inl few)]
    rfl
  rw [if_neg few]
  show (if v.remaining - 2 < LittleEndian.decode (v.bytes s 2) then _ else _ :
    Except StreamError (List Nat × List Event) × FieldView).1.map _ = _
  by_cases cut : v.remaining - 2 < LittleEndian.decode (v.bytes s 2)
  · rw [if_pos cut, if_pos (.inr cut)]
    rfl
  · rw [if_neg cut, if_neg (by omega)]
    have text := decodeText_text (v := v.advance 2) ring s (LittleEndian.decode (v.bytes s 2))
    have whole : min (LittleEndian.decode (v.bytes s 2)) (v.advance 2).remaining =
        LittleEndian.decode (v.bytes s 2) := Nat.min_eq_left (by show _ ≤ v.remaining - 2; omega)
    rw [whole] at text
    exact congrArg Except.ok text

/-- Two pipes, or two states of one, that have the same bytes in a field read the same text from it
exactly if the form that passes the end of the field, where there is one, comes out as the same
character, and the text of these bytes alone exactly if it comes out as the replacement character.
So it is for the three ways to read text: a field, the next bytes of a view, and the bytes of a view
behind their length. -/
theorem text_same_iff (p : Pipe) (blob : Ring UInt8) (bits : p.store.blob.bits ≤ 32)
    (bits' : blob.bits ≤ 32) :
    (∀ offset length : Int, length ≤ Pipe.maxInt →
      SameBytes p.store.blob (p.restorePosition offset % wordSpan) blob
        (p.restorePosition offset % wordSpan) length.toNat →
      SameText p.store.blob blob (p.restorePosition offset % wordSpan) length.toNat
        (p.readUtf8 ⟨.blob offset, length⟩).1.2
        ({ p with store.blob := blob }.readUtf8 ⟨.blob offset, length⟩).1.2) ∧
    (∀ (v : FieldView) (count : Nat), v.backing = .blob → (v.remaining : Int) ≤ Pipe.maxInt →
      SameBytes p.store.blob v.position blob v.position (min count v.remaining) →
      SameText p.store.blob blob v.position (min count v.remaining)
        (toText (v.decodeText p.store count).1.1)
        (toText (v.decodeText { p.store with blob := blob } count).1.1)) ∧
    (∀ v : FieldView, v.backing = .blob → (v.remaining : Int) ≤ Pipe.maxInt →
      SameBytes p.store.blob v.position blob v.position v.remaining →
      ((v.readText p.store).1 = .error .unexpectedEnd ∧
        (v.readText { p.store with blob := blob }).1 = .error .unexpectedEnd) ∨
      ∃ length found found', length + 2 ≤ v.remaining ∧ (v.readText p.store).1 = .ok found ∧
        (v.readText { p.store with blob := blob }).1 = .ok found' ∧
        SameText p.store.blob blob ((v.position + 2) % wordSpan) length (toText found.1)
          (toText found'.1)) := by
  refine ⟨?field, ?bytes, ?counted⟩
  case field =>
    intro offset length short same
    rw [Pipe.readUtf8_text, Pipe.readUtf8_text]
    exact Utf8.sameText bits bits' (by unfold Pipe.maxInt at short ⊢; omega) same
  case bytes =>
    intro v count ring short same
    rw [FieldView.decodeText_text ring, FieldView.decodeText_text ring]
    exact Utf8.sameText bits bits' (by omega) same
  case counted =>
    intro v ring short same
    have first := FieldView.readText_text ring p.store
    have second := FieldView.readText_text ring { p.store with blob := blob }
    by_cases few : v.remaining < 2
    · rw [if_pos (.inl few)] at first second
      exact .inl ⟨eq_error_of_map first, eq_error_of_map second⟩
    -- the length lies in the field, so both read the same
    have counted : v.bytes { p.store with blob := blob } 2 = v.bytes p.store 2 := by
      simp only [FieldView.bytes, ring]
      exact (same.mono (by omega)).getList.symm
    rw [counted] at second
    by_cases cut : v.remaining - 2 < LittleEndian.decode (v.bytes p.store 2)
    · rw [if_pos (.inr cut)] at first second
      exact .inl ⟨eq_error_of_map first, eq_error_of_map second⟩
    · rw [if_neg (by omega)] at first second
      obtain ⟨found, read, text⟩ := exists_of_map first
      obtain ⟨found', read', text'⟩ := exists_of_map second
      have rest := (same.drop (Pipe.folds_ring (Ring.size_dvd bits))
        (Pipe.folds_ring (Ring.size_dvd bits')) 2).mono (Nat.le_of_not_lt cut)
      refine .inr ⟨LittleEndian.decode (v.bytes p.store 2), found, found', by omega, read, read', ?_⟩
      rw [text, text']
      exact Utf8.sameText bits bits' (by omega) rest

/-- The pipe in use with bytes behind the blob head. -/
def samplePipeWith (bytes : List UInt8) : Pipe :=
  { samplePipe with store.blob := ByteStore.putList samplePipe.store.blob 30 bytes }

/-- A form of three bytes whose last one lies behind the field is broken by either of two letters, and
the text of the field is the same with both. -/
theorem text_same_iff_sample :
    let p := samplePipeWith [0x02, 0x00, 0xE4, 0xB8, 0x41]
    let blob := (samplePipeWith [0x02, 0x00, 0xE4, 0xB8, 0x42]).store.blob
    let text := FieldView.ofRun .blob 32 2
    let counted := FieldView.ofRun .blob 30 4
    (p.readUtf8 ⟨.blob 2, 2⟩).1.2 = ({ p with store.blob := blob }.readUtf8 ⟨.blob 2, 2⟩).1.2 ∧
      toText (text.decodeText p.store 2).1.1 =
        toText (text.decodeText { p.store with blob := blob } 2).1.1 ∧
      ∃ found found', (counted.readText p.store).1 = .ok found ∧
        (counted.readText { p.store with blob := blob }).1 = .ok found' ∧
        toText found.1 = toText found'.1 := by
  intro p blob text counted
  obtain ⟨fields, bytes, texts⟩ := text_same_iff p blob (by decide) (by decide)
  have field := fields 2 2 (by decide) (by decide +kernel)
  have next := bytes text 2 rfl (by decide) (by decide +kernel)
  refine ⟨field.same_iff.mpr (by decide +kernel), next.same_iff.mpr (by decide +kernel), ?_⟩
  have answered : (counted.readText p.store).1.toBool = true := by decide +kernel
  rcases texts counted rfl (by decide) (by decide +kernel) with
    ⟨fails, -⟩ | ⟨length, found, found', inside, read, read', same⟩
  · rw [fails] at answered
    cases answered
  · have broken : ∀ n < 3, (Utf8.overrun? p.store.blob 32 n).map Utf8.toChar =
        (Utf8.overrun? blob 32 n).map Utf8.toChar := by decide +kernel
    have few : length + 2 ≤ 4 := inside
    exact ⟨found, found', read, read', same.same_iff.mpr (broken length (by omega))⟩

/-- A field that ends inside a form is read with the byte behind it: a byte of the next field that
completes the form puts a character into the text which the field alone does not have. -/
theorem reads_beyond_field :
    let p := samplePipeWith [0x02, 0x00, 0xE4, 0xB8, 0xAD]
    let q := samplePipeWith [0x02, 0x00, 0xE4, 0xB8, 0x41]
    SameBytes p.store.blob 30 q.store.blob 30 4 ∧
      (p.readUtf8 ⟨.blob 2, 2⟩).1.2 = "中" ∧ (q.readUtf8 ⟨.blob 2, 2⟩).1.2 = "\uFFFD" ∧
      toText ((FieldView.ofRun .blob 32 2).decodeText p.store 2).1.1 = "中" ∧
      toText ((FieldView.ofRun .blob 32 2).decodeText q.store 2).1.1 = "\uFFFD" ∧
      ((FieldView.ofRun .blob 30 4).readText p.store).1.toOption.map (fun found => toText found.1) =
        some "中" ∧
      ((FieldView.ofRun .blob 30 4).readText q.store).1.toOption.map (fun found => toText found.1) =
        some "\uFFFD" ∧
      Utf8.textAlone [0xE4, 0xB8] = "\uFFFD" := by
  intro p q
  refine ⟨?_, ?_, ?_, ?_, ?_, ?_, ?_, ?_⟩ <;> decide +kernel

end FragmentPipe
