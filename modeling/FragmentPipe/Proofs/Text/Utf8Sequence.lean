import FragmentPipe.Capacity.Config
import FragmentPipe.Proofs.Transfer.Reading
import FragmentPipe.Proofs.Transfer.Session

/-!
Values stored one after the other. `putAll` is a run of the encoder and `decodeAll` a run of the
decoder; a place of either run is the start moved by the lengths of the values before it, so that
both stop at the same places. On characters the encoder's bytes are those of the native UTF-8 form.
Main statement: `codec_round_trip`. The bytes of the ring are only asked to suffice for the values;
where they lie in it, and whether the positions go around, makes no difference.
-/

namespace FragmentPipe.Utf8

/-- The values from here on have no form. -/
def valueLimit : Nat := 0x7FFFFFFF

/-- What comes back of an encoded value: a lone surrogate was stored as a question mark. -/
def shown (value : Nat) : Nat := if 0xD800 ≤ value ∧ value ≤ 0xDFFF then 0x3F else value

/-- The bytes of values, one after the other. -/
def encodeAll (values : List Nat) : List UInt8 := values.flatMap fun v => (encode? v).getD []

/-- The announced lengths of values in all. -/
def encodedSize (values : List Nat) : Nat :=
  (values.map fun v => (encodedLength? v).getD 0).sum

section Store

variable {σ : Type} [ByteStore σ]

/-- Stores values one after the other. The first value that is refused ends the run; the place keeps
what was stored before it. -/
def putAll (s : σ) (position : Int) : List Nat → Except PipeError Int × σ
  | [] => (.ok position, s)
  | value :: values =>
    match put s position value with
    | .error e => (.error e, s)
    | .ok (position, s) => putAll s position values

/-- Decodes `count` values one after the other: the values, and the position after them. -/
def decodeAll (s : σ) (position : Int) : Nat → List Nat × Int
  | 0 => ([], position)
  | count + 1 =>
    let step := decodeStep s position
    let rest := decodeAll s (step.next position) count
    (step.value :: rest.1, rest.2)

end Store

/-! ## Lengths -/

theorem encodedLength?_eq_none {value : Nat} : encodedLength? value = none ↔ valueLimit ≤ value := by
  unfold encodedLength? valueLimit
  constructor
  · intro refused
    apply Nat.le_of_not_lt
    intro below
    repeat' split at refused
    all_goals cases refused
  · intro beyond
    simp only [if_neg (show ¬ value ≤ 0x7F by omega), if_neg (show ¬ value ≤ 0x7FF by omega),
      if_neg (show ¬ (0xD800 ≤ value ∧ value ≤ 0xDFFF) by omega),
      if_neg (show ¬ value ≤ 0xFFFF by omega), if_neg (show ¬ value < 0x1FFFFF by omega),
      if_neg (show ¬ value < 0x3FFFFFF by omega), if_neg (show ¬ value < 0x7FFFFFFF by omega)]

theorem encode?_eq_none {value : Nat} : encode? value = none ↔ valueLimit ≤ value := by
  rw [← encodedLength?_eq_none, ← length_encode, Option.map_eq_none_iff]

theorem exists_encode {value : Nat} (small : value < valueLimit) :
    ∃ bytes, encode? value = some bytes ∧ encodedLength? value = some bytes.length := by
  cases encoded : encode? value with
  | none => exact absurd (encode?_eq_none.mp encoded) (by omega)
  | some bytes => exact ⟨bytes, rfl, by rw [← length_encode, encoded, Option.map_some]⟩

theorem length_encodeAll (values : List Nat) : (encodeAll values).length = encodedSize values := by
  induction values with
  | nil => rfl
  | cons value values ih =>
    have first : ((encode? value).getD []).length = (encodedLength? value).getD 0 := by
      rw [← length_encode]
      cases encode? value <;> rfl
    simp only [encodeAll, encodedSize, List.flatMap_cons, List.length_append, List.map_cons,
      List.sum_cons] at ih ⊢
    rw [first, ih]

theorem encodeAll_append (values more : List Nat) :
    encodeAll (values ++ more) = encodeAll values ++ encodeAll more :=
  List.flatMap_append

/-! ## Runs of the encoder -/

/-- Where all values have a form, a run stores their bytes in one piece. The ring folds the
positions as 32 bit words, so it does not matter at which value they go around. -/
theorem putAll_eq {r : Ring UInt8} (turn : (r.size : Int) ∣ wordSpan) {start : Int}
    {values : List Nat} (small : ∀ v ∈ values, v < valueLimit)
    (word : start % wordSpan = start) :
    putAll r start values =
      (.ok ((start + encodedSize values) % wordSpan), r.setList start (encodeAll values)) := by
  induction values generalizing r start with
  | nil =>
    show _ = (Except.ok ((start + (0 : Nat)) % wordSpan), r)
    rw [Int.natCast_zero, Int.add_zero, word]
    rfl
  | cons value values ih =>
    obtain ⟨bytes, encoded, told⟩ := exists_encode (small value List.mem_cons_self)
    have rest : putAll (r.setList start bytes) ((start + bytes.length) % wordSpan) values = _ :=
      ih (by rwa [Ring.size_setList]) (fun v held => small v (List.mem_cons_of_mem _ held))
        (Int.emod_emod _ _)
    have size : encodedSize (value :: values) = bytes.length + encodedSize values := by
      simp [encodedSize, told]
    have all : encodeAll (value :: values) = bytes ++ encodeAll values := by
      simp [encodeAll, encoded]
    have fold : (r.setList start bytes).setList ((start + bytes.length) % wordSpan)
        (encodeAll values) =
        (r.setList start bytes).setList (start + bytes.length) (encodeAll values) := by
      apply Ring.setList_congr
      rw [Ring.size_setList, Int.emod_emod_of_dvd _ turn]
    have place : start + ((bytes.length + encodedSize values : Nat) : Int) =
        start + bytes.length + encodedSize values := by
      push_cast
      omega
    rw [putAll, put, encoded]
    simp only [Ring.putList_eq_setList, rest, fold, size, all, place, Int.emod_add_emod,
      Ring.setList_append]

/-- One value is stored, or refused with nothing stored. -/
theorem putAll_singleton {σ : Type} [ByteStore σ] (s : σ) (position : Int) (value : Nat) :
    putAll s position [value] =
      match encode? value with
      | none => (.error (.unencodableChar value), s)
      | some bytes =>
        (.ok ((position + bytes.length) % wordSpan), ByteStore.putList s position bytes) := by
  rw [putAll, put]
  cases encode? value <;> rfl

/-! ## Runs of the decoder -/

section Store

variable {σ : Type} [ByteStore σ] {s : σ}

/-- A value that has a form is read back, a surrogate as its question mark, and the decoder stands
behind its bytes. -/
theorem decodeStep_of_encoded (folds : Folds s) {p : Int} {value : Nat} {bytes : List UInt8}
    (encoded : encode? value = some bytes) (held : Holds s p bytes) :
    (decodeStep s p).value = shown value ∧ (decodeStep s p).width = bytes.length := by
  by_cases surrogate : 0xD800 ≤ value ∧ value ≤ 0xDFFF
  · have mark : bytes = form 0x00 0 0x3F := by
      rw [encode?, if_neg (by omega), if_neg (by omega), if_pos (by omega), if_pos surrogate,
        Option.some.injEq] at encoded
      rw [← encoded]
      rfl
    rw [mark] at held
    rw [decodeStep_of_single (by decide) held, shown, if_pos surrogate, mark]
    exact ⟨rfl, rfl⟩
  · obtain ⟨same, width, -⟩ := decodeStep_of_holds folds surrogate encoded held
    rw [shown, if_neg surrogate]
    exact ⟨same, width⟩

/-- A run of the decoder over the bytes of values takes one value with each step. -/
theorem decodeAll_of_holds (folds : Folds s) {values : List Nat} {p : Int}
    (small : ∀ v ∈ values, v < valueLimit) (word : p % wordSpan = p)
    (held : Holds s p (encodeAll values)) :
    decodeAll s p values.length =
      (values.map shown, (p + encodedSize values) % wordSpan) := by
  induction values generalizing p with
  | nil =>
    show _ = (([] : List Nat), (p + (0 : Nat)) % wordSpan)
    rw [Int.natCast_zero, Int.add_zero, word]
    rfl
  | cons value values ih =>
    obtain ⟨bytes, encoded, told⟩ := exists_encode (small value List.mem_cons_self)
    have all : encodeAll (value :: values) = bytes ++ encodeAll values := by
      simp [encodeAll, encoded]
    have size : encodedSize (value :: values) = bytes.length + encodedSize values := by
      simp [encodedSize, told]
    rw [all] at held
    obtain ⟨first, width⟩ := decodeStep_of_encoded folds encoded held.left
    have next : (decodeStep s p).next p = (p + bytes.length) % wordSpan := by
      rw [Step.next, width]
    have rest := ih (p := (p + bytes.length) % wordSpan)
      (fun v held => small v (List.mem_cons_of_mem _ held)) (Int.emod_emod _ _)
      (folds.holds held.right)
    have place : p + ((bytes.length + encodedSize values : Nat) : Int) =
        p + bytes.length + encodedSize values := by
      push_cast
      omega
    simp only [List.length_cons, decodeAll, next, rest, first, size, place, Int.emod_add_emod,
      List.map_cons]

end Store

/-! ## Characters -/

/-- The bytes of a character are those of its native form. -/
theorem encodeChar_eq (c : Char) : encodeChar c = String.utf8EncodeChar c := by
  have shift (k : Nat) : c.toNat >>> k = c.toNat / 2 ^ k := Nat.shiftRight_eq_div_pow _ k
  have bound := char_lt c
  have plain := char_not_surrogate c
  have value : c.val.toNat = c.toNat := rfl
  have sixth : 0x80 + c.toNat / 2 ^ (6 * 0) % 64 = c.toNat % 64 + 128 := by omega
  have twelfth : 0x80 + c.toNat / 2 ^ (6 * 1) % 64 = c.toNat / 64 % 64 + 128 := by omega
  have eighteenth : 0x80 + c.toNat / 2 ^ (6 * 2) % 64 = c.toNat / 4096 % 64 + 128 := by omega
  simp only [encodeChar, String.utf8EncodeChar, value, encode?, form, continuations, continuation,
    shift, sixth, twelfth, eighteenth]
  by_cases one : c.toNat ≤ 0x7F
  · have lead : 0x00 + c.toNat / 2 ^ (6 * 0) = c.toNat := by omega
    rw [if_pos one, if_pos one, lead, Option.getD_some]
  by_cases two : c.toNat ≤ 0x7FF
  · have lead : 0xC0 + c.toNat / 2 ^ (6 * 1) = c.toNat / 64 % 32 + 192 := by omega
    rw [if_neg one, if_pos two, if_neg one, if_pos two, lead, Option.getD_some]
  by_cases three : c.toNat ≤ 0xFFFF
  · have lead : 0xE0 + c.toNat / 2 ^ (6 * 2) = c.toNat / 4096 % 16 + 224 := by omega
    rw [if_neg one, if_neg two, if_pos three, if_neg plain, if_neg one, if_neg two, if_pos three,
      lead, Option.getD_some]
  · have lead : 0xF0 + c.toNat / 2 ^ (6 * 3) = c.toNat / 262144 % 8 + 240 := by omega
    rw [if_neg one, if_neg two, if_neg three, if_pos (by omega), if_neg one, if_neg two,
      if_neg three, lead, Option.getD_some]

/-- The bytes of a text are those of its native form. -/
theorem encodeText_eq (text : String) : encodeText text = text.toUTF8.data.toList := by
  have same : encodeText text = text.toList.flatMap String.utf8EncodeChar := by
    rw [encodeText]
    congr 1
    exact funext encodeChar_eq
  rw [same]
  show _ = text.toByteArray.data.toList
  rw [← String.utf8Encode_toList, List.utf8Encode, List.data_toByteArray]

theorem length_encodeText (text : String) : (encodeText text).length = text.utf8ByteSize := by
  rw [encodeText_eq]
  rfl

theorem encodeAll_chars (text : String) :
    encodeAll (text.toList.map Char.toNat) = encodeText text := by
  rw [encodeAll, encodeText, List.flatMap_map]
  rfl

theorem encodedSize_chars (text : String) :
    encodedSize (text.toList.map Char.toNat) = text.utf8ByteSize := by
  rw [← length_encodeAll, encodeAll_chars, length_encodeText]

theorem char_small (text : String) : ∀ v ∈ text.toList.map Char.toNat, v < valueLimit := by
  intro v held
  obtain ⟨c, -, rfl⟩ := List.mem_map.mp held
  have formed := encode_char c
  apply Nat.lt_of_not_le
  intro beyond
  rw [encode?_eq_none.mpr beyond] at formed
  cases formed

/-! ## Rings -/

/-- At every value of a run the decoder of the finished ring stands where the encoder stood. -/
theorem decodeAll_putAll {r : Ring UInt8} {start : Int} {values : List Nat} (bits : r.bits ≤ 32)
    (word : start % wordSpan = start) (small : ∀ v ∈ values, v < valueLimit)
    (fits : encodedSize values ≤ r.size) (k : Nat) :
    decodeAll (putAll r start values).2 start (values.take k).length =
      ((values.take k).map shown, (start + encodedSize (values.take k)) % wordSpan) := by
  have turn : (r.size : Int) ∣ wordSpan := Ring.size_dvd bits
  have held : Holds (r.setList start (encodeAll values)) start (encodeAll values) :=
    r.holds_setList start _ (by rwa [length_encodeAll])
  rw [← List.take_append_drop k values, encodeAll_append] at held
  rw [putAll_eq turn small word]
  have folds : Folds (r.setList start (encodeAll values)) :=
    Pipe.folds_ring (by rwa [Ring.size_setList])
  rw [← List.take_append_drop k values, encodeAll_append] at folds
  have decoded := decodeAll_of_holds folds (fun v inside => small v (List.mem_of_mem_take inside)) word
    held.left
  rwa [← encodeAll_append, List.take_append_drop] at decoded

end FragmentPipe.Utf8

namespace FragmentPipe

open Utf8 (putAll decodeAll encodedSize encodedLength? valueLimit shown)

/-! ## Texts in a pipe -/

namespace Pipe

/-- Writes a text one character after the other behind the checked length. -/
def putUtf8ByChars (p : Pipe) (text : String) : Except PipeError Unit × Pipe :=
  match p.checkLength (fieldLength text.utf8ByteSize) with
  | (.error e, p) => (.error e, p)
  | (.ok _, p) =>
    match putAll p.store.blob p.producer.blobHead (text.toList.map Char.toNat) with
    | (.error e, blob) => (.error e, { p with store.blob := blob })
    | (.ok _, blob) =>
      (.ok (), { p with store.blob := blob }.commitField (fieldLength text.utf8ByteSize))

theorem word_of_head {p : Pipe} (low : 0 ≤ p.producer.blobHead)
    (high : p.producer.blobHead < blobSpan) :
    p.producer.blobHead % wordSpan = p.producer.blobHead := by
  unfold blobSpan at high
  exact Int.emod_eq_of_lt low (by unfold wordSpan; omega)

/-- The characters of a text fill the bytes of its native form. -/
theorem putAll_chars {p : Pipe} (text : String) (bits : p.store.blob.bits ≤ 32)
    (low : 0 ≤ p.producer.blobHead) (high : p.producer.blobHead < blobSpan) :
    putAll p.store.blob p.producer.blobHead (text.toList.map Char.toNat) =
      (.ok ((p.producer.blobHead + text.utf8ByteSize) % wordSpan),
        ByteStore.putList p.store.blob p.producer.blobHead text.toUTF8.data.toList) := by
  have turn : (p.store.blob.size : Int) ∣ wordSpan := Ring.size_dvd bits
  rw [Utf8.putAll_eq turn (Utf8.char_small text) (word_of_head low high), Utf8.encodeAll_chars,
    Utf8.encodedSize_chars, Utf8.encodeText_eq, Ring.putList_eq_setList]

theorem putUtf8_eq_byChars {p : Pipe} (text : String) (bits : p.store.blob.bits ≤ 32)
    (low : 0 ≤ p.producer.blobHead) (high : p.producer.blobHead < blobSpan) :
    p.putUtf8 (some text) = p.putUtf8ByChars text := by
  unfold putUtf8 putBytes putField putUtf8ByChars
  simp only [Utf8.length_encodeText]
  cases checked : p.checkLength (fieldLength text.utf8ByteSize) with
  | mk answer q =>
    cases answer with
    | error e => rfl
    | ok _ =>
      obtain rfl := checkLength_ok checked
      have stored := putAll_chars (p := { p with
        producer.average := p.nextAverage (fieldLength text.utf8ByteSize) }) text bits low high
      simp only at stored
      simp only [stored, Utf8.encodeText_eq]

/-- What an accepted text leaves behind. -/
theorem putUtf8_ok {p after : Pipe} {text : String}
    (accepted : p.putUtf8 (some text) = (.ok (), after)) :
    after = { p with
      producer.average := p.nextAverage (fieldLength text.utf8ByteSize)
      store.blob := ByteStore.putList p.store.blob p.producer.blobHead text.toUTF8.data.toList
        }.commitField (fieldLength text.utf8ByteSize) := by
  unfold putUtf8 putBytes at accepted
  simp only [Utf8.length_encodeText] at accepted
  rw [Utf8.encodeText_eq] at accepted
  exact putField_ok accepted

/-- A text is read where its bytes lie, whatever lies behind them. -/
theorem readUtf8_of_holds {q : Pipe} {text : String} {offset : Int}
    (turn : (q.store.blob.size : Int) ∣ blobSpan)
    (held : q.store.blob.Holds (q.consumer.readBase + offset) (Utf8.encodeText text)) :
    (q.readUtf8 ⟨.blob offset, text.utf8ByteSize⟩).1 = (text.utf8ByteSize, text) := by
  by_cases empty : text.utf8ByteSize = 0
  · have noBytes : Utf8.encodeText text = [] :=
      List.eq_nil_of_length_eq_zero (by rw [Utf8.length_encodeText, empty])
    rw [readUtf8, if_pos (by simp only [empty]; decide), empty, Utf8.eq_empty_of_encodeText noBytes]
  · have folds : Utf8.Folds q.store.blob := folds_ring (Int.dvd_trans turn (by decide))
    have found : Utf8.Holds q.store.blob (q.restorePosition offset) (Utf8.encodeText text) :=
      held.congr (q.restorePosition_emod turn offset).symm
    have decoded := Utf8.decodeRun_of_holds folds text.toList (folds.holds found)
    have size : (Utf8.encodeText text).length = text.utf8ByteSize := Utf8.length_encodeText text
    unfold Utf8.encodeText at size
    rw [size] at decoded
    have field : q.decodeField ⟨.blob offset, text.utf8ByteSize⟩ =
        (text.toList.map Char.toNat, []) := decoded
    rw [readUtf8, if_neg (by simp only; omega), field]
    show (text.utf8ByteSize, Utf8.toText (text.toList.map Char.toNat)) = _
    rw [Utf8.toText_map_toNat]

end Pipe

/-- The encoder, the announced lengths and the decoder agree at every value of a run and at every
byte of a ring; a value is refused, and nothing stored, exactly where it has no length; and a text
in a pipe is the run of its characters, fills as many bytes as its native form has and is read back
from them as long as they are there. -/
theorem codec_round_trip :
    (∀ (r : Ring UInt8) (start : Int) (values : List Nat),
      r.bits ≤ 32 → 0 ≤ start → start < wordSpan → (∀ v ∈ values, v < valueLimit) →
      encodedSize values ≤ r.size → ∀ k ≤ values.length,
        (putAll r start (values.take k)).1 =
            .ok ((start + encodedSize (values.take k)) % wordSpan) ∧
          decodeAll (putAll r start values).2 start k =
            ((values.take k).map shown, (start + encodedSize (values.take k)) % wordSpan)) ∧
    (∀ (σ : Type) [ByteStore σ] (s : σ) (position : Int) (value : Nat),
      ((∃ e, (putAll s position [value]).1 = .error e) ↔ valueLimit ≤ value) ∧
      (encodedLength? value = none ↔ valueLimit ≤ value) ∧
      (valueLimit ≤ value → putAll s position [value] = (.error (.unencodableChar value), s))) ∧
    (∀ (p : Pipe) (text : String),
      p.store.blob.bits ≤ maxBits → 0 ≤ p.producer.blobHead → p.producer.blobHead < blobSpan →
        p.putUtf8 (some text) = p.putUtf8ByChars text ∧
        putAll p.store.blob p.producer.blobHead (text.toList.map Char.toNat) =
          (.ok ((p.producer.blobHead + text.utf8ByteSize) % wordSpan),
            ByteStore.putList p.store.blob p.producer.blobHead text.toUTF8.data.toList)) ∧
    (∀ (p after q : Pipe) (text : String),
      p.store.blob.bits ≤ maxBits → 0 ≤ p.producer.blobHead → p.producer.blobHead < blobSpan →
      text.utf8ByteSize ≤ p.store.blob.size → p.putUtf8 (some text) = (.ok (), after) →
      q.store.blob.size = p.store.blob.size →
      q.consumer.readBase % (p.store.blob.size : Int) =
        p.producer.writeBase % (p.store.blob.size : Int) →
      (∀ i : Nat, i < text.utf8ByteSize →
        q.store.blob.get (p.producer.blobHead + i) =
          after.store.blob.get (p.producer.blobHead + i)) →
        after = { p with
          producer.average := p.nextAverage text.utf8ByteSize
          store.blob := ByteStore.putList p.store.blob p.producer.blobHead text.toUTF8.data.toList
            }.commitField text.utf8ByteSize ∧
        (q.readUtf8 ⟨p.originOf p.producer.blobHead, text.utf8ByteSize⟩).1 =
          (text.utf8ByteSize, text)) := by
  refine ⟨?runs, ?refusal, ?texts, ?reading⟩
  case runs =>
    intro r start values bits low high small fits k inside
    have word : start % wordSpan = start := Int.emod_eq_of_lt low high
    have turn : (r.size : Int) ∣ wordSpan := Ring.size_dvd bits
    have decoded := Utf8.decodeAll_putAll bits word small fits k
    rw [List.length_take_of_le inside] at decoded
    refine ⟨?_, decoded⟩
    rw [Utf8.putAll_eq turn (fun v held => small v (List.mem_of_mem_take held)) word]
  case refusal =>
    intro σ _ s position value
    refine ⟨?_, Utf8.encodedLength?_eq_none, ?_⟩
    · rw [← Utf8.encode?_eq_none, Utf8.putAll_singleton]
      cases Utf8.encode? value <;> simp
    · intro beyond
      rw [Utf8.putAll_singleton, Utf8.encode?_eq_none.mpr beyond]
  case texts =>
    intro p text bits low high
    have word : p.store.blob.bits ≤ 32 := Nat.le_trans bits (by decide)
    exact ⟨Pipe.putUtf8_eq_byChars text word low high, Pipe.putAll_chars text word low high⟩
  case reading =>
    intro p after q text bits low high fits accepted size base kept
    have span : ((2 ^ maxBits : Nat) : Int) ∣ blobSpan := by decide
    have turn : (p.store.blob.size : Int) ∣ blobSpan := Int.dvd_trans (Ring.size_dvd bits) span
    have told : Pipe.fieldLength text.utf8ByteSize = text.utf8ByteSize := by
      have below : p.store.blob.size ≤ 2 ^ maxBits := by
        rw [p.store.blob.size_eq, Nat.one_shiftLeft]
        exact Nat.pow_le_pow_right (by decide) bits
      unfold maxBits at below
      unfold Pipe.fieldLength Pipe.maxInt
      omega
    have left := Pipe.putUtf8_ok accepted
    rw [told] at left
    have stored : after.store.blob =
        p.store.blob.setList p.producer.blobHead (Utf8.encodeText text) := by
      rw [left, Utf8.encodeText_eq, ← Ring.putList_eq_setList]
      rfl
    have held : q.store.blob.Holds p.producer.blobHead (Utf8.encodeText text) := by
      intro i inside
      rw [Utf8.length_encodeText] at inside
      rw [kept i inside, stored]
      exact p.store.blob.holds_setList _ _ (by rwa [Utf8.length_encodeText]) i _
    -- the base of the reader may be any number of turns away from that of the writer
    have place : (q.consumer.readBase + (p.producer.blobHead - p.producer.writeBase) % blobSpan) %
        (q.store.blob.size : Int) = p.producer.blobHead % (q.store.blob.size : Int) := by
      rw [size, Int.add_emod, base, Int.emod_emod_of_dvd _ turn, ← Int.add_emod]
      congr 1
      omega
    exact ⟨left, Pipe.readUtf8_of_holds (by rwa [size]) (held.congr place.symm)⟩

/-- Forms of four lengths and a surrogate fill a ring of sixteen bytes while the positions go around,
and a text of nine bytes goes around the blob. -/
theorem codec_round_trip_sample :
    let values := [0x41, 0xD800, 0x4E2D, 0x1FFFFF, 0x7FFFFFFE]
    let ring : Ring UInt8 := .filled 4 0
    (putAll ring 0xFFFFFFFE values).1 = .ok 14 ∧
      decodeAll (putAll ring 0xFFFFFFFE values).2 0xFFFFFFFE 5 =
        ([0x41, 0x3F, 0x4E2D, 0x1FFFFF, 0x7FFFFFFE], 14) ∧
      putAll ring 0 [0x7FFFFFFF] = (.error (.unencodableChar 0x7FFFFFFF), ring) ∧
      ∃ after, samplePipe.putUtf8 (some "é中😀") = (.ok (), after) ∧
        samplePipe.putUtf8ByChars "é中😀" = (.ok (), after) ∧
        (after.readUtf8 ⟨samplePipe.originOf 30, 9⟩).1 = (9, "é中😀") := by
  intro values ring
  obtain ⟨runs, refusal, texts, reading⟩ := codec_round_trip
  have run := runs ring 0xFFFFFFFE values (by decide) (by decide) (by decide) (by decide)
    (by decide) 5 (by decide)
  have accepted : samplePipe.putUtf8 (some "é中😀") =
      (.ok (), (samplePipe.putUtf8 (some "é中😀")).2) := by
    have answer : (samplePipe.putUtf8 (some "é中😀")).1.toBool = true := by decide +kernel
    cases written : samplePipe.putUtf8 (some "é中😀") with
    | mk result after =>
      rw [written] at answer
      cases result with
      | error e => cases answer
      | ok _ => rfl
  have ended : (0xFFFFFFFE + (encodedSize (values.take 5) : Int)) % wordSpan = 14 := by decide
  have back : (values.take 5).map shown = [0x41, 0x3F, 0x4E2D, 0x1FFFFF, 0x7FFFFFFE] := by decide
  rw [ended, back] at run
  have chars := (texts samplePipe "é中😀" (by decide) (by decide) (by decide)).1
  have size : "é中😀".utf8ByteSize = 9 := by decide +kernel
  have read := (reading samplePipe _ (samplePipe.putUtf8 (some "é中😀")).2 "é中😀" (by decide)
    (by decide) (by decide) (by rw [size]; decide) accepted (by decide +kernel)
    (by decide +kernel) (fun _ _ => rfl)).2
  rw [size] at read
  exact ⟨run.1, run.2, (refusal _ ring 0 0x7FFFFFFF).2.2 (by decide), _, accepted,
    chars ▸ accepted, read⟩

end FragmentPipe
