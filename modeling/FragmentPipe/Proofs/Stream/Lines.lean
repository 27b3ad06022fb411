import FragmentPipe.Proofs.Stream.RoundTrip

/-!
Lines of a streamed field. A line is written in 16 bit units and ends with a line feed; it is read
unit by unit up to the line feed, and each unit becomes a character of its own. `shown` is the text
that comes of this. Main statement: `line_round_trip_iff`, as many lines are read as were written and
then the field is at its end, but a text comes back if and only if all its characters are single units.
-/

namespace FragmentPipe

/-! ## Units -/

namespace Utf16

/-- A character has a unit below the surrogates only if it is the character of that number. -/
theorem mem_encodeChar {c : Char} {n : Nat} (low : n < 0xD800) : n ∈ encodeChar c ↔ c.toNat = n := by
  unfold encodeChar
  dsimp only
  split
  · rw [List.mem_singleton, eq_comm]
  · simp only [List.mem_cons, List.not_mem_nil, or_false]
    omega

theorem mem_encode {text : List Char} {n : Nat} (low : n < 0xD800) :
    n ∈ encode text ↔ ∃ c ∈ text, c.toNat = n := by
  rw [encode, List.mem_flatMap]
  simp only [mem_encodeChar low]

/-- Units are 16 bit numbers. -/
theorem lt_of_mem_encode {text : List Char} {n : Nat} (inside : n ∈ encode text) : n < 0x10000 := by
  obtain ⟨c, -, unit⟩ := List.mem_flatMap.mp inside
  have bound := Utf8.char_lt c
  unfold encodeChar at unit
  dsimp only at unit
  split at unit
  · rw [List.mem_singleton] at unit
    omega
  · simp only [List.mem_cons, List.not_mem_nil, or_false] at unit
    omega

end Utf16

/-! ## What is read of a text -/

/-- A character as it is read from its units: one of two units becomes two replacement characters. -/
def shownChar (c : Char) : List Char := if c.toNat < 0x10000 then [c] else ['\uFFFD', '\uFFFD']

/-- A text as it is read from its units. -/
def shown (text : String) : String := String.ofList (text.toList.flatMap shownChar)

/-- The two units of a character are no characters. -/
theorem toChar_surrogate {n : Nat} (low : 0xD800 ≤ n) (high : n < 0xE000) :
    Utf8.toChar n = '\uFFFD' := by
  have invalid : ¬n.isValidChar := by
    unfold Nat.isValidChar
    omega
  rw [Utf8.toChar, if_neg invalid]

theorem map_toChar_encodeChar (c : Char) : (Utf16.encodeChar c).map Utf8.toChar = shownChar c := by
  have bound := Utf8.char_lt c
  unfold Utf16.encodeChar shownChar
  dsimp only
  split
  · rw [List.map_singleton, Utf8.toChar_toNat]
  · rw [List.map_cons, List.map_singleton, toChar_surrogate (by omega) (by omega),
      toChar_surrogate (by omega) (by omega)]

theorem toText_encode (text : String) : Utf8.toText (Utf16.encode text.toList) = shown text := by
  rw [Utf8.toText, Utf16.encode, List.map_flatMap]
  simp only [map_toChar_encodeChar]
  rfl

theorem flatMap_shownChar_eq_iff (text : List Char) :
    text.flatMap shownChar = text ↔ ∀ c ∈ text, c.toNat < 0x10000 := by
  induction text with
  | nil => simp
  | cons c text ih =>
    rw [List.flatMap_cons, List.forall_mem_cons, ← ih]
    unfold shownChar
    split
    · next single => simp [single]
    · next pair =>
      -- A replacement character is a single unit, so the first character is another one.
      have other : '\uFFFD' ≠ c := by
        rintro rfl
        exact pair (by decide)
      simp [pair, other]

/-- A text is read as it is exactly if each of its characters is a single unit. -/
theorem shown_eq_iff (text : String) : shown text = text ↔ ∀ c ∈ text.toList, c.toNat < 0x10000 := by
  rw [← flatMap_shownChar_eq_iff, shown, ← String.toList_inj, String.toList_ofList]

theorem map_shown_eq_iff (texts : List String) :
    texts.map shown = texts ↔ ∀ text ∈ texts, ∀ c ∈ text.toList, c.toNat < 0x10000 := by
  induction texts with
  | nil => simp
  | cons text texts ih => rw [List.map_cons, List.cons.injEq, shown_eq_iff, ih, List.forall_mem_cons]

/-! ## Lines -/

/-- The bytes of units. -/
def unitBytes (units : List Nat) : List UInt8 :=
  units.flatMap fun (unit : Nat) => LittleEndian.encode 2 unit

/-- The bytes of the units of a line, with the line feed that ends it. -/
def lineBytes (units : List Nat) : List UInt8 := unitBytes (units ++ [0x0A])

theorem lineBytes_cons (unit : Nat) (units : List Nat) :
    lineBytes (unit :: units) = LittleEndian.encode 2 unit ++ lineBytes units := rfl

/-- The bytes of a text as a line. -/
def encodedLine (text : String) : List UInt8 := lineBytes (Utf16.encode text.toList)

namespace FieldWriter

variable {w v : FieldWriter}

/-- Units that are all written are written like their bytes. -/
theorem writeUnits_ok {units : List Nat} (written : w.writeUnits units = (.ok (), v)) :
    (unitBytes units).length ≤ w.remaining ∧ v = w.stored (unitBytes units) := by
  induction units generalizing w with
  | nil =>
    cases written
    exact ⟨Nat.zero_le _, rfl⟩
  | cons unit units ih =>
    rw [writeUnits, putNumber] at written
    split at written
    · cases written
    · next x first =>
      obtain ⟨fits, rfl⟩ := put_ok first
      obtain ⟨rest, rfl⟩ := ih written
      change _ ≤ w.room - (w.written + _) at rest
      unfold remaining at fits ⊢
      rw [unitBytes, List.flatMap_cons, List.length_append, ← unitBytes]
      exact ⟨by omega, stored_append w _ _⟩

/-- What is written of a line are its bytes. -/
theorem stores_writeLine : Stores writeLine encodedLine := fun _ _ _ written => writeUnits_ok written

end FieldWriter

namespace FieldView

variable {v : FieldView} {s : Store} {rest : List UInt8}

theorem decode_unit {unit : Nat} (small : unit < 0x10000) :
    LittleEndian.decode (LittleEndian.encode 2 unit) = unit := by
  have told := LittleEndian.decode_encode 2 unit
  rw [Int.emod_eq_of_lt (by omega) (by exact_mod_cast small)] at told
  omega

/-- A unit that lies at the cursor, with more behind it. -/
theorem Holds.unit_eq (unit : Nat) (h : v.Holds s (LittleEndian.encode 2 unit ++ rest))
    (small : unit < 0x10000) :
    ¬v.remaining < 2 ∧ LittleEndian.decode (v.bytes s 2) = unit := by
  have remaining := h.remaining_eq
  have bytes := h.bytes_eq
  rw [LittleEndian.length_encode] at remaining bytes
  rw [bytes, decode_unit small]
  exact ⟨by omega, rfl⟩

/-- The units of a line are read up to its line feed. -/
theorem Holds.lineUnits_eq {units : List Nat} (h : v.Holds s (lineBytes units ++ rest))
    (turn : (s.blob.size : Int) ∣ wordSpan) (small : ∀ unit ∈ units, unit < 0x10000)
    (plain : ∀ unit ∈ units, unit ≠ 0x0A ∧ unit ≠ 0x0D) :
    v.lineUnits s = (units, v.advance (lineBytes units).length) := by
  induction units generalizing v with
  | nil =>
    obtain ⟨more, read⟩ := Holds.unit_eq 0x0A h (by decide)
    rw [lineUnits, if_neg more]
    dsimp only
    rw [read, if_pos rfl]
    rfl
  | cons unit units ih =>
    rw [lineBytes_cons, List.append_assoc] at h
    rw [List.forall_mem_cons] at small plain
    obtain ⟨more, read⟩ := h.unit_eq unit small.1
    have behind := h.advance turn
    rw [LittleEndian.length_encode] at behind
    rw [lineUnits, if_neg more]
    dsimp only
    rw [read, if_neg plain.1.1, if_neg plain.1.2, ih behind small.2 plain.2, advance_advance,
      lineBytes_cons, List.length_append, LittleEndian.length_encode]

/-- A text without line feeds and carriage returns is read to its end. -/
theorem Holds.readLine_eq {text : String} (h : v.Holds s (encodedLine text ++ rest))
    (turn : (s.blob.size : Int) ∣ wordSpan)
    (plain : ∀ c ∈ text.toList, c ≠ '\n' ∧ c ≠ '\r') :
    v.readLine s = (shown text, v.advance (encodedLine text).length) := by
  have units : ∀ unit ∈ Utf16.encode text.toList, unit ≠ 0x0A ∧ unit ≠ 0x0D := by
    have named : ∀ (unit : Nat) (c : Char), unit < 0xD800 → c.toNat = unit →
        unit ∈ Utf16.encode text.toList → c ∈ text.toList := by
      rintro unit c low rfl inside
      obtain ⟨d, member, same⟩ := (Utf16.mem_encode low).mp inside
      rwa [← Char.toNat_inj.mp same]
    intro unit inside
    constructor
    · rintro rfl
      exact (plain _ (named 0x0A '\n' (by decide) rfl inside)).1 rfl
    · rintro rfl
      exact (plain _ (named 0x0D '\r' (by decide) rfl inside)).2 rfl
  rw [readLine, Holds.lineUnits_eq h turn (fun _ => Utf16.lt_of_mem_encode) units]
  dsimp only
  rw [toText_encode]
  rfl

/-- Texts without line feeds and carriage returns are shown to those who read lines. -/
theorem readsAs_readLine {texts : List String} {stores : List Store}
    (plain : ∀ text ∈ texts, ∀ c ∈ text.toList, c ≠ '\n' ∧ c ≠ '\r')
    (calls : stores.length = texts.length) :
    List.Forall₂ (ReadsAs readLine id encodedLine shown) texts stores :=
  List.forall₂_iff_zip.mpr ⟨calls.symm, fun inside _ _ held turn =>
    Holds.readLine_eq held turn (plain _ (List.of_mem_zip inside).1)⟩

end FieldView

/-! ## Through a pipe -/

/-- Lines that are written to a stream are read from it. In every run, wherever in the blob the field
comes to lie: lines without line feeds and carriage returns are streamed in a fragment, and the field
is finished. As long as no unreleased byte is overwritten and the fragment is not given up, the reader
that comes to the field reads as many lines, each as it is shown, and is then at the end of the field.
The lines are those that were written if and only if each of their characters is a single unit. -/
theorem line_round_trip_iff {registry : Registry} {config : Config} {slab blob n : Int}
    {p q r : Pipe} {s t u : Session} {d : Draft} {w v : FieldWriter} {calls : List (StreamCall String)}
    {c : Reading} {stores : List Store} (prepared : registry.Prepares config slab blob p)
    (before : Reaches anyCall (Session.start p) s) (draft : s.draft = some d)
    (unconfirmed : d.confirmed = false) (space : d.content.filled + 2 < d.fragment.size)
    (opened : s.pipe.openStream = (.ok w, q))
    (streamed : { s with pipe := q }.stream FieldWriter.writeLine w calls = some (t, v))
    (plain : ∀ text ∈ StreamCall.items calls, ∀ c ∈ text.toList, c ≠ '\n' ∧ c ≠ '\r')
    (finished : v.finish = (.ok n, r))
    (later : Reaches (carrying s.written.length)
      (t.endStream d ((StreamCall.items calls).flatMap encodedLine) r) u)
    (reading : u.reading = some c) (here : u.received.length = s.written.length)
    (field : c.fields.length = d.content.entries.length)
    (reads : stores.length = (StreamCall.items calls).length)
    (during : ∀ x ∈ stores, ∃ y, Reaches (carrying s.written.length) (u.viewNext c) y ∧
      y.received.length = s.written.length ∧ y.pipe.store = x) :
    (FieldView.openField u.pipe).1 = n ∧
    ((FieldView.openField u.pipe).2.1.readAll FieldView.readLine stores).1 =
      (StreamCall.items calls).map shown ∧
    ((FieldView.openField u.pipe).2.1.readAll FieldView.readLine stores).2.remaining = 0 ∧
    (((FieldView.openField u.pipe).2.1.readAll FieldView.readLine stores).1 =
        StreamCall.items calls ↔
      ∀ text ∈ StreamCall.items calls, ∀ c ∈ text.toList, c.toNat < 0x10000) := by
  obtain ⟨length, all, view⟩ := Session.view_of_stream FieldWriter.stores_writeLine prepared before
    draft unconfirmed space opened streamed finished later reading here field
  obtain ⟨lines, rest⟩ := FieldView.readAll_of_holds (FieldView.readsAs_readLine plain reads) all
    fun x inside => view x (during x inside)
  refine ⟨length, lines, rest, ?_⟩
  rw [lines, map_shown_eq_iff]

/-- Two lines of eight bytes, from byte 30 of the blob on, around its end. -/
def lineSample : List (StreamCall String) := [.write "中é", .read .look, .write ""]

/-- Lines that are streamed around the end of the blob, and read while another field is written. -/
theorem line_round_trip_iff_sample :
    ∃ s d w q t v r u c y,
      play anyCall (Session.start samplePipe) openSample = some s ∧ s.draft = some d ∧
      s.pipe.openStream = (.ok w, q) ∧
      { s with pipe := q }.stream FieldWriter.writeLine w lineSample = some (t, v) ∧
      v.finish = (.ok 8, r) ∧
      play (carrying 0) (t.endStream d ((StreamCall.items lineSample).flatMap encodedLine) r)
        visitSample = some u ∧
      u.reading = some c ∧ play (carrying 0) (u.viewNext c) besideSample = some y ∧
      (FieldView.openField u.pipe).1 = 8 ∧
      ((FieldView.openField u.pipe).2.1.readAll FieldView.readLine
        [(u.viewNext c).pipe.store, y.pipe.store]).1 = ["中é", ""] := by
  obtain ⟨s, d, w, t, v, u, c, y, ⟨played, draft, opened, streamed, finished, later, reading, during⟩,
    first, unconfirmed, space, here, field, still⟩ :=
    exists_of_visits
      (by decide +kernel : visits FieldWriter.writeLine encodedLine lineSample 8 = true)
  have run := later
  have beside := during
  rw [← first] at run beside
  have seen : ∀ x ∈ [(u.viewNext c).pipe.store, y.pipe.store],
      ∃ z, Reaches (carrying s.written.length) (u.viewNext c) z ∧
        z.received.length = s.written.length ∧ z.pipe.store = x := by
    intro x inside
    simp only [List.mem_cons, List.not_mem_nil, or_false] at inside
    rcases inside with rfl | rfl
    · exact ⟨_, .refl, here.trans first.symm, rfl⟩
    · exact ⟨y, .of_play beside, still.trans first.symm, rfl⟩
  have units : (StreamCall.items lineSample).all fun text => text.toList.all fun c =>
      (c ≠ '\n' ∧ c ≠ '\r') ∧ c.toNat < 0x10000 := by decide
  have every : ∀ text ∈ StreamCall.items lineSample, ∀ c ∈ text.toList,
      (c ≠ '\n' ∧ c ≠ '\r') ∧ c.toNat < 0x10000 := fun text inside c among =>
    of_decide_eq_true (List.all_eq_true.mp (List.all_eq_true.mp units text inside) c among)
  obtain ⟨length, -, -, same⟩ := line_round_trip_iff (.opened open?_sample) (.of_play played) draft
    unconfirmed space opened streamed (fun text inside c among => (every text inside c among).1)
    finished (.of_play run) reading (here.trans first.symm) field rfl seen
  exact ⟨s, d, w, _, t, v, _, u, c, y, played, draft, opened, streamed, finished, later, reading,
    during, length, same.mpr fun text inside c among => (every text inside c among).2⟩

/-- A line of one character of two units is read as two replacement characters. -/
theorem line_misread :
    (play anyCall (Session.start samplePipe) openSample).any fun s =>
      s.draft.any fun d =>
        s.pipe.openStream.1.toOption.any fun w =>
          ({ s with pipe := s.pipe.openStream.2 }.stream FieldWriter.writeLine w
            [.write "😀"]).any fun x : Session × FieldWriter =>
              x.2.finish.1.toOption = some 6 ∧
                (play (carrying 0) (x.1.endStream d (encodedLine "😀") x.2.finish.2)
                  visitSample).any fun u : Session =>
                    ((FieldView.openField u.pipe).2.1.readAll FieldView.readLine
                      [u.pipe.store]).1 = ["\uFFFD\uFFFD"] := by
  decide +kernel

end FragmentPipe
