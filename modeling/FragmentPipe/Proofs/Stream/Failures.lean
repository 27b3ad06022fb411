import FragmentPipe.Proofs.Stream.Fetches

/-!
Calls of a streamed field that fail. A call that writes is refused before it stores anything, also
one that stores a length and a text, so that it leaves the field and its pipe as they are; a number
is read as a whole or not at all. Only a text is taken in two parts: its length counts as read when
the field turns out to have fewer bytes. Main statements: `Item.write_eq` and
`FieldView.readText_eq`, when calls fail and what they do otherwise, and `failures_keep_iff`, which
failed calls leave everything as it was.
-/

namespace FragmentPipe

/-! ## Writing -/

/-- The error with which an item is refused where `room` bytes are free: a text is measured before
anything is stored. -/
def Item.refusal? (room : Nat) : Item → Option StreamError
  | text value =>
    if 65535 < (Utf8.encodeText value).length then some .textTooLong
    else if room < (text value).encoded.length then some .noRoom
    else none
  | item => if room < item.encoded.length then some .noRoom else none

theorem FieldWriter.put_eq (w : FieldWriter) (bytes : List UInt8) :
    w.put bytes =
      if w.remaining < bytes.length then (.error .noRoom, w) else (.ok (), w.stored bytes) := by
  rw [put, stored, Ring.putList_eq_setList]

/-- The length and the text behind it both fit where they are measured to fit. -/
theorem FieldWriter.writeText_eq (w : FieldWriter) (value : String) :
    w.writeText value =
      match (Item.text value).refusal? w.remaining with
      | some e => (.error e, w)
      | none => (.ok (), w.stored (Item.text value).encoded) := by
  have length : (Item.text value).encoded.length = (Utf8.encodeText value).length + 2 := by
    rw [Item.encoded, List.length_append, LittleEndian.length_encode, Nat.add_comm]
  unfold writeText Item.refusal?
  dsimp only
  rw [length]
  by_cases long : 65535 < (Utf8.encodeText value).length
  · rw [if_pos long, if_pos long]
  by_cases tight : w.remaining < (Utf8.encodeText value).length + 2
  · rw [if_neg long, if_neg long, if_pos tight, if_pos tight]
  · have number := LittleEndian.length_encode 2 (Utf8.encodeText value).length
    have left : (w.stored (LittleEndian.encode 2 (Utf8.encodeText value).length)).remaining =
        w.remaining - 2 := by
      show w.room - (w.written + _) = w.room - w.written - 2
      rw [number, Nat.sub_sub]
    rw [if_neg long, if_neg long, if_neg tight, if_neg tight, putNumber, put_eq, number,
      if_neg (by omega)]
    dsimp only
    rw [put_eq, left, if_neg (by omega), stored_append, Item.encoded]

/-- A call that writes an item either is refused, and then does nothing, or stores all its bytes. -/
theorem Item.write_eq (w : FieldWriter) (item : Item) :
    item.write w =
      match item.refusal? w.remaining with
      | some e => (.error e, w)
      | none => (.ok (), w.stored item.encoded) := by
  have number (bytes : List UInt8) :
      w.put bytes =
        match (if w.remaining < bytes.length then some StreamError.noRoom else none) with
        | some e => (.error e, w)
        | none => (.ok (), w.stored bytes) := by
    rw [FieldWriter.put_eq]
    split <;> rfl
  cases item with
  | text value => exact w.writeText_eq value
  | _ => exact number _

theorem Item.write_error {w w' : FieldWriter} {item : Item} {e : StreamError}
    (failed : item.write w = (.error e, w')) :
    item.refusal? w.remaining = some e ∧ w' = w := by
  rw [Item.write_eq] at failed
  cases refused : item.refusal? w.remaining with
  | some e' =>
    rw [refused] at failed
    cases failed
    exact ⟨rfl, rfl⟩
  | none =>
    rw [refused] at failed
    cases failed

/-! ## Reading -/

namespace FieldView

theorem fixed_error {v v' : FieldView} {s : Store} {k : Fixed} {e : StreamError}
    (failed : k.read v s = (.error e, v')) : v.remaining < k.width ∧ v' = v := by
  rw [Fixed.read_eq, takeAs, takeNumber] at failed
  by_cases short : v.remaining < k.width
  · rw [if_pos short] at failed
    cases failed
    exact ⟨short, rfl⟩
  · rw [if_neg short] at failed
    cases failed

/-- The number of bytes that the text at the cursor has, as its two bytes of length tell. -/
def toldLength (v : FieldView) (s : Store) : Nat := LittleEndian.decode (v.bytes s 2)

/-- A text is read in two steps, and the second one may fail after the first one. -/
theorem readText_eq (v : FieldView) (s : Store) :
    v.readText s =
      if v.remaining < 2 then (.error .unexpectedEnd, v)
      else if v.remaining - 2 < v.toldLength s then (.error .unexpectedEnd, v.advance 2)
      else
        (.ok ((v.advance 2).decodeText s (v.toldLength s)).1,
          ((v.advance 2).decodeText s (v.toldLength s)).2) := by
  rw [readText, takeNumber]
  by_cases lengthless : v.remaining < 2
  · rw [if_pos lengthless, if_pos lengthless]
  · rw [if_neg lengthless, if_neg lengthless]
    rfl

/-- A cursor that has gone past some bytes that were left stands elsewhere. -/
theorem advance_ne {v : FieldView} {count : Nat} (positive : 0 < count)
    (within : count ≤ v.remaining) : v.advance count ≠ v := by
  intro same
  have left : v.remaining - count = v.remaining := congrArg remaining same
  omega

theorem readText_error {v v' : FieldView} {s : Store} {e : StreamError}
    (failed : v.readText s = (.error e, v')) :
    (v.remaining < 2 ∧ v' = v) ∨
      (2 ≤ v.remaining ∧ v.remaining - 2 < v.toldLength s ∧ v' = v.advance 2) := by
  rw [readText_eq] at failed
  by_cases lengthless : v.remaining < 2
  · rw [if_pos lengthless] at failed
    cases failed
    exact .inl ⟨lengthless, rfl⟩
  · rw [if_neg lengthless] at failed
    by_cases short : v.remaining - 2 < v.toldLength s
    · rw [if_pos short] at failed
      cases failed
      exact .inr ⟨Nat.le_of_not_lt lengthless, short, rfl⟩
    · rw [if_neg short] at failed
      cases failed

end FieldView

/-- Which failed calls leave everything as it was. An item that can not be written leaves the field
and its pipe alone, and a number that can not be read leaves the view alone. A text that can not be
read leaves it alone exactly if not even its length is there: otherwise the length, which tells of
more bytes than the field has left, counts as read. -/
theorem failures_keep_iff (w : FieldWriter) (v : FieldView) (s : Store) :
    (∀ {item : Item} {e : StreamError} {w' : FieldWriter}, item.write w = (.error e, w') → w' = w) ∧
    (∀ {k : Fixed} {e : StreamError} {v' : FieldView}, k.read v s = (.error e, v') → v' = v) ∧
    ∀ {e : StreamError} {v' : FieldView}, v.readText s = (.error e, v') →
      (v' = v ↔ v.remaining < 2) ∧
        (2 ≤ v.remaining → v.remaining - 2 < v.toldLength s ∧ v' = v.advance 2) := by
  refine ⟨fun failed => (Item.write_error failed).2,
    fun failed => (FieldView.fixed_error failed).2, fun {e v'} failed => ?_⟩
  rcases FieldView.readText_error failed with ⟨lengthless, same⟩ | ⟨there, short, moved⟩
  · exact ⟨iff_of_true same lengthless, fun told => absurd told (Nat.not_le_of_lt lengthless)⟩
  · refine ⟨iff_of_false ?_ (Nat.not_lt.mpr there), fun _ => ⟨short, moved⟩⟩
    rw [moved]
    exact FieldView.advance_ne (by decide) there

/-- Where one byte is free no text is written, and where one byte is left neither a number of two
bytes nor a text is read. -/
theorem failures_keep_iff_sample :
    let w := { FieldWriter.ofPipe samplePipe with written := 30 }
    let v := FieldView.ofRun .blob 30 1
    let s := samplePipe.store
    (Item.text "").write w = (.error .noRoom, w) ∧
      Fixed.short.read v s = (.error .unexpectedEnd, v) ∧
      v.readText s = (.error .unexpectedEnd, v) := by
  intro w v s
  have written : ((Item.text "").write w).1 = .error .noRoom := by rfl
  have number : (Fixed.short.read v s).1 = .error .unexpectedEnd := by rfl
  have text : (v.readText s).1 = .error .unexpectedEnd := by rfl
  obtain ⟨writes, numbers, texts⟩ := failures_keep_iff w v s
  exact ⟨Prod.ext written (writes (Prod.ext written rfl)),
    Prod.ext number (numbers (Prod.ext number rfl)),
    Prod.ext text ((texts (Prod.ext text rfl)).1.mpr (by decide))⟩

/-- A failed read of a text moves the cursor. The field has four bytes, the first two of which tell
of five: the read fails, and what the caller reads next is what lies behind the length. -/
theorem half_taken_text :
    (play anyCall (Session.start samplePipe)
      (writeSample (some 7) [5, 0, 0x41, 0x42] ++ [.flush, .receive, .take .optionalInt])).any
      fun s =>
        let v := (FieldView.openField s.pipe).2.1
        let failed := v.readText s.pipe.store
        failed.1.isOk = false ∧ v.remaining = 4 ∧ failed.2.remaining = 2 ∧ failed.2 ≠ v ∧
          (v.readUnit s.pipe.store).1.toOption = some 5 ∧
          (failed.2.readUnit s.pipe.store).1.toOption = some 0x4241 := by
  decide +kernel

end FragmentPipe
