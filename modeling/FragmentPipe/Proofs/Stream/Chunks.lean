import FragmentPipe.Proofs.Stream.Items

/-!
What is done to a stream before it is finished. A `Chunk` is written to it, and all that this does is
to store bytes behind those written before. Main statements: `Chunk.write_induction`, what every store
keeps is kept by every chunk, and `Chunk.alike`, how many bytes are written of a chunk depends on the
bytes written before and the room alone.
-/

namespace FragmentPipe

/-- What is written to a stream. -/
inductive Chunk where
  | item (item : Item)
  | line (text : String)
  /-- As many of the bytes as fit. -/
  | some (data : List UInt8)

/-- The stream after something is written to it, or as much of it as fits. -/
def Chunk.write (w : FieldWriter) : Chunk → FieldWriter
  | item i => (i.write w).2
  | line text => (w.writeLine text).2
  | some data => (w.writeSome data).2

namespace FieldWriter

/-! ## What a store keeps -/

/-- All that a writer does to a stream is to store bytes behind those written before. -/
def Extends (w v : FieldWriter) : Prop := ∃ bytes, v = w.stored bytes

variable {w v x : FieldWriter}

theorem Extends.refl (w : FieldWriter) : w.Extends w := ⟨[], rfl⟩

theorem Extends.trans (first : w.Extends v) (second : v.Extends x) : w.Extends x := by
  obtain ⟨front, rfl⟩ := first
  obtain ⟨rest, rfl⟩ := second
  exact ⟨front ++ rest, stored_append w front rest⟩

theorem extends_put (w : FieldWriter) (bytes : List UInt8) : w.Extends (w.put bytes).2 := by
  unfold put
  split
  · exact .refl w
  · exact ⟨bytes, by rw [stored, Ring.putList_eq_setList]⟩

section Induction

variable {holds : FieldWriter → Prop} {w : FieldWriter}

theorem writeUnits_induction (keeps : ∀ v bytes, holds v → holds (v.put bytes).2)
    (units : List Nat) (first : holds w) : holds (w.writeUnits units).2 := by
  induction units generalizing w with
  | nil => exact first
  | cons unit units ih =>
    have next := keeps w (LittleEndian.encode 2 unit) first
    rw [writeUnits, putNumber]
    split
    · next written =>
      rw [written] at next
      exact next
    · next written =>
      rw [written] at next
      exact ih next

theorem writeText_induction (keeps : ∀ v bytes, holds v → holds (v.put bytes).2) (text : String)
    (first : holds w) : holds (w.writeText text).2 := by
  have next := keeps w (LittleEndian.encode 2 (Utf8.encodeText text).length) first
  unfold writeText putNumber
  dsimp only
  split
  · exact first
  · split
    · exact first
    · split
      · next written =>
        rw [written] at next
        exact next
      · next written =>
        rw [written] at next
        exact keeps _ _ next

theorem writeSome_induction (keeps : ∀ v bytes, holds v → holds (v.put bytes).2)
    (data : List UInt8) (first : holds w) : holds (w.writeSome data).2 := by
  have next := keeps w (data.take (min data.length w.remaining)) first
  unfold writeSome
  dsimp only
  split
  · exact first
  · split
    · next written =>
      rw [written] at next
      exact next
    · next written =>
      rw [written] at next
      exact next

end Induction

/-! ## Streams in step -/

/-- Two streams, of one pipe or of two, with as many bytes and as much room. -/
structure Alike (w v : FieldWriter) : Prop where
  written : v.written = w.written
  room : v.room = w.room

theorem Alike.remaining (same : w.Alike v) : v.remaining = w.remaining := by
  rw [FieldWriter.remaining, FieldWriter.remaining, same.written, same.room]

/-- The same bytes fit both or neither of them. -/
theorem Alike.put (same : w.Alike v) (bytes : List UInt8) :
    ∃ answer w' v', w.put bytes = (answer, w') ∧ v.put bytes = (answer, v') ∧ w'.Alike v' := by
  unfold FieldWriter.put
  rw [same.remaining]
  split
  · exact ⟨_, _, _, rfl, rfl, same⟩
  · exact ⟨_, _, _, rfl, rfl, congrArg (· + bytes.length) same.written, same.room⟩

theorem Alike.writeUnits (same : w.Alike v) (units : List Nat) :
    (w.writeUnits units).2.Alike (v.writeUnits units).2 := by
  induction units generalizing w v with
  | nil => exact same
  | cons unit units ih =>
    obtain ⟨answer, w', v', left, right, next⟩ := same.put (LittleEndian.encode 2 unit)
    rw [FieldWriter.writeUnits, FieldWriter.writeUnits, putNumber, putNumber, left, right]
    cases answer with
    | error e => exact next
    | ok u => exact ih next

theorem Alike.writeText (same : w.Alike v) (text : String) :
    (w.writeText text).2.Alike (v.writeText text).2 := by
  obtain ⟨answer, w', v', left, right, next⟩ :=
    same.put (LittleEndian.encode 2 (Utf8.encodeText text).length)
  unfold FieldWriter.writeText putNumber
  dsimp only
  rw [same.remaining, left, right]
  split
  · exact same
  · split
    · exact same
    · cases answer with
      | error e => exact next
      | ok u =>
        obtain ⟨_, _, _, left, right, last⟩ := next.put (Utf8.encodeText text)
        dsimp only
        rw [left, right]
        exact last

theorem Alike.writeSome (same : w.Alike v) (data : List UInt8) :
    (w.writeSome data).2.Alike (v.writeSome data).2 := by
  obtain ⟨answer, w', v', left, right, next⟩ := same.put (data.take (min data.length w.remaining))
  unfold FieldWriter.writeSome
  dsimp only
  rw [same.remaining, left, right]
  split
  · exact same
  · cases answer with
    | error e => exact next
    | ok u => exact next

end FieldWriter

namespace Chunk

/-- What every store keeps is kept by everything that is written. -/
theorem write_induction {holds : FieldWriter → Prop} {w : FieldWriter}
    (keeps : ∀ v bytes, holds v → holds (v.put bytes).2) (chunk : Chunk) (first : holds w) :
    holds (chunk.write w) := by
  cases chunk with
  | item i =>
    cases i with
    | text value => exact FieldWriter.writeText_induction keeps value first
    | _ => exact keeps _ _ first
  | line text => exact FieldWriter.writeUnits_induction keeps _ first
  | some data => exact FieldWriter.writeSome_induction keeps data first

/-- Streams in step stay so, whatever is written to both. -/
theorem alike (chunk : Chunk) {w v : FieldWriter} (same : w.Alike v) :
    (chunk.write w).Alike (chunk.write v) := by
  cases chunk with
  | item i =>
    cases i with
    | text value => exact same.writeText value
    | _ =>
      obtain ⟨_, _, _, left, right, next⟩ := same.put _
      show (FieldWriter.put w _).2.Alike (FieldWriter.put v _).2
      rw [left, right]
      exact next
  | line text => exact same.writeUnits _
  | some data => exact same.writeSome data

end Chunk

theorem Chunk.extends (chunk : Chunk) (w : FieldWriter) : w.Extends (chunk.write w) :=
  chunk.write_induction (fun v bytes h => h.trans (v.extends_put bytes)) (.refl w)

/-! ## Opening and finishing -/

namespace Pipe

variable {p q : Pipe}

theorem openStream_ok {w : FieldWriter} (opened : p.openStream = (.ok w, q)) :
    q = { p with producer.fieldOpen := true } ∧ w = .ofPipe q := by
  unfold openStream openField at opened
  split at opened
  · cases opened
  · next h =>
    split at h
    · cases h
    · cases h
      cases opened
      exact ⟨rfl, rfl⟩

theorem checkLength_fieldOpen (p : Pipe) (length : Int) :
    (p.checkLength length).2.producer.fieldOpen = p.producer.fieldOpen := by
  cases checked : p.checkLength length with
  | mk answer q =>
    cases answer with
    | error e =>
      obtain ⟨-, events, cause, rfl⟩ := marked_checkLength checked
      rfl
    | ok u =>
      obtain rfl := checkLength_ok checked
      rfl

/-- The length is checked whether or not the field is open, and what was open is closed. -/
theorem finish_eq (w : FieldWriter) :
    w.finish =
      if w.pipe.producer.fieldOpen then
        match w.pipe.checkLength w.written with
        | (.error e, q) => (.error e, { q with producer.fieldOpen := false })
        | (.ok _, q) =>
          (.ok w.written, { q with producer.fieldOpen := false }.commitField w.written)
      else
        (.error .blobWriteNotOpen, ((w.pipe.checkLength w.written).2.shutdown
          "blob field write closed without being opened").2) := by
  have same := w.pipe.checkLength_fieldOpen w.written
  unfold FieldWriter.finish closeField
  cases checked : w.pipe.checkLength w.written with
  | mk answer q =>
    rw [checked] at same
    dsimp only at same ⊢
    rw [same]
    cases w.pipe.producer.fieldOpen with
    | false => rfl
    | true =>
      cases answer with
      | error e => rfl
      | ok u => rfl

/-- A field is committed as long as it was checked. -/
theorem finish_ok {w : FieldWriter} {n : Int} (finished : w.finish = (.ok n, q)) :
    n = w.written ∧ w.pipe.nextAverage w.written ≤ w.pipe.store.config.maxAverage ∧
      q = { w.pipe with
        producer.average := w.pipe.nextAverage w.written
        producer.fieldOpen := false }.commitField w.written := by
  unfold FieldWriter.finish checkLength closeField at finished
  by_cases tooLong : w.pipe.store.config.maxAverage < w.pipe.nextAverage w.written
  · simp only [if_pos tooLong] at finished
    split at finished
    · cases finished
    · cases finished
  · simp only [if_neg tooLong] at finished
    split at finished
    · cases finished
    · next closed =>
      split at closed
      · cases closed
        cases finished
        exact ⟨rfl, by omega, rfl⟩
      · cases closed

end Pipe

end FragmentPipe
