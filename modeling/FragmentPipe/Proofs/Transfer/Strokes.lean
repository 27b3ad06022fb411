import FragmentPipe.Proofs.Stream.Chunks
import FragmentPipe.Proofs.Text.DecimalExtent

/-!
Everything that writes fields. A `Stroke` writes a field as an `Entry` does, makes or fetches the
bytes of a field itself, or is a part of a streamed field; `Stroke.reach` counts the bytes of the
blob that it may change. Main statements: `Stroke.run_field`, an accepted field stores cells behind
the slab head and bytes within its reach, among them its own, and `Stroke.run_aside`, everything else
stores bytes within its reach and is no field.
-/

namespace FragmentPipe

/-! ## Refusals -/

namespace Pipe

variable {p q : Pipe} {e : PipeError}

theorem marked_putDecimalText {places : Nat} {mantissa : Int64}
    (refused : p.putDecimalText places mantissa = (.error e, q)) : p.Marked e q := by
  unfold putDecimalText at refused
  split at refused
  · cases refused
    exact ⟨nofun, _, _, rfl⟩
  · exact marked_putField refused

/-- A copy that is refused leaves the view where it is. -/
theorem marked_copyInto {v w : FieldView} {source : Store} {limit : Nat}
    (refused : v.copyInto source p limit = (.error e, w, q)) : w = v ∧ p.Marked e q := by
  unfold FieldView.copyInto at refused
  dsimp only at refused
  split at refused
  · next tooLong =>
    cases refused
    exact ⟨rfl, marked_putField tooLong⟩
  · cases refused

theorem marked_copyWithin {v w : FieldView} {limit : Nat}
    (refused : v.copyWithin p limit = (.error e, w, q)) : w = v ∧ p.Marked e q := by
  unfold FieldView.copyWithin at refused
  split at refused
  · exact marked_copyInto refused
  · dsimp only at refused
    split at refused
    · next tooLong =>
      cases refused
      exact ⟨rfl, marked_putField tooLong⟩
    · cases refused

/-- A second stream is refused. -/
theorem marked_openStream (refused : p.openStream = (.error e, q)) : p.Marked e q := by
  unfold openStream openField at refused
  split at refused
  · next again =>
    split at again
    · cases again
      cases refused
      exact ⟨nofun, p.shutdown_snd _⟩
    · cases again
  · cases refused

end Pipe

/-! ## Fields whose bytes are made or fetched -/

/-- A field whose bytes the call makes or fetches itself. -/
inductive Made where
  | intText (value : Int32)
  | longText (value : Int64)
  | decimalText (places : Nat) (mantissa : Int64)
  /-- The bytes in view of another pipe. -/
  | copied (v : FieldView) (source : Store) (limit : Nat)
  /-- The bytes in view of the same pipe. -/
  | moved (v : FieldView) (limit : Nat)
  /-- A stream that is finished, with the bytes written and the room that it had. -/
  | streamed (written room : Nat)

namespace Made

/-- Writes the field. -/
def put (m : Made) (p : Pipe) : Except PipeError Unit × Pipe :=
  match m with
  | intText value => p.putIntText value
  | longText value => p.putLongText value
  | decimalText places mantissa => p.putDecimalText places mantissa
  | copied v source limit =>
    let copied := v.copyInto source p limit
    (copied.1.map fun _ => (), copied.2.2)
  | moved v limit =>
    let copied := v.copyWithin p limit
    (copied.1.map fun _ => (), copied.2.2)
  | streamed written room =>
    let finished := (FieldWriter.mk p p.producer.blobHead written room).finish
    (finished.1.map fun _ => (), finished.2)

/-- The length of the field. -/
def length : Made → Nat
  | intText value => Decimal.textLength value.toInt 0
  | longText value => Decimal.textLength value.toInt 0
  | decimalText places mantissa => Pipe.decimalTextLength places mantissa.toInt
  | copied v _ limit | moved v limit => min limit v.remaining
  | streamed written _ => written

/-- The length that is checked against the moving average. -/
def checked : Made → Nat
  | intText _ => 12
  | longText _ => 21
  | m => m.length

/-- How far behind the blob head bytes may change. -/
def reach : Made → Nat
  | decimalText places mantissa => Pipe.decimalTextSpan places mantissa.toInt
  | m => m.checked

/-- What writing a field can come to. -/
inductive Outcome (m : Made) (p : Pipe) : Except PipeError Unit × Pipe → Prop where
  /-- Bytes within the reach are stored and committed. -/
  | accepted {blob : Ring UInt8} {isOpen : Bool}
    (allowed : p.nextAverage m.checked ≤ p.store.config.maxAverage)
    (within : p.store.blob.SameOutside blob p.producer.blobHead m.reach) :
    Outcome m p (.ok (), { p with
      store.blob := blob
      producer.average := p.nextAverage m.checked
      producer.fieldOpen := isOpen }.commitField m.length)
  | denied {e : PipeError} {average : Int} {isOpen : Bool} {events : List Event}
    {cause : Option String}
    (tooLong : e.isRefusal = true → p.store.config.maxAverage < p.nextAverage m.checked)
    (moved : average = p.producer.average ∨ average = p.nextAverage m.checked) :
    Outcome m p (.error e,
      p.withField [] p.store.blob p.producer.blobHead average isOpen events cause)

variable {m : Made} {p q : Pipe}

/-- A field that is refused for its length or for no length leaves its mark on the status. -/
theorem outcome_of_marked {e : PipeError} (marked : p.Marked e q)
    (tooLong : e.isRefusal = true → p.store.config.maxAverage < p.nextAverage m.checked) :
    m.Outcome p (.error e, q) := by
  obtain ⟨-, events, cause, rfl⟩ := marked
  rw [Pipe.withStatus_eq]
  exact .denied tooLong (.inl rfl)

/-- A field that is filled behind its checked length. -/
theorem outcome_of_putField {fill : Ring UInt8 → Int → Int × Ring UInt8}
    (length : (fill p.store.blob p.producer.blobHead).1 = m.length)
    (within : p.store.blob.SameOutside (fill p.store.blob p.producer.blobHead).2
      p.producer.blobHead m.reach) : m.Outcome p (p.putField m.checked fill) := by
  unfold Pipe.putField Pipe.checkLength
  by_cases tooLong : p.store.config.maxAverage < p.nextAverage m.checked
  · simp only [if_pos tooLong]
    exact outcome_of_marked (p.marked_refuseField _) fun _ => tooLong
  · simp only [if_neg tooLong, length]
    exact .accepted (by omega) within

theorem reach_intText (value : Int32) (blob : Ring UInt8) (head : Int) :
    blob.SameOutside (Decimal.put blob value.toInt 0 (head + Pipe.intTextSpan) head).2 head
      (intText value).reach := by
  have digits := Decimal.length_int_le value
  exact Decimal.sameOutside_put blob value.toInt 0 12 head (by omega)

theorem reach_longText (value : Int64) (blob : Ring UInt8) (head : Int) :
    blob.SameOutside (Decimal.put blob value.toInt 0 (head + Pipe.longTextSpan) head).2 head
      (longText value).reach := by
  have digits := Decimal.length_long_le value
  exact Decimal.sameOutside_put blob value.toInt 0 21 head (by omega)

theorem outcome_of_decimalText (places : Nat) (mantissa : Int64) :
    (decimalText places mantissa).Outcome p (p.putDecimalText places mantissa) := by
  unfold Pipe.putDecimalText
  split
  · exact outcome_of_marked ⟨nofun, p.store.events, p.store.shutdownCause, rfl⟩ nofun
  · refine outcome_of_putField ?_ ?_
    · dsimp only
      rw [Pipe.fillDecimalText_fst, length]
      omega
    · exact Pipe.sameOutside_fillDecimalText (by omega) mantissa _ _

/-- Of a copy only the answer and the pipe matter. -/
theorem copied_eq {v w : FieldView} {count : Nat} {result : Except PipeError Unit × Pipe}
    {copied : Except PipeError Nat × FieldView × Pipe}
    (same : copied = match result with
      | (.error e, p) => (.error e, v, p)
      | (.ok _, p) => (.ok count, w, p)) :
    (copied.1.map fun _ => (), copied.2.2) = result := by
  obtain ⟨answer, q⟩ := result
  subst same
  cases answer with
  | error e => rfl
  | ok u => rfl

theorem put_copied (v : FieldView) (source : Store) (limit : Nat) (p : Pipe) :
    (copied v source limit).put p =
      p.putField (min limit v.remaining : Nat) fun blob goal =>
        ((min limit v.remaining : Nat),
          ByteStore.putList blob goal (v.bytes source (min limit v.remaining))) :=
  copied_eq rfl

theorem put_moved (v : FieldView) (limit : Nat) (p : Pipe) :
    (moved v limit).put p =
      p.putField (min limit v.remaining : Nat) fun blob goal =>
        ((min limit v.remaining : Nat),
          match v.backing with
          | .constants => ByteStore.putList blob goal (v.bytes p.store (min limit v.remaining))
          | .blob => ByteStore.shift blob v.position goal (min limit v.remaining)) := by
  obtain ⟨backing, position, length, remaining⟩ := v
  cases backing with
  | constants => exact copied_eq rfl
  | blob => exact copied_eq rfl

theorem outcome_of_copied (v : FieldView) (source : Store) (limit : Nat) :
    (copied v source limit).Outcome p ((copied v source limit).put p) := by
  have within := p.store.blob.sameOutside_setList p.producer.blobHead
    (v.bytes source (min limit v.remaining))
  rw [FieldView.length_bytes, ← Ring.putList_eq_setList] at within
  rw [put_copied]
  exact outcome_of_putField rfl within

theorem outcome_of_moved (v : FieldView) (limit : Nat) :
    (moved v limit).Outcome p ((moved v limit).put p) := by
  rw [put_moved]
  refine outcome_of_putField rfl ?_
  dsimp only
  split
  · have within := p.store.blob.sameOutside_setList p.producer.blobHead
      (v.bytes p.store (min limit v.remaining))
    rw [FieldView.length_bytes, ← Ring.putList_eq_setList] at within
    exact within
  · exact Ring.sameOutside_shift _ _ _ _

theorem outcome_of_streamed (written room : Nat) :
    (streamed written room).Outcome p ((streamed written room).put p) := by
  unfold put
  dsimp only
  rw [Pipe.finish_eq]
  dsimp only
  unfold Pipe.checkLength
  by_cases tooLong : p.store.config.maxAverage < p.nextAverage written
  · simp only [if_pos tooLong]
    obtain ⟨-, events, cause, status⟩ := p.marked_refuseField written
    rw [status]
    split
    · rw [Pipe.withStatus_eq]
      exact .denied (m := streamed written room) (fun _ => tooLong) (.inl rfl)
    · obtain ⟨events', cause', shut⟩ := (p.withStatus events cause).shutdown_snd
        "blob field write closed without being opened"
      rw [shut]
      exact outcome_of_marked ⟨nofun, events', cause', rfl⟩ nofun
  · simp only [if_neg tooLong]
    split
    · exact .accepted (m := streamed written room) (Int.not_lt.mp tooLong) (.refl _ _ _)
    · obtain ⟨events, cause, shut⟩ := ({ p with
        producer.average := p.nextAverage written } : Pipe).shutdown_snd
          "blob field write closed without being opened"
      have left : (streamed written room).Outcome p (.error .blobWriteNotOpen, p.withField []
          p.store.blob p.producer.blobHead (p.nextAverage written) p.producer.fieldOpen events
            cause) := .denied nofun (.inr rfl)
      rw [Pipe.withField_nil] at left
      rw [shut]
      exact left

/-- Writing a field comes to one of the outcomes. -/
theorem outcome (m : Made) (p : Pipe) : m.Outcome p (m.put p) := by
  cases m with
  | intText value =>
    show (intText value).Outcome p (p.putIntText value)
    exact outcome_of_putField (m := intText value) (congrArg Nat.cast (Decimal.put_fst ..))
      (reach_intText value p.store.blob p.producer.blobHead)
  | longText value =>
    show (longText value).Outcome p (p.putLongText value)
    exact outcome_of_putField (m := longText value) (congrArg Nat.cast (Decimal.put_fst ..))
      (reach_longText value p.store.blob p.producer.blobHead)
  | decimalText places mantissa => exact outcome_of_decimalText places mantissa
  | copied v source limit => exact outcome_of_copied v source limit
  | moved v limit => exact outcome_of_moved v limit
  | streamed written room => exact outcome_of_streamed written room

/-- A field is no longer than is checked. -/
theorem length_le_checked (m : Made) : m.length ≤ m.checked := by
  cases m with
  | intText value =>
    exact Nat.le_succ_of_le (Decimal.textLength_le (Decimal.length_int_le value))
  | longText value =>
    exact Nat.le_succ_of_le (Decimal.textLength_le (Decimal.length_long_le value))
  | decimalText | copied | moved | streamed => exact Nat.le_refl _

/-- An accepted field is no longer than it reaches. -/
theorem length_le_reach (accepted : (m.put p).1.isOk = true) : m.length ≤ m.reach := by
  cases m with
  | decimalText places mantissa =>
    have fine : (p.putDecimalText places mantissa).1.isOk = true := accepted
    unfold Pipe.putDecimalText at fine
    split at fine
    · cases fine
    · next few => exact Pipe.decimalTextLength_le (by omega) mantissa
  | intText | longText | copied | moved | streamed => exact length_le_checked _

/-- The answer to a field depends on the capacity, the moving average and whether a stream is open
alone. -/
theorem put_fst_congr (config : q.store.config = p.store.config)
    (average : q.producer.average = p.producer.average)
    (isOpen : q.producer.fieldOpen = p.producer.fieldOpen) (m : Made) :
    (m.put q).1 = (m.put p).1 := by
  have field (checked : Int) (fill fill' : Ring UInt8 → Int → Int × Ring UInt8) :
      (q.putField checked fill).1 = (p.putField checked fill').1 := by
    rw [Pipe.putField_fst, Pipe.putField_fst]
    exact Pipe.checkLength_fst_congr config average checked
  cases m with
  | intText value => exact field _ _ _
  | longText value => exact field _ _ _
  | decimalText places mantissa =>
    show (q.putDecimalText places mantissa).1 = (p.putDecimalText places mantissa).1
    unfold Pipe.putDecimalText
    split
    · rfl
    · exact field _ _ _
  | copied v source limit =>
    rw [put_copied, put_copied]
    exact field _ _ _
  | moved v limit =>
    rw [put_moved, put_moved]
    exact field _ _ _
  | streamed written room =>
    have checked := Pipe.checkLength_fst_congr config average written
    unfold put
    dsimp only
    rw [Pipe.finish_eq, Pipe.finish_eq]
    dsimp only
    rw [isOpen]
    cases left : q.checkLength written with
    | mk a x =>
      cases right : p.checkLength written with
      | mk b y =>
        rw [left, right] at checked
        cases checked
        cases p.producer.fieldOpen with
        | false => rfl
        | true =>
          cases a with
          | error e => rfl
          | ok u => rfl

end Made

/-! ## Parts of a streamed field -/

/-- A call that goes on with a streamed field. -/
inductive Piece where
  | openStream
  /-- Something is written to the stream, which has `written` bytes and room for `room`. -/
  | chunk (written room : Nat) (c : Chunk)
  | giveUp

namespace Piece

/-- Makes the call. -/
def run (c : Piece) (p : Pipe) : Except PipeError Unit × Pipe :=
  match c with
  | openStream => (p.openStream.1.map fun _ => (), p.openStream.2)
  | chunk written room c => (.ok (), (c.write ⟨p, p.producer.blobHead, written, room⟩).pipe)
  | giveUp => p.closeField

/-- How far behind the blob head bytes may change. -/
def reach (c : Piece) (p : Pipe) : Nat :=
  match c with
  | openStream | giveUp => 0
  | chunk written room c => (c.write ⟨p, p.producer.blobHead, written, room⟩).written

/-- A part of a field stores bytes within its reach, opens the field or closes it. Where there is
none to open or to close, it leaves its mark on the status. -/
theorem run_eq (c : Piece) (p : Pipe) :
    ∃ blob isOpen events cause, p.store.blob.SameOutside blob p.producer.blobHead (c.reach p) ∧
      ((c.run p).1.isOk = true → events = p.store.events ∧ cause = p.store.shutdownCause) ∧
      (c.run p).2 =
        p.withField [] blob p.producer.blobHead p.producer.average isOpen events cause := by
  cases c with
  | openStream =>
    refine ⟨p.store.blob, ?_⟩
    cases opened : p.openStream with
    | mk answer q =>
      cases answer with
      | error e =>
        obtain ⟨-, events, cause, rfl⟩ := Pipe.marked_openStream opened
        refine ⟨p.producer.fieldOpen, events, cause, .refl _ _ _, ?_, ?_⟩
        · rw [run, opened]
          exact nofun
        · rw [run, opened, ← Pipe.withStatus_eq]
      | ok w =>
        obtain ⟨rfl, -⟩ := Pipe.openStream_ok opened
        refine ⟨true, _, _, .refl _ _ _, fun _ => ⟨rfl, rfl⟩, ?_⟩
        rw [run, opened, Pipe.withField_nil]
  | chunk written room c =>
    obtain ⟨bytes, stored⟩ := c.extends ⟨p, p.producer.blobHead, written, room⟩
    have within := p.store.blob.sameOutside_setList (p.producer.blobHead + written) bytes
    refine ⟨p.store.blob.setList (p.producer.blobHead + written) bytes, p.producer.fieldOpen,
      _, _, ?_, fun _ => ⟨rfl, rfl⟩, ?_⟩
    · rw [reach, stored]
      exact within.mono (by omega)
        (by show _ ≤ _ + ((written + bytes.length : Nat) : Int); omega)
    · rw [run, stored, Pipe.withField_nil]
      rfl
  | giveUp =>
    refine ⟨p.store.blob, ?_⟩
    unfold run Pipe.closeField
    dsimp only
    split
    · refine ⟨false, _, _, .refl _ _ _, fun _ => ⟨rfl, rfl⟩, ?_⟩
      rw [Pipe.withField_nil]
    · obtain ⟨events, cause, shut⟩ := p.shutdown_snd
        "blob field write closed without being opened"
      refine ⟨p.producer.fieldOpen, events, cause, .refl _ _ _, nofun, ?_⟩
      rw [shut, Pipe.withStatus_eq]

/-- No part of a field is refused for its length. -/
theorem isRefusal_eq_false {c : Piece} {p : Pipe} {e : PipeError} (denied : (c.run p).1 = .error e) :
    e.isRefusal = false := by
  cases c with
  | openStream =>
    unfold run Pipe.openStream Pipe.openField at denied
    by_cases isOpen : p.producer.fieldOpen = true
    · simp only [if_pos isOpen] at denied
      cases denied
      rfl
    · simp only [if_neg isOpen] at denied
      cases denied
  | chunk => cases denied
  | giveUp =>
    unfold run Pipe.closeField at denied
    dsimp only at denied
    split at denied
    · cases denied
    · cases denied
      rfl

/-- The answer depends on whether a stream is open alone. -/
theorem run_fst_congr {p q : Pipe} (isOpen : q.producer.fieldOpen = p.producer.fieldOpen)
    (c : Piece) : (c.run q).1 = (c.run p).1 := by
  cases c with
  | openStream =>
    unfold run Pipe.openStream Pipe.openField
    dsimp only
    rw [isOpen]
    cases p.producer.fieldOpen with
    | false => rfl
    | true => rfl
  | chunk => rfl
  | giveUp =>
    unfold run Pipe.closeField
    dsimp only
    rw [isOpen]
    cases p.producer.fieldOpen with
    | false => rfl
    | true => rfl

/-- How far a part of a field reaches depends on where the stream begins alone. -/
theorem reach_congr (c : Piece) (p q : Pipe) : c.reach q = c.reach p := by
  cases c with
  | openStream | giveUp => rfl
  | chunk written room c =>
    exact (c.alike (w := ⟨p, p.producer.blobHead, written, room⟩)
      (v := ⟨q, q.producer.blobHead, written, room⟩) ⟨rfl, rfl⟩).written

end Piece

/-! ## All of them -/

/-- A call that writes a field or goes on with one. -/
inductive Stroke where
  | entry (e : Entry)
  | made (m : Made)
  | piece (c : Piece)

namespace Stroke

/-- Makes the call. -/
def run (w : Stroke) (p : Pipe) : Except PipeError Unit × Pipe :=
  match w with
  | entry e => e.put p
  | made m => m.put p
  | piece c => c.run p

/-- How far behind the blob head bytes may change. -/
def reach (w : Stroke) (p : Pipe) : Nat :=
  match w with
  | entry e => e.bytesIn.length
  | made m => m.reach
  | piece c => c.reach p

/-- The length that is checked against the moving average, if one is. -/
def checked? : Stroke → Option Int
  | entry (.content c) => c.checked?
  | made m => some m.checked
  | entry (.scalar _) | piece _ => none

/-- The moving average after a field that is accepted. -/
def averageAfter (w : Stroke) (p : Pipe) : Int :=
  match w.checked? with
  | none => p.producer.average
  | some length => p.nextAverage length

/-- The field that the call writes, one that it makes or fetches as the bytes that then lie in the
blob. -/
def field? (w : Stroke) (p : Pipe) : Option Entry :=
  match w with
  | entry e => some e
  | made m => some (.content (.bytes
      (ByteStore.getList (m.put p).2.store.blob p.producer.blobHead m.length)))
  | piece _ => none

/-- A field that is made or fetched is one whose length a descriptor can tell. -/
def Told : Stroke → Prop
  | made m => (m.length : Int) ≤ Pipe.maxInt
  | _ => True

instance (w : Stroke) : Decidable w.Told :=
  match w with
  | made _ => inferInstanceAs (Decidable (_ ≤ _))
  | entry _ | piece _ => .isTrue trivial

/-- The call writes this field. Of one that it makes or fetches the length is known. -/
def Writes (w : Stroke) (e : Entry) : Prop :=
  match w with
  | entry e' => e = e'
  | made m => ∃ data, data.length = m.length ∧ e = .content (.bytes data)
  | piece _ => False

/-- All that is known of a field that is accepted, and of the blob after it. -/
structure Stores (w : Stroke) (p : Pipe) (e : Entry) (blob : Ring UInt8) : Prop where
  accepted : (w.run p).1.isOk = true
  writes : w.Writes e
  sound : e.Sound p.store.config.constants
  within : p.store.blob.SameOutside blob p.producer.blobHead (w.reach p)
  held : e.bytesIn.length ≤ p.store.blob.size → blob.Holds p.producer.blobHead e.bytesIn

variable {w : Stroke} {p q : Pipe} {e : Entry} {blob : Ring UInt8}

theorem averageAfter_entry (e : Entry) (p : Pipe) : (entry e).averageAfter p = e.averageAfter p := by
  cases e with
  | scalar value => rfl
  | content value => rfl

theorem stores_made {m : Made} {data : List UInt8} (accepted : (m.put p).1.isOk = true)
    (length : data.length = m.length)
    (within : p.store.blob.SameOutside blob p.producer.blobHead m.reach)
    (held : blob.Holds p.producer.blobHead data) :
    (made m).Stores p (.content (.bytes data)) blob := by
  have sound : (Content.bytes data).Sound p.store.config.constants :=
    ⟨fun _ told => (Option.some.inj told).symm, nofun, nofun⟩
  exact ⟨accepted, ⟨data, length, rfl⟩, sound, within, fun _ => held⟩

/-- A field that is committed is one of bytes. -/
theorem commitField_of_told {m : Made} {data : List UInt8} (length : data.length = m.length)
    (told : (m.length : Int) ≤ Pipe.maxInt) (average : Int) (isOpen : Bool) :
    { p with
      store.blob := blob
      producer.average := average
      producer.fieldOpen := isOpen }.commitField m.length =
      p.withField
        ((Entry.content (.bytes data)).cells p.schema
          ((p.producer.blobHead - p.producer.writeBase) % blobSpan))
        blob ((Entry.content (.bytes data)).headAfter p.producer.blobHead) average isOpen
        p.store.events p.store.shutdownCause := by
  have same : Pipe.fieldLength data.length = m.length := by
    rw [length]
    exact Int.min_eq_left told
  have cells : (Entry.content (.bytes data)).cells p.schema
      ((p.producer.blobHead - p.producer.writeBase) % blobSpan) =
        Descriptor.cells ⟨p.originOf p.producer.blobHead, m.length⟩ := by
    rw [← same]
    rfl
  have head : (Entry.content (.bytes data)).headAfter p.producer.blobHead =
      (p.producer.blobHead + m.length) % blobSpan := by
    rw [← same]
    rfl
  rw [Pipe.commitField_eq, cells, head]
  rfl

/-- A field that is accepted is stored behind both heads. -/
theorem run_field (told : w.Told) (field : w.field? p = some e)
    (accepted : w.run p = (.ok (), q)) :
    ∃ blob isOpen, w.Stores p e blob ∧
      q = p.withField
        (e.cells p.schema ((p.producer.blobHead - p.producer.writeBase) % blobSpan)) blob
        (e.headAfter p.producer.blobHead) (w.averageAfter p) isOpen p.store.events
        p.store.shutdownCause := by
  have fine : (w.run p).1.isOk = true := by
    rw [accepted]
    rfl
  cases w with
  | entry e' =>
    cases field
    obtain ⟨sound, rfl⟩ := Entry.put_ok accepted
    rw [averageAfter_entry]
    exact ⟨_, p.producer.fieldOpen, ⟨fine, rfl, sound, p.store.blob.sameOutside_setList _ _,
      Ring.holds_setList _ _ _⟩, rfl⟩
  | made m =>
    have outcome := m.outcome p
    have put : m.put p = (.ok (), q) := accepted
    simp only [field?, put] at field
    rw [put] at outcome
    cases outcome with
    | @accepted blob isOpen allowed within =>
      have length := ByteStore.length_getList blob p.producer.blobHead m.length
      cases field
      exact ⟨blob, isOpen,
        stores_made fine length within (Ring.holds_getList blob p.producer.blobHead m.length),
        commitField_of_told length told _ isOpen⟩
  | piece c => cases field

/-- Everything else changes bytes within its reach, and nothing else that is recorded. -/
theorem run_aside (nothing : w.field? p = none ∨ (w.run p).1.isOk = false) :
    ∃ blob average isOpen events cause,
      p.store.blob.SameOutside blob p.producer.blobHead (w.reach p) ∧
      (average = p.producer.average ∨ average = w.averageAfter p) ∧
      (w.run p).2 =
        p.withField [] blob p.producer.blobHead average isOpen events cause := by
  cases w with
  | entry e =>
    rcases nothing with noField | denied
    · cases noField
    · cases put : e.put p with
      | mk answer q =>
        have denied : (e.put p).1.isOk = false := denied
        rw [put] at denied
        cases answer with
        | ok u => cases denied
        | error x =>
          obtain ⟨blob, average, events, cause, within, moved, rfl⟩ := Entry.put_error put
          rw [averageAfter_entry]
          exact ⟨blob, average, _, events, cause, within, moved, congrArg Prod.snd put⟩
  | made m =>
    rcases nothing with noField | denied
    · cases noField
    · have outcome := m.outcome p
      have denied : (m.put p).1.isOk = false := denied
      show ∃ blob average isOpen events cause, _ ∧ _ ∧ (m.put p).2 = _
      generalize m.put p = result at outcome denied ⊢
      cases outcome with
      | accepted => cases denied
      | denied tooLong moved => exact ⟨_, _, _, _, _, .refl _ _ _, moved, rfl⟩
  | piece c =>
    obtain ⟨blob, isOpen, events, cause, within, -, moved⟩ := c.run_eq p
    exact ⟨blob, _, isOpen, events, cause, within, .inl rfl, moved⟩

/-- An accepted field is no longer than it reaches. -/
theorem Stores.length_le (stores : w.Stores p e blob) : e.bytesIn.length ≤ w.reach p := by
  cases w with
  | entry e' =>
    cases stores.writes
    exact Nat.le_refl _
  | made m =>
    obtain ⟨data, length, rfl⟩ := stores.writes
    exact Nat.le_trans (Nat.le_of_eq length) (Made.length_le_reach stores.accepted)
  | piece c => cases stores.writes

/-- A field that is not checked has no bytes in the blob. -/
theorem Stores.bare (stores : w.Stores p e blob) (unchecked : w.checked? = none) :
    e.bytesIn = [] := by
  cases w with
  | entry e' =>
    cases stores.writes
    cases e with
    | scalar value => rfl
    | content c => exact stores.sound.bare unchecked
  | made m => cases unchecked
  | piece c => cases stores.writes

/-- An accepted field is no longer than is checked, as far as a length can tell it. -/
theorem Stores.told {length : Int} (stores : w.Stores p e blob)
    (checked : w.checked? = some length) : Pipe.fieldLength e.bytesIn.length ≤ length := by
  cases w with
  | entry e' =>
    cases stores.writes
    cases e with
    | scalar value => cases checked
    | content c => exact Int.le_of_eq (stores.sound.told length checked).symm
  | made m =>
    cases checked
    obtain ⟨data, length, rfl⟩ := stores.writes
    have inside := m.length_le_checked
    show min (data.length : Int) Pipe.maxInt ≤ m.checked
    omega
  | piece c => cases checked

/-- The length of an accepted field was allowed. -/
theorem Stores.allowed {length : Int} (stores : w.Stores p e blob)
    (checked : w.checked? = some length) :
    p.nextAverage length ≤ p.store.config.maxAverage := by
  have accepted := stores.accepted
  cases w with
  | entry e' =>
    cases e' with
    | scalar value => cases checked
    | content c =>
      have outcome := c.outcome p
      have accepted : (c.put p).1.isOk = true := accepted
      generalize c.put p = result at outcome accepted
      cases outcome with
      | accepted allowed => exact allowed length checked
      | failed => cases accepted
      | refused => cases accepted
  | made m =>
    cases checked
    have outcome := m.outcome p
    have accepted : (m.put p).1.isOk = true := accepted
    generalize m.put p = result at outcome accepted
    cases outcome with
    | accepted allowed => exact allowed
    | denied => cases accepted
  | piece c => cases checked

/-- What is refused for its length would have moved the average above its limit. -/
theorem exceeds_of_refusal {x : PipeError} (denied : (w.run p).1 = .error x)
    (refusal : x.isRefusal = true) :
    ∃ length, w.checked? = some length ∧ p.store.config.maxAverage < p.nextAverage length := by
  cases w with
  | entry e' =>
    cases e' with
    | scalar value => cases denied
    | content c =>
      have outcome := c.outcome p
      have denied : (c.put p).1 = .error x := denied
      generalize c.put p = result at outcome denied
      cases outcome with
      | accepted => cases denied
      | failed cause =>
        cases denied
        rw [cause] at refusal
        cases refusal
      | refused checked tooLong => exact ⟨_, checked, tooLong⟩
  | made m =>
    have outcome := m.outcome p
    have denied : (m.put p).1 = .error x := denied
    generalize m.put p = result at outcome denied
    cases outcome with
    | accepted => cases denied
    | denied tooLong =>
      cases denied
      exact ⟨_, rfl, tooLong refusal⟩
  | piece c =>
    rw [Piece.isRefusal_eq_false denied] at refusal
    cases refusal

end Stroke

end FragmentPipe
