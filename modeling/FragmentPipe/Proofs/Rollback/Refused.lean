import FragmentPipe.Proofs.Stream.FreeRoom
import FragmentPipe.Proofs.Stream.RoundTrip

/-!
Fields that are refused. A field may be refused for its length, for what it refers to, or because the
stream that delivers it ends too early or fails. `Refusal` lists what is left behind then: a mark in the
status, bytes behind the blob head that belong to no field, and in the last case the moving average,
which counts the field as soon as its length is checked. Main statement: `refused_keeps_iff`, a refused
field leaves no other trace, and none in the average unless its stream failed.
-/

namespace FragmentPipe

/-- A variable length field that is offered to the writer, in one of the ways in which it may be. A
streamed field is opened, written and finished. -/
inductive Offer where
  | field (c : Content)
  | intText (value : Int32)
  | longText (value : Int64)
  | decimalText (places : Nat) (mantissa : Int64)
  /-- Bytes in view of another pipe. -/
  | copyInto (v : FieldView) (source : Store) (limit : Nat)
  /-- Bytes in view of the same pipe. -/
  | copyWithin (v : FieldView) (limit : Nat)
  | streamed (chunks : List Chunk)

namespace Offer

/-- The view that is copied from. -/
def view? : Offer → Option FieldView
  | copyInto v _ _ | copyWithin v _ => some v
  | _ => none

/-- Writes the field; the second answer is the view that was copied from. -/
def run (o : Offer) (p : Pipe) : Except PipeError Unit × Option FieldView × Pipe :=
  match o with
  | field c => ((c.put p).1, none, (c.put p).2)
  | intText value => ((p.putIntText value).1, none, (p.putIntText value).2)
  | longText value => ((p.putLongText value).1, none, (p.putLongText value).2)
  | decimalText places mantissa =>
    ((p.putDecimalText places mantissa).1, none, (p.putDecimalText places mantissa).2)
  | copyInto v source limit =>
    let copied := v.copyInto source p limit
    (copied.1.map fun _ => (), some copied.2.1, copied.2.2)
  | copyWithin v limit =>
    let copied := v.copyWithin p limit
    (copied.1.map fun _ => (), some copied.2.1, copied.2.2)
  | streamed chunks =>
    match p.openStream with
    | (.error e, q) => (.error e, none, q)
    | (.ok w, _) =>
      let finished := (w.writeAll chunks).finish
      (finished.1.map fun _ => (), none, finished.2)

/-- How many bytes may be stored before the field is refused. -/
def stored (o : Offer) (p : Pipe) : Nat :=
  match o with
  | field (.stream source count) => (Pipe.takeFrom source count).1.length
  | streamed chunks =>
    match p.openStream.1 with
    | .ok w => (w.writeAll chunks).written
    | .error _ => 0
  | _ => 0

end Offer

namespace Pipe

/-- All that a refused field may leave behind. -/
def leftWith (p : Pipe) (blob : Ring UInt8) (events : List Event) (cause : Option String)
    (average : Int) : Pipe :=
  { p.withStatus events cause with store.blob := blob, producer.average := average }

variable {p q : Pipe} {e : PipeError} {length : Int}

theorem marked_putBytes {bytes : List UInt8} (refused : p.putBytes bytes = (.error e, q)) :
    p.Marked e q := by
  unfold putBytes at refused
  exact marked_putField refused

theorem marked_putPieces {source : Option (List (List UInt8))} {rest : List (List UInt8)}
    (refused : p.putPieces source = (.error e, rest, q)) : p.Marked e q := by
  unfold putPieces at refused
  dsimp only at refused
  split at refused
  · cases refused
  · split at refused
    · next tooLong =>
      cases refused
      exact marked_checkLength tooLong
    · cases refused

theorem marked_putConstant {offset count : Int}
    (refused : p.putConstant offset count = (.error e, q)) : p.Marked e q := by
  unfold putConstant at refused
  dsimp only at refused
  split at refused
  · cases refused
    exact ⟨nofun, _, _, rfl⟩
  · cases refused

/-- A stream is opened where none is open. -/
theorem fieldOpen_of_openStream {w : FieldWriter} (opened : p.openStream = (.ok w, q)) :
    p.producer.fieldOpen = false := by
  unfold openStream openField at opened
  split at opened
  · cases opened
  · next first =>
    split at first
    · cases first
    · next closed => exact Bool.not_eq_true _ ▸ closed

/-- A stream that is refused in the end is closed. -/
theorem marked_finish {w : FieldWriter} (isOpen : w.pipe.producer.fieldOpen = true)
    (refused : w.finish = (.error e, q)) :
    ∃ r, w.pipe.Marked e r ∧ q = { r with producer.fieldOpen := false } := by
  rw [finish_eq, if_pos isOpen] at refused
  cases checked : w.pipe.checkLength w.written with
  | mk answer r =>
    rw [checked] at refused
    cases answer with
    | error x =>
      cases refused
      exact ⟨r, marked_checkLength checked, rfl⟩
    | ok u => cases refused

end Pipe

/-! ## What a refusal leaves behind -/

/-- What is left behind when an offer is refused with an error. -/
inductive Refusal (o : Offer) (p : Pipe) : PipeError → Pipe → Prop where
  /-- The status tells of it, or nothing does; what a stream stored already stays behind the blob
  head. -/
  | status {e : PipeError} {blob : Ring UInt8} {events : List Event} {cause : Option String}
    (other : ∀ fault, e ≠ .stream fault)
    (within : p.store.blob.SameOutside blob p.producer.blobHead (o.stored p)) :
    Refusal o p e (p.leftWith blob events cause p.producer.average)
  /-- The stream that delivers the bytes failed. -/
  | fault {source : List Pipe.Delivery} {count : Nat} {fault : StreamFault} {blob : Ring UInt8}
    (delivers : o = .field (.stream source count))
    (within : p.store.blob.SameOutside blob p.producer.blobHead (o.stored p)) :
    Refusal o p (.stream fault)
      (p.leftWith blob p.store.events p.store.shutdownCause
        (p.nextAverage (Pipe.fieldLength count)))

namespace Offer

variable {o : Offer} {p q : Pipe} {e : PipeError} {x : Option FieldView}

theorem refusal_of_marked (marked : p.Marked e q) : Refusal o p e q := by
  obtain ⟨other, events, cause, rfl⟩ := marked
  have left : Refusal o p e (p.leftWith p.store.blob events cause p.producer.average) :=
    .status other (.refl p.store.blob p.producer.blobHead _)
  exact left

theorem refusal_of_putFromStream {source rest : List Pipe.Delivery} {count : Nat}
    (refused : p.putFromStream source count = (.error e, rest, q)) :
    Refusal (.field (.stream source count)) p e q := by
  unfold Pipe.putFromStream at refused
  split at refused
  · next tooLong =>
    cases refused
    exact refusal_of_marked (Pipe.marked_checkLength tooLong)
  · next allowed =>
    obtain rfl := Pipe.checkLength_ok allowed
    dsimp only at refused
    split at refused
    · cases refused
      have within := p.store.blob.sameOutside_setList p.producer.blobHead
        (Pipe.takeFrom source count).1
      rw [← Ring.putList_eq_setList] at within
      exact .fault rfl within
    · cases refused

theorem refusal_of_put {c : Content} (refused : c.put p = (.error e, q)) :
    Refusal (.field c) p e q := by
  cases c with
  | bytes data => exact refusal_of_marked (Pipe.marked_putBytes refused)
  | pieces source =>
    obtain ⟨answer, left⟩ := Prod.mk.inj refused
    exact refusal_of_marked (Pipe.marked_putPieces (Prod.ext answer (Prod.ext rfl left)))
  | lowBytes text =>
    cases text with
    | none => cases refused
    | some text => exact refusal_of_marked (Pipe.marked_putBytes refused)
  | utf8 text =>
    cases text with
    | none => cases refused
    | some text => exact refusal_of_marked (Pipe.marked_putBytes refused)
  | null => cases refused
  | constant offset length => exact refusal_of_marked (Pipe.marked_putConstant refused)
  | stream source count =>
    obtain ⟨answer, left⟩ := Prod.mk.inj refused
    exact refusal_of_putFromStream (Prod.ext answer (Prod.ext rfl left))

theorem refusal_of_finish {chunks : List Chunk} {w : FieldWriter} {r : Pipe}
    (opened : p.openStream = (.ok w, r)) (refused : (w.writeAll chunks).finish = (.error e, q)) :
    Refusal (.streamed chunks) p e q := by
  have closed := Pipe.fieldOpen_of_openStream opened
  have o := FieldWriter.opensOn_of_openStream opened
  obtain ⟨bytes, written⟩ := (o.begun.writeAll chunks).grows
  have reach : (Offer.streamed chunks).stored p = bytes.length := by
    show (match p.openStream.1 with | .ok w => (w.writeAll chunks).written | .error _ => 0) = _
    rw [opened]
    show (w.writeAll chunks).written = _
    rw [written]
    show w.written + bytes.length = _
    rw [o.written, Nat.zero_add]
  obtain ⟨rfl, rfl⟩ := Pipe.openStream_ok opened
  rw [written] at refused
  obtain ⟨_, ⟨other, events, cause, rfl⟩, rfl⟩ := Pipe.marked_finish rfl refused
  have within := p.store.blob.sameOutside_setList p.producer.blobHead bytes
  rw [← reach] at within
  -- The stream is closed as it was before it was opened.
  have left : Refusal (.streamed chunks) p e
      { p.withStatus events cause with
        store.blob := p.store.blob.setList p.producer.blobHead bytes
        producer.fieldOpen := p.producer.fieldOpen } := .status other within
  rw [closed] at left
  have start : p.producer.blobHead + ((0 : Nat) : Int) = p.producer.blobHead := Int.add_zero _
  rw [← start] at left
  exact left

/-- Whatever is offered, a refusal is one of these, and the view that is copied from stays. -/
theorem refusal_of_run (refused : o.run p = (.error e, x, q)) :
    x = o.view? ∧ Refusal o p e q := by
  cases o with
  | streamed chunks =>
    cases opened : p.openStream with
    | mk answer r =>
      simp only [run, opened] at refused
      cases answer with
      | error _ =>
        cases refused
        exact ⟨rfl, refusal_of_marked (Pipe.marked_openStream opened)⟩
      | ok w =>
        obtain ⟨answer, rest⟩ := Prod.mk.inj refused
        obtain ⟨rfl, left⟩ := Prod.mk.inj rest
        exact ⟨rfl, refusal_of_finish opened (Prod.ext (eq_error_of_map answer) left)⟩
  | copyInto v source limit =>
    obtain ⟨answer, rest⟩ := Prod.mk.inj refused
    obtain ⟨rfl, rfl⟩ := Prod.mk.inj rest
    obtain ⟨same, marked⟩ := Pipe.marked_copyInto (Prod.ext (eq_error_of_map answer) rfl)
    exact ⟨congrArg some same, refusal_of_marked marked⟩
  | copyWithin v limit =>
    obtain ⟨answer, rest⟩ := Prod.mk.inj refused
    obtain ⟨rfl, rfl⟩ := Prod.mk.inj rest
    obtain ⟨same, marked⟩ := Pipe.marked_copyWithin (Prod.ext (eq_error_of_map answer) rfl)
    exact ⟨congrArg some same, refusal_of_marked marked⟩
  | field c =>
    obtain ⟨answer, rest⟩ := Prod.mk.inj refused
    obtain ⟨rfl, left⟩ := Prod.mk.inj rest
    exact ⟨rfl, refusal_of_put (Prod.ext answer left)⟩
  | intText value =>
    obtain ⟨answer, rest⟩ := Prod.mk.inj refused
    obtain ⟨rfl, left⟩ := Prod.mk.inj rest
    exact ⟨rfl, refusal_of_marked (Pipe.marked_putField (Prod.ext answer left))⟩
  | longText value =>
    obtain ⟨answer, rest⟩ := Prod.mk.inj refused
    obtain ⟨rfl, left⟩ := Prod.mk.inj rest
    exact ⟨rfl, refusal_of_marked (Pipe.marked_putField (Prod.ext answer left))⟩
  | decimalText places mantissa =>
    obtain ⟨answer, rest⟩ := Prod.mk.inj refused
    obtain ⟨rfl, left⟩ := Prod.mk.inj rest
    exact ⟨rfl, refusal_of_marked (Pipe.marked_putDecimalText (Prod.ext answer left))⟩

end Offer

/-- A field that is refused, in whichever way it is offered, leaves the pipe as it was but for the
status and for bytes behind the blob head, and a view that is copied from where it is. The moving
average is as it was exactly if no stream failed that was to deliver the bytes, or the length that was
announced for it would leave the average alone. -/
theorem refused_keeps_iff {o : Offer} {p q : Pipe} {e : PipeError} {x : Option FieldView}
    (refused : o.run p = (.error e, x, q)) :
    x = o.view? ∧
    (∃ blob events cause, p.store.blob.SameOutside blob p.producer.blobHead (o.stored p) ∧
      q = p.leftWith blob events cause q.producer.average) ∧
    (q.producer.average = p.producer.average ↔
      ∀ source count fault, o = .field (.stream source count) → e = .stream fault →
        p.nextAverage (Pipe.fieldLength count) = p.producer.average) := by
  obtain ⟨view, refusal⟩ := Offer.refusal_of_run refused
  refine ⟨view, ?_⟩
  cases refusal with
  | status other within =>
    refine ⟨⟨_, _, _, within, rfl⟩, fun _ _ _ fault _ failed => ?_, fun _ => rfl⟩
    exact absurd failed (other fault)
  | @fault source count fault blob delivers within =>
    refine ⟨⟨_, _, _, within, rfl⟩, fun same source' count' _ offered _ => ?_, fun kept => ?_⟩
    · cases delivers.symm.trans offered
      exact same
    · exact kept source count fault delivers rfl

/-- A field of 64 bytes is too long for the pipe of the sample. -/
theorem refused_keeps_iff_sample :
    ∃ s q e, play anyCall (Session.start samplePipe) openSample = some s ∧
      (Offer.field (.bytes (List.replicate 64 1))).run s.pipe = (.error e, none, q) ∧
      q.isShutdown = true ∧ q.producer.average = s.pipe.producer.average ∧
      ∃ events cause, q = s.pipe.leftWith q.store.blob events cause s.pipe.producer.average := by
  have evaluated : (play anyCall (Session.start samplePipe) openSample).any fun s =>
      ((Offer.field (.bytes (List.replicate 64 1))).run s.pipe).1.isOk = false ∧
        ((Offer.field (.bytes (List.replicate 64 1))).run s.pipe).2.2.isShutdown = true := by
    decide +kernel
  obtain ⟨s, played, checked⟩ := (Option.any_eq_true ..).mp evaluated
  obtain ⟨failed, stopped⟩ := of_decide_eq_true checked
  cases answer : (Offer.field (.bytes (List.replicate 64 1))).run s.pipe with
  | mk result rest =>
    obtain ⟨x, q⟩ := rest
    rw [answer] at failed stopped
    cases result with
    | ok a => cases failed
    | error e =>
      obtain ⟨rfl, ⟨blob, events, cause, -, left⟩, kept⟩ := refused_keeps_iff answer
      have same := kept.mpr nofun
      refine ⟨s, q, e, played, answer, stopped, same, events, cause, ?_⟩
      rw [same] at left
      rw [left]
      rfl

/-- A refused field does not leave everything else as it was. A stream is to deliver six bytes and
ends after two; no field is written, but the moving average is 3 instead of 0. -/
theorem average_of_failed_stream :
    (play anyCall (Session.start samplePipe) openSample).any fun s =>
      let offered := (Offer.field (.stream [.data [1, 2]] 6)).run s.pipe
      offered.1.isOk = false ∧ offered.2.2.isShutdown = false ∧
        offered.2.2.producer.slabHead = s.pipe.producer.slabHead ∧
        s.pipe.producer.average = 0 ∧ offered.2.2.producer.average = 3 := by
  decide +kernel

end FragmentPipe
