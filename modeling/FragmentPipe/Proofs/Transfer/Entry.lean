import FragmentPipe.Produce.Field
import FragmentPipe.Proofs.Storage.RingRun

/-!
Fields as the writing side hands them over. A `Scalar` is written into the slab alone, a `Content`
takes a descriptor there and has its bytes in the blob or in the constants. Each names one way to
write a field; `cells` and `bytes` say what that way stores. Main statements: `Scalar.put_eq` and
`Content.outcome`, all that writing a field can do to a pipe.
-/

namespace FragmentPipe

section Answer

variable {ε α β : Type} {f : α → β} {answer : Except ε α}

theorem eq_ok_of_toOption {a : α} (answered : answer.toOption = some a) : answer = .ok a := by
  cases answer with
  | ok b => exact congrArg _ (Option.some.inj answered)
  | error e => cases answered

theorem eq_ok_of_isOk {answer : Except ε Unit} (fine : answer.isOk = true) : answer = .ok () := by
  cases answer with
  | ok _ => rfl
  | error _ => cases fine

theorem eq_error_of_map {e : ε} (h : answer.map f = .error e) : answer = .error e := by
  cases answer with
  | error _ => exact congrArg Except.error (Except.error.inj h)
  | ok _ => cases h

theorem exists_of_map {b : β} (h : answer.map f = .ok b) : ∃ a, answer = .ok a ∧ f a = b := by
  cases answer with
  | error _ => cases h
  | ok a => exact ⟨a, rfl, Except.ok.inj h⟩

end Answer

/-! ## What a field stores -/

namespace Pipe

/-- Cells stored from the slab head on, with the head behind them. -/
def place (p : Pipe) (cells : List Int32) : Pipe :=
  { p with
    store.slab := p.store.slab.setList p.producer.slabHead cells
    producer.slabHead := p.producer.slabHead + cells.length }

/-- Everything that writing a field can change: cells behind the slab head, the blob and its head,
the moving average, whether a stream is open, and for a refused field the status. -/
def withField (p : Pipe) (cells : List Int32) (blob : Ring UInt8) (blobHead average : Int)
    (isOpen : Bool) (events : List Event) (cause : Option String) : Pipe :=
  { p with
    store.slab := p.store.slab.setList p.producer.slabHead cells
    store.blob := blob
    store.events := events
    store.shutdownCause := cause
    producer.slabHead := p.producer.slabHead + cells.length
    producer.blobHead := blobHead
    producer.average := average
    producer.fieldOpen := isOpen }

theorem place_place (p : Pipe) (a b : List Int32) : (p.place a).place b = p.place (a ++ b) := by
  simp only [place, Ring.setList_append, List.length_append]
  congr 2
  push_cast
  omega

theorem withField_nil (p : Pipe) (blob : Ring UInt8) (blobHead average : Int) (isOpen : Bool)
    (events : List Event) (cause : Option String) :
    p.withField [] blob blobHead average isOpen events cause =
      { p with
        store.blob := blob
        store.events := events
        store.shutdownCause := cause
        producer.blobHead := blobHead
        producer.average := average
        producer.fieldOpen := isOpen } := by
  simp [withField]

theorem putInt_eq (p : Pipe) (value : Int32) : p.putInt value = p.place [value] := rfl

theorem putLong_eq (p : Pipe) (value : Int64) :
    p.putLong value = p.place [(splitLong value).1, (splitLong value).2] := by
  rw [putLong, putInt_eq, putInt_eq, place_place, List.singleton_append]

theorem putDecimal_eq (p : Pipe) (exponent : Int32) (mantissa : Int64) :
    p.putDecimal exponent mantissa =
      p.place [exponent, (splitLong mantissa).1, (splitLong mantissa).2] := by
  rw [putDecimal, putInt_eq, putLong_eq, place_place, List.singleton_append]

end Pipe

/-- The cells of a descriptor. -/
def Descriptor.cells (d : Descriptor) : List Int32 := [d.origin.toCell, Int32.ofInt d.length]

theorem Pipe.putDescriptor_eq (p : Pipe) (d : Descriptor) :
    p.putDescriptor d = p.place d.cells := by
  rw [putDescriptor, putInt_eq, putInt_eq, place_place, List.singleton_append, Descriptor.cells]

/-- A field that lies in the slab alone, with the way in which it is written. -/
inductive Scalar where
  | int (value : Int32)
  | optionalInt (value : Option Int32)
  | long (value : Int64)
  | optionalLong (value : Option Int64)
  | decimal (exponent : Int32) (mantissa : Int64)
  | optionalDecimal (value : Option (Int32 × Int64))

namespace Scalar

/-- Writes the field. -/
def put (v : Scalar) (p : Pipe) : Pipe :=
  match v with
  | int value => p.putInt value
  | optionalInt value => p.putOptionalInt value
  | long value => p.putLong value
  | optionalLong value => p.putOptionalLong value
  | decimal exponent mantissa => p.putDecimal exponent mantissa
  | optionalDecimal value => p.putOptionalDecimal value

/-- The number of cells. -/
def width : Scalar → Nat
  | int _ | optionalInt _ => 1
  | long _ | optionalLong _ => 2
  | decimal _ _ | optionalDecimal _ => 3

/-- The cells of a field; absence is a value that the schema reserves. -/
def cells (s : Schema) : Scalar → List Int32
  | int value => [value]
  | optionalInt value => [value.getD s.absentInt]
  | long value => [(splitLong value).1, (splitLong value).2]
  | optionalLong value =>
    [(splitLong (value.getD s.absentLong)).1, (splitLong (value.getD s.absentLong)).2]
  | decimal exponent mantissa => [exponent, (splitLong mantissa).1, (splitLong mantissa).2]
  | optionalDecimal value =>
    let parts := value.getD (s.absentInt, s.absentLong)
    [parts.1, (splitLong parts.2).1, (splitLong parts.2).2]

@[simp] theorem length_cells (s : Schema) (v : Scalar) : (v.cells s).length = v.width := by
  cases v <;> rfl

theorem put_eq (v : Scalar) (p : Pipe) : v.put p = p.place (v.cells p.schema) := by
  cases v with
  | int value => rfl
  | optionalInt value => rfl
  | long value => exact p.putLong_eq value
  | optionalLong value => exact p.putLong_eq _
  | decimal exponent mantissa => exact p.putDecimal_eq exponent mantissa
  | optionalDecimal value => exact p.putDecimal_eq _ _

end Scalar

/-- A variable length field, with the way in which it is written. -/
inductive Content where
  | bytes (data : List UInt8)
  | pieces (source : Option (List (List UInt8)))
  | lowBytes (text : Option String)
  | utf8 (text : Option String)
  | null
  | constant (offset length : Int32)
  | stream (source : List Pipe.Delivery) (count : Nat)

namespace Content

/-- Writes the field. -/
def put (c : Content) (p : Pipe) : Except PipeError Unit × Pipe :=
  match c with
  | bytes data => p.putBytes data
  | pieces source => ((p.putPieces source).1, (p.putPieces source).2.2)
  | lowBytes text => p.putLowBytes text
  | utf8 text => p.putUtf8 text
  | null => (.ok (), p.putNull)
  | constant offset length => p.putConstant offset.toInt length.toInt
  | stream source count =>
    ((p.putFromStream source count).1, (p.putFromStream source count).2.2)

/-- The bytes that a field asks the blob to take. -/
def bytesIn : Content → List UInt8
  | bytes data => data
  | pieces source => (source.getD []).flatten
  | lowBytes text => (text.map fun t => LowByte.encode t.toList).getD []
  | utf8 text => (text.map Utf8.encodeText).getD []
  | null | constant _ _ => []
  | stream source count => (Pipe.takeFrom source count).1

/-- The length that is checked against the moving average. Fields without bytes of their own in the
blob are not checked. -/
def checked? : Content → Option Int
  | bytes data => some (Pipe.fieldLength data.length)
  | pieces source =>
    if (source.getD []).flatten.length = 0 then none
    else some (Pipe.fieldLength (source.getD []).flatten.length)
  | lowBytes text => text.map fun t => Pipe.fieldLength (LowByte.encode t.toList).length
  | utf8 text => text.map fun t => Pipe.fieldLength (Utf8.encodeText t).length
  | null | constant _ _ => none
  | stream _ count => some (Pipe.fieldLength count)

/-- The length that the descriptor tells. A field without bytes in the blob or in the constants is
absent. -/
def length : Content → Int
  | constant _ length => length.toInt
  | c => c.checked?.getD (-1)

/-- Where the bytes of the field begin, `offset` bytes after the base of the fragment if they lie in
the blob. -/
def origin (offset : Int) : Content → Origin
  | constant start _ => .constants start.toInt
  | _ => .blob offset

/-- The descriptor of the field. -/
def descriptor (c : Content) (offset : Int) : Descriptor := ⟨c.origin offset, c.length⟩

/-- The blob head after the field. -/
def headAfter (c : Content) (head : Int) : Int :=
  match c.checked? with
  | none => head
  | some length => (head + length) % blobSpan

/-- The moving average after the field. -/
def averageAfter (c : Content) (p : Pipe) : Int :=
  match c.checked? with
  | none => p.producer.average
  | some length => p.nextAverage length

end Content

/-! ## What writing a field comes to -/

namespace Pipe

theorem length_takeFrom {source : List Delivery} {count : Nat}
    (whole : (takeFrom source count).2.1 = none) : (takeFrom source count).1.length = count := by
  fun_induction takeFrom source count with
  | case1 source => rfl
  | case2 count positive => cases whole
  | case3 count positive rest ih => exact ih whole
  | case4 count positive message rest => cases whole
  | case5 count positive bytes rest short =>
    simp only [List.length_take]
    omega
  | case6 count positive bytes rest long more ih =>
    have tail : more.1.length = count - bytes.length := ih whole
    rw [List.length_append]
    omega

theorem storePieces_eq (blob : Ring UInt8) (position : Int) (source : List (List UInt8)) :
    storePieces blob position source = (blob.setList position source.flatten, []) := by
  induction source generalizing blob position with
  | nil => rfl
  | cons piece rest ih =>
    rw [storePieces, ih, List.flatten_cons, Ring.setList_append, Ring.putList_eq_setList]

theorem checkLength_of_le {p : Pipe} {length : Int}
    (allowed : p.nextAverage length ≤ p.store.config.maxAverage) :
    p.checkLength length = (.ok (), { p with producer.average := p.nextAverage length }) :=
  if_neg (Int.not_lt.mpr allowed)

/-- A length that is allowed moves the average and changes nothing else. -/
theorem checkLength_ok {p q : Pipe} {length : Int} (allowed : p.checkLength length = (.ok (), q)) :
    q = { p with producer.average := p.nextAverage length } := by
  unfold checkLength at allowed
  split at allowed
  · cases allowed
  · cases allowed
    rfl

/-- An accepted field is filled behind the blob head and committed. -/
theorem putField_ok {p q : Pipe} {checked : Int} {fill : Ring UInt8 → Int → Int × Ring UInt8}
    (accepted : p.putField checked fill = (.ok (), q)) :
    q = { p with
      producer.average := p.nextAverage checked
      store.blob := (fill p.store.blob p.producer.blobHead).2
        }.commitField (fill p.store.blob p.producer.blobHead).1 := by
  unfold putField at accepted
  split at accepted
  · cases accepted
  · next allowed =>
    obtain rfl := checkLength_ok allowed
    exact (Prod.mk.inj accepted).2.symm

theorem commitField_eq (p : Pipe) (length : Int) :
    p.commitField length =
      { p.place (Descriptor.cells ⟨p.originOf p.producer.blobHead, length⟩) with
        producer.blobHead := (p.producer.blobHead + length) % blobSpan } := by
  rw [commitField, putDescriptor_eq]

/-- Whether a length is accepted depends on the capacity and the moving average alone. -/
theorem checkLength_fst_congr {p q : Pipe} (config : q.store.config = p.store.config)
    (average : q.producer.average = p.producer.average) (length : Int) :
    (q.checkLength length).1 = (p.checkLength length).1 := by
  have next : q.nextAverage length = p.nextAverage length := by
    rw [nextAverage, nextAverage, average]
  have schema : q.schema = p.schema := congrArg Config.schema config
  unfold checkLength refuseField suggestedBits
  rw [next, config, schema]
  split
  · rfl
  · rfl

theorem putField_fst (p : Pipe) (checked : Int) (fill : Ring UInt8 → Int → Int × Ring UInt8) :
    (p.putField checked fill).1 = (p.checkLength checked).1 := by
  unfold putField
  split
  · next answer => rw [answer]
  · next answer => rw [answer]

theorem putPieces_fst (p : Pipe) (source : Option (List (List UInt8))) :
    (p.putPieces source).1 =
      if (source.getD []).flatten.length = 0 then .ok ()
      else (p.checkLength (fieldLength (source.getD []).flatten.length)).1 := by
  unfold putPieces
  dsimp only
  split
  · rfl
  · split
    · next answer => rw [answer]
    · next answer => rw [answer]

theorem putFromStream_fst (p : Pipe) (source : List Delivery) (count : Nat) :
    (p.putFromStream source count).1 =
      (p.checkLength (fieldLength count)).1.bind fun _ =>
        match (takeFrom source count).2.1 with
        | some fault => .error (.stream fault)
        | none => .ok () := by
  unfold putFromStream
  split
  · next answer =>
    rw [answer]
    rfl
  · next answer =>
    rw [answer]
    dsimp only
    cases (takeFrom source count).2.1 with
    | some fault => rfl
    | none => rfl

/-! ### Refusals -/

/-- The pipe with another status and report. -/
def withStatus (p : Pipe) (events : List Event) (cause : Option String) : Pipe :=
  { p with store.events := events, store.shutdownCause := cause }

theorem withStatus_eq (p : Pipe) (events : List Event) (cause : Option String) :
    p.withStatus events cause =
      p.withField [] p.store.blob p.producer.blobHead p.producer.average p.producer.fieldOpen events
        cause := by
  rw [withField_nil]
  rfl

/-- The error is no failure of a stream, and nothing but the status is another one. -/
def Marked (p : Pipe) (e : PipeError) (q : Pipe) : Prop :=
  (∀ fault, e ≠ .stream fault) ∧ ∃ events cause, q = p.withStatus events cause

theorem shutdown_snd (p : Pipe) (cause : String) :
    ∃ events cause', (p.shutdown cause).2 = p.withStatus events cause' := by
  unfold shutdown Store.shutdown
  split
  · exact ⟨_, _, rfl⟩
  · exact ⟨_, _, rfl⟩

theorem marked_refuseField (p : Pipe) (length : Int) :
    p.Marked (p.refuseField length).1 (p.refuseField length).2 := by
  refine ⟨nofun, ?_⟩
  obtain ⟨events, cause, same⟩ := (p.report (.varLengthRefused p.store.id length
    (p.nextAverage length) p.store.config.maxAverage p.store.config.slabBits p.store.config.blobBits
    (p.suggestedBits length))).shutdown_snd
      s!"variable length field of {length} bytes exceeds limit {(p.store.config.maxAverage : Int)}"
  exact ⟨events, cause, same⟩

theorem marked_checkLength {p q : Pipe} {e : PipeError} {length : Int}
    (refused : p.checkLength length = (.error e, q)) : p.Marked e q := by
  unfold checkLength at refused
  split at refused
  · cases refused
    exact p.marked_refuseField length
  · cases refused

/-- A field that is filled and committed is refused for its length alone. -/
theorem marked_putField {p q : Pipe} {e : PipeError} {length : Int}
    {fill : Ring UInt8 → Int → Int × Ring UInt8}
    (refused : p.putField length fill = (.error e, q)) : p.Marked e q := by
  unfold putField at refused
  split at refused
  · next tooLong =>
    cases refused
    exact marked_checkLength tooLong
  · cases refused

end Pipe

/-- Whether an error says that a field is too long for the moving average. -/
def PipeError.isRefusal : PipeError → Bool
  | .varLengthExceeded .. => true
  | _ => false

namespace Content

/-- What holds of a field that has been written: its checked length is the number of its bytes as
far as a length can tell it, a field that is not checked has no bytes in the blob, and a reference
lies within the constants. -/
structure Sound (constants : Buffer) (c : Content) : Prop where
  told : ∀ length, c.checked? = some length → length = Pipe.fieldLength c.bytesIn.length
  bare : c.checked? = none → c.bytesIn = []
  inside : ∀ start length, c = constant start length →
    0 ≤ start.toInt ∧ start.toInt + max length.toInt 0 ≤ constants.size

/-- What writing a field can come to. -/
inductive Outcome (c : Content) (p : Pipe) : Except PipeError Unit × Pipe → Prop where
  /-- The field is written. -/
  | accepted
    (allowed : ∀ length, c.checked? = some length →
      p.nextAverage length ≤ p.store.config.maxAverage)
    (sound : c.Sound p.store.config.constants) :
    Outcome c p (.ok (),
      p.withField
        (c.descriptor ((p.producer.blobHead - p.producer.writeBase) % blobSpan)).cells
        (p.store.blob.setList p.producer.blobHead c.bytesIn) (c.headAfter p.producer.blobHead)
        (c.averageAfter p) p.producer.fieldOpen p.store.events p.store.shutdownCause)
  /-- The length is allowed, but the bytes do not come, or the constants do not have them. -/
  | failed {e : PipeError} {blob : Ring UInt8} (cause : e.isRefusal = false)
    (allowed : ∀ length, c.checked? = some length →
      p.nextAverage length ≤ p.store.config.maxAverage)
    (within : p.store.blob.SameOutside blob p.producer.blobHead c.bytesIn.length) :
    Outcome c p (.error e,
      p.withField [] blob p.producer.blobHead (c.averageAfter p) p.producer.fieldOpen p.store.events
        p.store.shutdownCause)
  /-- The length is refused. -/
  | refused {e : PipeError} {events : List Event} {cause : Option String} {length : Int}
    (checked : c.checked? = some length)
    (tooLong : p.store.config.maxAverage < p.nextAverage length) :
    Outcome c p (.error e,
      p.withField [] p.store.blob p.producer.blobHead p.producer.average p.producer.fieldOpen events
        cause)

theorem outcome_of_null {c : Content} {p : Pipe} (checked : c.checked? = none)
    (bytes : c.bytesIn = []) (origin : ∀ offset, c.origin offset = .blob offset)
    (length : c.length = -1) : c.Outcome p (.ok (), p.putNull) := by
  have sound : c.Sound p.store.config.constants :=
    ⟨by simp [checked], fun _ => bytes, fun _ _ same => by cases same; cases origin 0⟩
  have written := Outcome.accepted (p := p) (by simp [checked]) sound
  simp only [descriptor, origin, length, bytes, headAfter, averageAfter, checked] at written
  rw [Pipe.putNull, Pipe.putDescriptor_eq]
  exact written

/-- A refused length leaves its mark on the status alone. -/
theorem outcome_of_refused {c : Content} {p : Pipe} {length : Int}
    (checked : c.checked? = some length)
    (tooLong : p.store.config.maxAverage < p.nextAverage length) :
    c.Outcome p (.error (p.refuseField length).1, (p.refuseField length).2) := by
  obtain ⟨-, events, cause, status⟩ := p.marked_refuseField length
  rw [status, Pipe.withStatus_eq]
  exact .refused checked tooLong

/-- An allowed length whose bytes are all stored is written. -/
theorem outcome_of_stored {c : Content} {p : Pipe} {length : Int}
    (checked : c.checked? = some length) (told : length = Pipe.fieldLength c.bytesIn.length)
    (origin : ∀ offset, c.origin offset = .blob offset) (same : c.length = length)
    (allowed : p.nextAverage length ≤ p.store.config.maxAverage) :
    c.Outcome p (.ok (),
      { p with
        producer.average := p.nextAverage length
        store.blob := p.store.blob.setList p.producer.blobHead c.bytesIn }.commitField length) := by
  have sound : c.Sound p.store.config.constants := by
    refine ⟨?_, ?_, ?_⟩
    · intro other h
      rw [checked, Option.some.injEq] at h
      exact h ▸ told
    · intro h
      simp [checked] at h
    · intro _ _ h
      cases h
      cases origin 0
  have all_allowed : ∀ other, c.checked? = some other →
      p.nextAverage other ≤ p.store.config.maxAverage := by
    intro other h
    rw [checked, Option.some.injEq] at h
    exact h ▸ allowed
  have written := Outcome.accepted all_allowed sound
  simp only [descriptor, origin, same, headAfter, averageAfter, checked] at written
  rw [Pipe.commitField_eq]
  exact written

/-- A field of bytes that are at hand is written or refused. -/
theorem outcome_of_putBytes {c : Content} (p : Pipe)
    (checked : c.checked? = some (Pipe.fieldLength c.bytesIn.length))
    (origin : ∀ offset, c.origin offset = .blob offset)
    (length : c.length = Pipe.fieldLength c.bytesIn.length) :
    c.Outcome p (p.putBytes c.bytesIn) := by
  unfold Pipe.putBytes Pipe.putField Pipe.checkLength
  by_cases tooLong : p.store.config.maxAverage < p.nextAverage (Pipe.fieldLength c.bytesIn.length)
  · simp only [if_pos tooLong]
    exact outcome_of_refused checked tooLong
  · simp only [if_neg tooLong, Ring.putList_eq_setList]
    exact outcome_of_stored checked rfl origin length (by omega)

theorem outcome_of_putPieces (p : Pipe) (source : Option (List (List UInt8))) :
    (pieces source).Outcome p ((pieces source).put p) := by
  unfold put Pipe.putPieces
  by_cases empty : (source.getD []).flatten.length = 0
  · have checked : (pieces source).checked? = none := by rw [checked?, if_pos empty]
    have length : (pieces source).length = -1 := by
      show (pieces source).checked?.getD (-1) = -1
      rw [checked, Option.getD_none]
    simp only [if_pos empty]
    exact outcome_of_null checked (List.eq_nil_of_length_eq_zero empty) (fun _ => rfl) length
  · have checked : (pieces source).checked? =
        some (Pipe.fieldLength (source.getD []).flatten.length) := by
      rw [checked?, if_neg empty]
    have length : (pieces source).length = Pipe.fieldLength (source.getD []).flatten.length := by
      show (pieces source).checked?.getD (-1) = _
      rw [checked, Option.getD_some]
    simp only [if_neg empty, Pipe.checkLength]
    by_cases tooLong : p.store.config.maxAverage <
        p.nextAverage (Pipe.fieldLength (source.getD []).flatten.length)
    · simp only [if_pos tooLong]
      exact outcome_of_refused checked tooLong
    · simp only [if_neg tooLong, Pipe.storePieces_eq]
      exact outcome_of_stored checked rfl (fun _ => rfl) length (by omega)

theorem outcome_of_putConstant (p : Pipe) (offset length : Int32) :
    (constant offset length).Outcome p ((constant offset length).put p) := by
  unfold put Pipe.putConstant
  by_cases outside : offset.toInt < 0 ∨
      (p.store.config.constants.size : Int) < offset.toInt + max length.toInt 0
  · simp only [if_pos outside]
    have kept := Outcome.failed (c := constant offset length) (p := p)
      (e := .invalidConfig (.constantOutside offset.toInt (offset.toInt + max length.toInt 0)
        p.store.config.constants.size)) rfl (by simp [checked?])
      (.refl p.store.blob p.producer.blobHead 0)
    rw [Pipe.withField_nil] at kept
    exact kept
  · have sound : (constant offset length).Sound p.store.config.constants := by
      refine ⟨by simp [checked?], fun _ => rfl, ?_⟩
      intro start count same
      cases same
      omega
    simp only [if_neg outside]
    rw [Pipe.putDescriptor_eq]
    exact .accepted (by simp [checked?]) sound

theorem outcome_of_putFromStream (p : Pipe) (source : List Pipe.Delivery) (count : Nat) :
    (stream source count).Outcome p ((stream source count).put p) := by
  have checked : (stream source count).checked? = some (Pipe.fieldLength count) := rfl
  unfold put Pipe.putFromStream Pipe.checkLength
  by_cases tooLong : p.store.config.maxAverage < p.nextAverage (Pipe.fieldLength count)
  · simp only [if_pos tooLong]
    exact outcome_of_refused checked tooLong
  · have allowed : ∀ length, (stream source count).checked? = some length →
        p.nextAverage length ≤ p.store.config.maxAverage := by
      intro length same
      rw [checked, Option.some.injEq] at same
      rw [← same]
      omega
    simp only [if_neg tooLong, Ring.putList_eq_setList]
    cases fault : (Pipe.takeFrom source count).2.1 with
    | some f =>
      have kept := Outcome.failed (c := stream source count) (p := p) (e := .stream f) rfl allowed
        (p.store.blob.sameOutside_setList p.producer.blobHead (Pipe.takeFrom source count).1)
      rw [Pipe.withField_nil] at kept
      exact kept
    | none =>
      have told : Pipe.fieldLength count =
          Pipe.fieldLength (stream source count).bytesIn.length := by
        rw [bytesIn, Pipe.length_takeFrom fault]
      exact outcome_of_stored checked told (fun _ => rfl) rfl (by omega)

/-- Writing a field comes to one of the outcomes. -/
theorem outcome (c : Content) (p : Pipe) : c.Outcome p (c.put p) := by
  cases c with
  | bytes data => exact outcome_of_putBytes (c := bytes data) p rfl (fun _ => rfl) rfl
  | pieces source => exact outcome_of_putPieces p source
  | lowBytes text =>
    cases text with
    | none => exact outcome_of_null rfl rfl (fun _ => rfl) rfl
    | some t => exact outcome_of_putBytes (c := lowBytes (some t)) p rfl (fun _ => rfl) rfl
  | utf8 text =>
    cases text with
    | none => exact outcome_of_null rfl rfl (fun _ => rfl) rfl
    | some t => exact outcome_of_putBytes (c := utf8 (some t)) p rfl (fun _ => rfl) rfl
  | null => exact outcome_of_null rfl rfl (fun _ => rfl) rfl
  | constant offset length => exact outcome_of_putConstant p offset length
  | stream source count => exact outcome_of_putFromStream p source count

end Content

/-! ## Fields of both kinds -/

/-- A field of a fragment, with the way in which it is written. -/
inductive Entry where
  | scalar (value : Scalar)
  | content (value : Content)

namespace Entry

/-- Writes the field. -/
def put (e : Entry) (p : Pipe) : Except PipeError Unit × Pipe :=
  match e with
  | scalar value => (.ok (), value.put p)
  | content value => value.put p

/-- The number of cells. -/
def width : Entry → Nat
  | scalar value => value.width
  | content _ => 2

/-- The cells of a field whose bytes begin `offset` bytes after the base of the fragment. -/
def cells (s : Schema) (offset : Int) : Entry → List Int32
  | scalar value => value.cells s
  | content value => (value.descriptor offset).cells

/-- The bytes that the field asks the blob to take. -/
def bytesIn : Entry → List UInt8
  | scalar _ => []
  | content value => value.bytesIn

/-- The blob head after the field. -/
def headAfter (e : Entry) (head : Int) : Int :=
  match e with
  | scalar _ => head
  | content value => value.headAfter head

/-- The moving average after the field. -/
def averageAfter (e : Entry) (p : Pipe) : Int :=
  match e with
  | scalar _ => p.producer.average
  | content value => value.averageAfter p

/-- What holds of a field that has been written. -/
def Sound (constants : Buffer) : Entry → Prop
  | scalar _ => True
  | content value => value.Sound constants

@[simp] theorem length_cells (s : Schema) (offset : Int) (e : Entry) :
    (e.cells s offset).length = e.width := by
  cases e with
  | scalar value => exact value.length_cells s
  | content value => rfl

/-- A written field changes the pipe in this way and no other. -/
theorem put_ok {e : Entry} {p q : Pipe} (written : e.put p = (.ok (), q)) :
    e.Sound p.store.config.constants ∧ q = p.withField
      (e.cells p.schema ((p.producer.blobHead - p.producer.writeBase) % blobSpan))
      (p.store.blob.setList p.producer.blobHead e.bytesIn) (e.headAfter p.producer.blobHead)
      (e.averageAfter p) p.producer.fieldOpen p.store.events p.store.shutdownCause := by
  cases e with
  | scalar value =>
    rw [put, Scalar.put_eq, Prod.mk.injEq] at written
    exact ⟨trivial, written.2.symm⟩
  | content value =>
    have outcome := value.outcome p
    rw [put] at written
    rw [written] at outcome
    cases outcome with
    | accepted allowed sound => exact ⟨sound, rfl⟩

/-- A field that is not written leaves the slab and all positions as they were. -/
theorem put_error {e : Entry} {p q : Pipe} {x : PipeError} (denied : e.put p = (.error x, q)) :
    ∃ blob average events cause,
      p.store.blob.SameOutside blob p.producer.blobHead e.bytesIn.length ∧
      (average = p.producer.average ∨ average = e.averageAfter p) ∧
      q = p.withField [] blob p.producer.blobHead average p.producer.fieldOpen events cause := by
  cases e with
  | scalar value => cases denied
  | content value =>
    have outcome := value.outcome p
    rw [put] at denied
    rw [denied] at outcome
    cases outcome with
    | failed cause allowed within => exact ⟨_, _, _, _, within, .inr rfl, rfl⟩
    | refused checked tooLong => exact ⟨_, _, _, _, .refl _ _ _, .inl rfl, rfl⟩

/-- The answer to a field depends on the capacity and the moving average alone. -/
theorem put_fst_congr {p q : Pipe} (config : q.store.config = p.store.config)
    (average : q.producer.average = p.producer.average) (e : Entry) :
    (e.put q).1 = (e.put p).1 := by
  have bytes (data : List UInt8) : (q.putBytes data).1 = (p.putBytes data).1 := by
    rw [Pipe.putBytes, Pipe.putBytes, Pipe.putField_fst, Pipe.putField_fst]
    exact Pipe.checkLength_fst_congr config average _
  cases e with
  | scalar value => rfl
  | content value =>
    cases value with
    | bytes data => exact bytes data
    | pieces source =>
      show (q.putPieces source).1 = (p.putPieces source).1
      rw [Pipe.putPieces_fst, Pipe.putPieces_fst, Pipe.checkLength_fst_congr config average]
    | lowBytes text =>
      cases text with
      | none => rfl
      | some t => exact bytes _
    | utf8 text =>
      cases text with
      | none => rfl
      | some t => exact bytes _
    | null => rfl
    | constant offset length =>
      show (q.putConstant _ _).1 = (p.putConstant _ _).1
      unfold Pipe.putConstant
      dsimp only
      rw [config]
      split
      · rfl
      · rfl
    | stream source count =>
      show (q.putFromStream source count).1 = (p.putFromStream source count).1
      rw [Pipe.putFromStream_fst, Pipe.putFromStream_fst,
        Pipe.checkLength_fst_congr config average]

end Entry

end FragmentPipe
