import Mathlib.Data.List.Forall2
import FragmentPipe.Proofs.Deferral.Postponed
import FragmentPipe.Proofs.Stream.Adjoining

/-!
The cells of a fragment, counted three times: by the schema from the kinds of its fields, by the
writer as its slab head moves, and by the reader as its slab tail moves. A `FieldWrite` is any call
that writes one field, and `Takes` says that looks take certain fields one after the other, with
other looks between them. Main statement: `layout_agrees`, all three come to the same number,
whatever the fields hold and in whichever ways they are written and taken.
-/

namespace FragmentPipe

/-! ## Writing -/

/-- A call that writes one field. -/
inductive FieldWrite where
  | scalar (value : Scalar)
  | offer (o : Offer)

namespace FieldWrite

/-- Writes the field. -/
def run (c : FieldWrite) (p : Pipe) : Except PipeError Unit × Pipe :=
  match c with
  | scalar value => (.ok (), value.put p)
  | offer o => ((o.run p).1, (o.run p).2.2)

/-- Whether the call is one for fields of a kind. -/
def writes : FieldWrite → FieldKind → Bool
  | scalar value, kind => (Entry.scalar value).fits kind
  | offer _, kind => kind.isVariable

end FieldWrite

variable {p q : Pipe} {f : Fragment} {way : Way} {message : Int32} {kind : FieldKind}
  {kinds : List FieldKind}

/-- Every kind whose content lies in the blob has the two cells of a descriptor. -/
theorem FieldKind.width_of_isVariable (isVariable : kind.isVariable = true) : kind.width = 2 := by
  cases kind <;> first | rfl | cases isVariable

theorem Scalar.slabHead_put {value : Scalar} (fits : (Entry.scalar value).fits kind = true)
    (p : Pipe) : (value.put p).producer.slabHead = p.producer.slabHead + kind.width := by
  have width : value.width = kind.width := Entry.width_eq_of_fits fits
  rw [Scalar.put_eq, ← width, ← value.length_cells p.schema]
  rfl

/-- A field of variable length takes its descriptor, whatever it holds. -/
theorem Offer.slabHead_run {o : Offer} {x : Option FieldView}
    (accepted : o.run p = (.ok (), x, q)) : q.producer.slabHead = p.producer.slabHead + 2 := by
  obtain ⟨c, rfl, written⟩ | ⟨-, blob, average, isOpen, rfl⟩ := o.written_or_commits accepted
  · obtain ⟨-, rfl⟩ := Entry.put_ok (e := .content c) written
    rfl
  · rw [Pipe.commitField_eq]
    rfl

theorem FieldWrite.slabHead_run {c : FieldWrite} (fits : c.writes kind = true)
    (accepted : c.run p = (.ok (), q)) :
    q.producer.slabHead = p.producer.slabHead + kind.width := by
  cases c with
  | scalar value =>
    obtain ⟨-, rfl⟩ := Prod.mk.inj accepted
    exact Scalar.slabHead_put fits p
  | offer o =>
    obtain ⟨answer, rfl⟩ := Prod.mk.inj accepted
    rw [FieldKind.width_of_isVariable fits]
    exact Offer.slabHead_run (Prod.ext answer rfl)

namespace Pipe

/-- Begins a fragment: a message with its number, a nested fragment with nothing. -/
def beginFragment (p : Pipe) (f : Fragment) (way : Way) (message : Int32) : Option Pipe :=
  if f.startsMessage then
    match way.start p message with
    | (true, q) => some q
    | (false, _) => none
  else some p

/-- Writes fields one after the other, as long as they are accepted. -/
def putFields (p : Pipe) : List FieldWrite → Option Pipe
  | [] => some p
  | c :: rest =>
    match c.run p with
    | (.ok _, q) => q.putFields rest
    | (.error _, _) => none

/-- Writes a whole fragment and publishes it. -/
def writeFragment (p : Pipe) (f : Fragment) (way : Way) (message : Int32)
    (calls : List FieldWrite) : Option Pipe :=
  ((p.beginFragment f way message).bind (·.putFields calls)).map fun q => q.publishFragment.2

/-- The cells in front of the fields. -/
theorem slabHead_beginFragment (begun : p.beginFragment f way message = some q) :
    q.producer.slabHead = p.producer.slabHead + (if f.startsMessage then 1 else 0 : Nat) := by
  unfold beginFragment at begun
  by_cases starts : f.startsMessage = true
  · rw [if_pos starts] at begun ⊢
    have outcome := p.started_start way message
    split at begun
    · next started =>
      cases begun
      rw [started] at outcome
      cases outcome
      rfl
    · cases begun
  · rw [if_neg starts] at begun ⊢
    cases begun
    exact (Int.add_zero _).symm

/-- The cells of the fields. -/
theorem slabHead_putFields {calls : List FieldWrite}
    (fits : List.Forall₂ (fun c kind => c.writes kind = true) calls f.fields)
    (written : p.putFields calls = some q) :
    q.producer.slabHead = p.producer.slabHead + f.bodySize := by
  unfold Fragment.bodySize
  generalize f.fields = kinds at fits
  induction fits generalizing p with
  | nil =>
    cases written
    exact (Int.add_zero _).symm
  | @cons c kind calls kinds first _ ih =>
    rw [putFields] at written
    split at written
    · next r accepted =>
      have head := FieldWrite.slabHead_run first accepted
      have tail := ih written
      rw [List.foldr_cons]
      omega
    · cases written

theorem slabHead_publishFragment (p : Pipe) :
    p.publishFragment.2.producer.slabHead = p.producer.slabHead + 1 := by
  obtain ⟨_, _, _, _, _, _, moved⟩ := p.putByteCount.publishBatched_eq
  show p.putByteCount.publishBatched.producer.slabHead = _
  rw [moved]
  rfl

/-- A writer that writes a fragment takes the cells that the schema counts. -/
theorem slabHead_writeFragment {calls : List FieldWrite}
    (fits : List.Forall₂ (fun c kind => c.writes kind = true) calls f.fields)
    (written : p.writeFragment f way message calls = some q) :
    q.producer.slabHead = p.producer.slabHead + f.size := by
  obtain ⟨r, fields, rfl⟩ := Option.map_eq_some_iff.mp written
  obtain ⟨o, begun, put⟩ := Option.bind_eq_some_iff.mp fields
  have first := slabHead_beginFragment begun
  have body := slabHead_putFields fits put
  have last := r.slabHead_publishFragment
  rw [Fragment.size]
  omega

end Pipe

/-! ## Reading -/

namespace Look

/-- Whether a look takes a field of a kind. The descriptor of a field of variable length may be
taken alone, into a sink or in view. -/
def takes {α : Type} : Look α → FieldKind → Bool
  | take kind, kind' => kind = kind'
  | takeDescriptor, kind | writeFieldTo _, kind | view, kind | addToView _, kind => kind.isVariable
  | _, _ => false

/-- Whether a look takes nothing off the slab. -/
def takesNothing {α : Type} : Look α → Bool
  | takeMessage | take _ | takeDescriptor | writeFieldTo _ | view | addToView _ => false
  | _ => true

/-- The looks take fields of these kinds one after the other. -/
inductive Takes : List FieldKind → List (Sigma Look) → Prop where
  | nil : Takes [] []
  | field {kind : FieldKind} {kinds : List FieldKind} {α : Type} {l : Look α}
    {rest : List (Sigma Look)} (first : l.takes kind = true) (later : Takes kinds rest) :
    Takes (kind :: kinds) (⟨α, l⟩ :: rest)
  | aside {kinds : List FieldKind} {α : Type} {l : Look α} {rest : List (Sigma Look)}
    (nothing : l.takesNothing = true) (later : Takes kinds rest) :
    Takes kinds (⟨α, l⟩ :: rest)

end Look

namespace Pipe

/-- All that a look can change: the reader's positions, what it has seen of the published one, and
what is reported. -/
def afterLook (p : Pipe) (width : Nat) (blobTail : Int) (content : ContentCache) (last : Int32)
    (events : List Event) : Pipe :=
  { p with
    consumer.slabTail := p.consumer.slabTail + width
    consumer.blobTail := blobTail
    consumer.content := content
    consumer.lastMessage := last
    store.events := events }

/-- One pipe comes from another by a look that passes so many cells. -/
def LooksOn (p : Pipe) (width : Nat) (q : Pipe) : Prop :=
  ∃ blobTail content last events, q = p.afterLook width blobTail content last events

theorem looksOn_passed (p : Pipe) (width : Nat) (tail : Int) (events : List Event) :
    p.LooksOn width (p.passed width tail events) := ⟨tail, _, _, events, rfl⟩

theorem looksOn_zero {content : ContentCache} {tail : Int} {events : List Event} :
    p.LooksOn 0 { p with
      consumer.content := content, consumer.blobTail := tail, store.events := events } := by
  refine ⟨tail, content, p.consumer.lastMessage, events, ?_⟩
  simp only [afterLook, Int.natCast_zero, Int.add_zero]

theorem looksOn_refl (p : Pipe) : p.LooksOn 0 p := looksOn_zero

theorem LooksOn.trans {r : Pipe} {m n : Nat} (first : p.LooksOn m q) (second : q.LooksOn n r) :
    p.LooksOn (m + n) r := by
  obtain ⟨_, _, _, _, rfl⟩ := first
  obtain ⟨tail, content, last, events, rfl⟩ := second
  refine ⟨tail, content, last, events, ?_⟩
  simp only [afterLook, Int.natCast_add, Int.add_assoc]

theorem looksOn_takeDescriptor (p : Pipe) : p.LooksOn 2 p.takeDescriptor.2 := by
  rw [takeDescriptor_snd]
  exact looksOn_passed ..

theorem looksOn_locate (p : Pipe) (offset length : Int) :
    p.LooksOn 0 (p.locate offset length).2 := by
  unfold locate
  dsimp only
  split
  · exact looksOn_zero
  · exact p.looksOn_refl

theorem looksOn_passField (p : Pipe) (d : Descriptor) : p.LooksOn 0 (p.passField d) := by
  rw [passField_eq]
  exact looksOn_passed ..

theorem looksOn_of_passed (moves : ∃ tail events, q = p.passed 0 tail events) : p.LooksOn 0 q := by
  obtain ⟨tail, events, rfl⟩ := moves
  exact looksOn_passed ..

theorem looksOn_awaitContent (p : Pipe) : p.LooksOn 0 p.awaitContent.2 := by
  unfold awaitContent
  dsimp only
  split
  · exact looksOn_zero
  · split
    · exact looksOn_zero
    · exact looksOn_zero

theorem looksOn_writeFieldTo (p : Pipe) (sink : Sink) : p.LooksOn 2 (p.writeFieldTo sink).2.2 := by
  have taken := p.looksOn_takeDescriptor
  have passed := taken.trans (p.takeDescriptor.2.looksOn_passField p.takeDescriptor.1)
  unfold writeFieldTo
  dsimp only
  split
  · exact taken
  · split
    · exact passed
    · exact passed

theorem looksOn_openField (p : Pipe) : p.LooksOn 2 (FieldView.openField p).2.2 := by
  have taken := p.looksOn_takeDescriptor
  unfold FieldView.openField
  dsimp only
  split
  · exact taken
  · exact taken.trans (looksOn_locate ..)

theorem looksOn_addField (v : FieldView) (p : Pipe) : p.LooksOn 2 (v.addField p).2.2 := by
  have taken := p.looksOn_takeDescriptor
  unfold FieldView.addField
  split
  · exact p.looksOn_openField
  · dsimp only
    split
    · exact taken.trans (looksOn_locate ..)
    · exact taken

end Pipe

namespace Look

variable {α : Type} {l : Look α}

/-- The cells that a look passes. -/
def width {α : Type} : Look α → Nat
  | takeMessage => 1
  | take kind => kind.width
  | takeDescriptor | writeFieldTo _ | view | addToView _ => 2
  | _ => 0

/-- Every look passes its cells and leaves alone what does not belong to the reader. -/
theorem looksOn (l : Look α) (p : Pipe) : p.LooksOn l.width (l.run p).2 := by
  cases l with
  | take kind =>
    obtain ⟨tail, events, moved⟩ := p.takeField_eq kind
    show p.LooksOn kind.width (p.takeField kind).2
    rw [moved]
    exact Pipe.looksOn_passed ..
  | takeMessage => exact ⟨p.consumer.blobTail, _, _, p.store.events, rfl⟩
  | takeDescriptor => exact p.looksOn_takeDescriptor
  | locate offset length => exact p.looksOn_locate offset length
  | awaitContent => exact p.looksOn_awaitContent
  | readBytes d => exact Pipe.looksOn_of_passed (p.readBytes_snd d)
  | readLowBytes d => exact Pipe.looksOn_of_passed (p.readLowBytes_snd d)
  | readUtf8 d => exact Pipe.looksOn_of_passed (p.readUtf8_snd d)
  | readOptionalBytes d =>
    exact Pipe.looksOn_of_passed (Pipe.readPresent_snd (fun p d => p.readBytes_snd d) p d)
  | readOptionalLowBytes d =>
    exact Pipe.looksOn_of_passed (Pipe.readPresent_snd (fun p d => p.readLowBytes_snd d) p d)
  | readOptionalUtf8 d =>
    exact Pipe.looksOn_of_passed (Pipe.readPresent_snd (fun p d => p.readUtf8_snd d) p d)
  | writeFieldTo sink => exact p.looksOn_writeFieldTo sink
  | view => exact p.looksOn_openField
  | addToView v => exact p.looksOn_addField v
  | _ => exact Pipe.looksOn_zero

theorem slabTail_run (l : Look α) (p : Pipe) :
    (l.run p).2.consumer.slabTail = p.consumer.slabTail + l.width := by
  obtain ⟨_, _, _, _, moved⟩ := l.looksOn p
  rw [moved]
  rfl

theorem width_of_takes (takes : l.takes kind = true) : l.width = kind.width := by
  cases l with
  | take other =>
    obtain rfl : other = kind := of_decide_eq_true takes
    rfl
  | takeDescriptor | writeFieldTo | view | addToView =>
    exact (FieldKind.width_of_isVariable takes).symm
  | _ => cases takes

theorem width_of_takesNothing (nothing : l.takesNothing = true) : l.width = 0 := by
  cases l with
  | takeMessage | take | takeDescriptor | writeFieldTo | view | addToView => cases nothing
  | _ => rfl

end Look

/-- How a reader ends a fragment: it releases it, or puts the release off. -/
inductive Ending where
  | release | defer
  deriving DecidableEq

namespace Pipe

/-- Ends a fragment; the answer is the number of its bytes. -/
def endFragment (p : Pipe) : Ending → Int × Pipe
  | .release => p.releaseFragment
  | .defer => p.deferRelease

/-- Looks one after the other. -/
def lookAll (p : Pipe) : List (Sigma Look) → Pipe
  | [] => p
  | l :: rest => (l.2.run p).2.lookAll rest

/-- Reads a whole fragment: of a message the number, then the fields, and the byte count. -/
def readFragment (p : Pipe) (f : Fragment) (looks : List (Sigma Look)) (ending : Ending) : Pipe :=
  ((if f.startsMessage then p.takeMessage.2 else p).lookAll looks |>.endFragment ending).2

theorem slabTail_lookAll {looks : List (Sigma Look)} (taken : Look.Takes f.fields looks)
    (p : Pipe) : (p.lookAll looks).consumer.slabTail = p.consumer.slabTail + f.bodySize := by
  unfold Fragment.bodySize
  generalize f.fields = kinds at taken
  induction taken generalizing p with
  | nil => exact (Int.add_zero _).symm
  | @field kind kinds α l rest first _ ih =>
    have head := l.slabTail_run p
    have tail := ih (l.run p).2
    rw [Look.width_of_takes first] at head
    show ((l.run p).2.lookAll rest).consumer.slabTail = _
    rw [List.foldr_cons]
    omega
  | @aside kinds α l rest nothing _ ih =>
    rw [lookAll, ih, l.slabTail_run, Look.width_of_takesNothing nothing]
    exact congrArg (· + _) (Int.add_zero _)

theorem slabTail_endFragment (p : Pipe) (ending : Ending) :
    (p.endFragment ending).2.consumer.slabTail = p.consumer.slabTail + 1 := by
  cases ending with
  | release => exact (p.takeByteCount.2.keeps_releaseBatched _ _).slabTail
  | defer => rfl

/-- A reader that reads a fragment passes the cells that the schema counts. -/
theorem slabTail_readFragment {looks : List (Sigma Look)} (taken : Look.Takes f.fields looks)
    (p : Pipe) (ending : Ending) :
    (p.readFragment f looks ending).consumer.slabTail = p.consumer.slabTail + f.size := by
  have number : (if f.startsMessage then p.takeMessage.2 else p).consumer.slabTail =
      p.consumer.slabTail + (if f.startsMessage then 1 else 0 : Nat) := by
    split
    · rfl
    · exact (Int.add_zero _).symm
  have body := slabTail_lookAll taken (if f.startsMessage then p.takeMessage.2 else p)
  rw [readFragment, slabTail_endFragment, body, number, Fragment.size]
  omega

end Pipe

/-- The schema, the writer and the reader agree on the cells of every fragment. As many as the
schema tells for its number, the slab head moves when the fragment is written and published: the
number of a message in whichever way it is started, and each field by a call for its kind that is
accepted, be it absent, a reference to the constants, made, fetched or streamed. And as many the
slab tail of any reader moves when the fragment is read and released or put off: each field taken as
its kind, and one of variable length also by its descriptor, into a sink or in view, with any other
looks between. -/
theorem layout_agrees {schema : Schema} {message : Int32} {f : Fragment}
    (known : schema.fragment? message = some f) :
    ∃ size : Nat, schema.fragmentSize? message = some size ∧
      (∀ {p q : Pipe} {way : Way} {calls : List FieldWrite}, p.schema = schema →
        List.Forall₂ (fun c kind => c.writes kind = true) calls f.fields →
        p.writeFragment f way message calls = some q →
          q.producer.slabHead = p.producer.slabHead + size) ∧
      ∀ {looks : List (Sigma Look)} (p : Pipe) (ending : Ending), Look.Takes f.fields looks →
        (p.readFragment f looks ending).consumer.slabTail = p.consumer.slabTail + size := by
  refine ⟨f.size, schema.fragmentSize?_eq_of_startsMessage known, ?_, ?_⟩
  · intro p q way calls _ fits written
    exact Pipe.slabHead_writeFragment fits written
  · intro looks p ending taken
    exact Pipe.slabTail_readFragment taken p ending

/-- A message with a field of every kind. -/
def kindsFragment : Fragment :=
  ⟨"All", [.int, .optionalInt, .long, .optionalLong, .decimal, .optionalDecimal, .ascii, .utf8,
    .bytes, .groupLength], true⟩

def kindsSchema : Schema where
  name := "Kinds"
  fragments := [kindsFragment]
  absentInt := Schema.defaultAbsentInt
  absentLong := Schema.defaultAbsentLong
  hasMessage := rfl

/-- Rings of 32 cells and 32 bytes with three bytes of constants, at cell 20 and byte 30. -/
def kindsPipe : Pipe :=
  .start ((Store.empty 0
    { sampleConfig with schema := kindsSchema, constants := #[7, 8, 9], publishBatch := 1 }
    false).moveTo 20 30)

/-- A field of every kind: those that can be absent are, one text is absent, the other one streamed,
and the bytes lie in the constants. -/
def writeKinds : List FieldWrite :=
  [.scalar (.int 1), .scalar (.optionalInt none), .scalar (.long 2), .scalar (.optionalLong none),
    .scalar (.decimal 3 4), .scalar (.optionalDecimal none), .offer (.field .null),
    .offer (.streamed [.some [65]]), .offer (.field (.constant 0 3)), .scalar (.int 5)]

/-- The fields as their kinds, but the variable ones in view, into a sink and by the descriptor, and
two looks at what lies there. -/
def readKinds : List (Sigma Look) :=
  [⟨_, .take .int⟩, ⟨_, .take .optionalInt⟩, ⟨_, .peekLong 0⟩, ⟨_, .take .long⟩,
    ⟨_, .take .optionalLong⟩, ⟨_, .take .decimal⟩, ⟨_, .take .optionalDecimal⟩, ⟨_, .view⟩,
    ⟨_, .writeFieldTo ⟨none, []⟩⟩, ⟨_, .takeDescriptor⟩, ⟨_, .readBytes ⟨.constants 0, 3⟩⟩,
    ⟨_, .take .groupLength⟩]

/-- With its number and its byte count the message has 21 cells. -/
theorem layout_agrees_sample :
    ∃ q, kindsPipe.writeFragment kindsFragment .waiting 0 writeKinds = some q ∧
      q.producer.slabHead = 41 ∧ q.consumer.slabTail = 20 ∧
      (q.readFragment kindsFragment readKinds .defer).consumer.slabTail = 41 := by
  have evaluated : (kindsPipe.writeFragment kindsFragment .waiting 0 writeKinds).any fun q =>
      q.consumer.slabTail = 20 := by decide +kernel
  obtain ⟨q, written, here⟩ := (Option.any_eq_true ..).mp evaluated
  have tail : q.consumer.slabTail = 20 := of_decide_eq_true here
  have known : kindsSchema.fragment? 0 = some kindsFragment := rfl
  have calls : List.Forall₂ (fun c kind => c.writes kind = true) writeKinds kindsFragment.fields := by
    repeat constructor
  have looks : Look.Takes kindsFragment.fields readKinds :=
    .field rfl (.field rfl (.aside rfl (.field rfl (.field rfl (.field rfl (.field rfl (.field rfl
      (.field rfl (.field rfl (.aside rfl (.field rfl .nil)))))))))))
  obtain ⟨size, told, writes, reads⟩ := layout_agrees known
  obtain rfl : 21 = size := Option.some.inj told
  have head := writes rfl calls written
  have passed := reads q .defer looks
  rw [tail] at passed
  exact ⟨q, written, head, tail, passed⟩

end FragmentPipe
