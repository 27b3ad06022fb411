import Mathlib.Algebra.GroupWithZero.Nat
import FragmentPipe.Consume.Release
import FragmentPipe.Pipe.Lifecycle
import FragmentPipe.Produce.Publish
import FragmentPipe.Produce.Room
import FragmentPipe.Proofs.Transfer.Strokes

/-!
A pipe in use. The writer makes sure of room, writes the fields of a fragment, confirms its cells
and publishes it; the reader takes the fields of a published fragment, confirms and releases it. A
`Session` is the pipe together with what was written and what was received, and `Session.step` is
one call of either side, without an answer where the protocol does not allow the call. `Reaches`
describes the runs, of any length and in any order of the two sides, whose calls keep to a rule.
-/

namespace FragmentPipe

/-! ## Fragments -/

namespace Entry

/-- The bytes of the blob that a field takes, as far as a length can tell them. -/
def taken (e : Entry) : Nat := min e.bytesIn.length 0x7FFFFFFF

/-- The cells of fields that follow each other, the first one `offset` bytes after the base. -/
def lay (s : Schema) (offset : Nat) : List Entry → List Int32
  | [] => []
  | e :: rest => e.cells s (offset % blobSpan) ++ lay s (offset + e.taken) rest

end Entry

/-- What was written of a fragment: the number of a message, and the fields. -/
structure Written where
  number : Option Int32
  entries : List Entry

namespace Written

/-- The end mark reads like a message without fields. -/
def endMark : Written := ⟨some (-1), []⟩

/-- The fragment with one more field. -/
def add (w : Written) (e : Entry) : Written := { w with entries := w.entries ++ [e] }

/-- The cells of the number and the fields. -/
def opening (s : Schema) (w : Written) : List Int32 := w.number.toList ++ Entry.lay s 0 w.entries

/-- The number of these cells. -/
def filled (w : Written) : Nat := w.number.toList.length + (w.entries.map Entry.width).sum

/-- The number of bytes. -/
def taken (w : Written) : Nat := (w.entries.map Entry.taken).sum

/-- All cells; the last one counts the bytes. -/
def cells (s : Schema) (w : Written) : List Int32 :=
  w.opening s ++ [Int32.ofInt (w.taken % blobSpan)]

/-- The number of all cells. -/
def size (w : Written) : Nat := w.filled + 1

/-- The bytes of all fields. -/
def bytes (w : Written) : List UInt8 := w.entries.flatMap Entry.bytesIn

end Written

/-- A fragment that is being written. -/
structure Draft where
  fragment : Fragment
  content : Written
  confirmed : Bool

/-- What was read of a fragment: its number, and each field with the kind it was taken as. -/
structure Reading where
  number : Option Int32
  fields : List (FieldKind × FieldValue)
  confirmed : Bool

/-- A fragment that was read to its end. -/
structure Receipt where
  number : Option Int32
  fields : List (FieldKind × FieldValue)
  count : Int
  deriving DecidableEq

/-! ## Calls -/

/-- A pipe with what went through it. Its positions count from `slabStart` and `blobStart`. -/
structure Session where
  pipe : Pipe
  slabStart : Int
  blobStart : Int
  /-- The fragments that are finished and not given up. -/
  written : List Written
  draft : Option Draft
  received : List Receipt
  reading : Option Reading

/-- The ways of starting a message: with room that was made sure of, by asking for it or by waiting
for it. -/
inductive Way where
  | plain | asking | waiting
  deriving DecidableEq

/-- Starts a message; the answer tells whether it is started. -/
def Way.start (way : Way) (p : Pipe) (message : Int32) : Bool × Pipe :=
  match way with
  | plain => ((p.startMessage message).1.isOk, (p.startMessage message).2)
  | asking =>
    match p.tryMessage message with
    | (.ok (some _), p) => (true, p)
    | (_, p) => (false, p)
  | waiting =>
    match p.awaitMessage message with
    | (.done _, p) => (true, p)
    | (_, p) => (false, p)

/-- A call of the writer or of the reader. -/
inductive Action where
  | askRoom (size : Int)
  | begin (way : Way) (message : Int32)
  | nest (index : Nat)
  /-- Writes a field, or goes on with a streamed one. -/
  | put (w : Stroke)
  | confirm
  | publish
  | flush
  | abandon
  | finish
  | look
  | receive
  | take (kind : FieldKind)
  | pass
  | release
  | flushReleased
  | releaseToHere

/-- A property of what the call writes, if it writes a field or goes on with one. -/
def Action.OnPut (a : Action) (property : Stroke → Prop) : Prop :=
  match a with
  | put w => property w
  | _ => True

instance (a : Action) (property : Stroke → Prop) [DecidablePred property] :
    Decidable (a.OnPut property) :=
  match a with
  | .put w => inferInstanceAs (Decidable (property w))
  | .askRoom _ | .begin _ _ | .nest _ | .confirm | .publish | .flush | .abandon | .finish | .look
  | .receive | .take _ | .pass | .release | .flushReleased | .releaseToHere => .isTrue trivial

namespace Session

/-- Two sides that take up their work. -/
def start (p : Pipe) : Session := ⟨p, p.store.slabHead, p.store.blobHead, [], none, [], none⟩

/-- The fragment that is the next to read or is being read. -/
def next? (s : Session) : Option Written := s.written[s.received.length]?

/-- How many fragments lie within so many cells. -/
def within : List Written → Int → Nat
  | [], _ => 0
  | w :: rest, cells => if w.size ≤ cells then within rest (cells - w.size) + 1 else 0

/-- The number of the fragments that the reader can see. -/
def published (s : Session) : Nat := within s.written (s.pipe.store.slabHead - s.slabStart)

/-- The number of the fragments that the reader has given back. -/
def released (s : Session) : Nat := within s.written (s.pipe.store.slabTail - s.slabStart)

/-- Starts a message. -/
def beginMessage (s : Session) (way : Way) (message : Int32) : Session :=
  let started := way.start s.pipe message
  { s with
    pipe := started.2
    draft :=
      if started.1 then
        (s.pipe.schema.fragment? message).map fun f => ⟨f, ⟨some message, []⟩, false⟩
      else none }

/-- Starts a fragment that is nested in a message. -/
def beginNested (s : Session) (f : Fragment) : Session :=
  let asked := s.pipe.hasRoom f.size
  { s with pipe := asked.2, draft := if asked.1 then some ⟨f, ⟨none, []⟩, false⟩ else none }

/-- Writes a field. -/
def putField (s : Session) (d : Draft) (w : Stroke) (e : Entry) : Session :=
  match w.run s.pipe with
  | (.ok _, p) => { s with pipe := p, draft := some { d with content := d.content.add e } }
  | (.error _, p) => { s with pipe := p }

/-- Gives up what is not published. -/
def abandonAll (s : Session) : Session :=
  { s with pipe := s.pipe.abandonWrites, written := s.written.take s.published, draft := none }

/-- Writes the end mark. -/
def finishAll (s : Session) : Session :=
  match s.pipe.publishEnd with
  | (.ok _, p) => { s with pipe := p, written := s.written ++ [.endMark] }
  | (.error _, p) => { s with pipe := p }

/-- Turns to a fragment; of a message the number is read. -/
def openNext (s : Session) (w : Written) : Session :=
  match w.number with
  | none => { s with reading := some ⟨none, [], false⟩ }
  | some _ =>
    let read := s.pipe.takeMessage
    { s with pipe := read.2, reading := some ⟨some read.1, [], false⟩ }

/-- Takes a field. -/
def takeNext (s : Session) (c : Reading) (kind : FieldKind) : Session :=
  let read := s.pipe.takeField kind
  { s with pipe := read.2, reading := some { c with fields := c.fields ++ [(kind, read.1)] } }

/-- Releases a fragment. -/
def releaseNext (s : Session) (c : Reading) : Session :=
  let released := s.pipe.releaseFragment
  { s with
    pipe := released.2
    received := s.received ++ [⟨c.number, c.fields, released.1⟩]
    reading := none }

/-- One call. A message or a nested fragment is started between fragments and takes fields as long
as its cells last; a part of a streamed field belongs to no fragment before the field is finished.
All cells are confirmed, then the fragment is published. A fragment is read when there is content,
each field as a kind that it has, and released after all its cells are confirmed. -/
def step (s : Session) : Action → Option Session
  | .askRoom size => some { s with pipe := (s.pipe.hasRoom size).2 }
  | .begin way message => if s.draft.isNone then some (s.beginMessage way message) else none
  | .nest index =>
    match s.draft, s.pipe.schema.fragments[index]? with
    | none, some f => if f.startsMessage then none else some (s.beginNested f)
    | _, _ => none
  | .put w =>
    match w.field? s.pipe, s.draft with
    | none, _ => some { s with pipe := (w.run s.pipe).2 }
    | some e, some d =>
      if w.Told ∧ d.confirmed = false ∧ d.content.filled + e.width < d.fragment.size then
        some (s.putField d w e)
      else none
    | some _, none => none
  | .confirm =>
    match s.draft with
    | some d =>
      if d.confirmed = false ∧ d.content.size = d.fragment.size then
        some { s with
          pipe := s.pipe.confirmWrite d.fragment.size
          draft := some { d with confirmed := true } }
      else none
    | none => none
  | .publish =>
    match s.draft with
    | some d =>
      if d.confirmed then
        some { s with
          pipe := s.pipe.publishFragment.2
          written := s.written ++ [d.content]
          draft := none }
      else none
    | none => none
  | .flush => some { s with pipe := s.pipe.flushPublished }
  | .abandon => some s.abandonAll
  | .finish => if s.draft.isNone then some s.finishAll else none
  | .look => some { s with pipe := s.pipe.hasContent.2 }
  | .receive =>
    let found := s.pipe.hasContent
    if found.1 then
      match s.reading, s.next? with
      | none, some w => some ({ s with pipe := found.2 }.openNext w)
      | _, _ => none
    else if s.reading.isNone then some { s with pipe := found.2 }
    else none
  | .take kind =>
    match s.reading, s.next? with
    | some c, some w =>
      if (w.entries[c.fields.length]?).any (·.fits kind) then some (s.takeNext c kind) else none
    | _, _ => none
  | .pass =>
    match s.reading, s.next? with
    | some c, some w =>
      if c.confirmed = false ∧ c.fields.length = w.entries.length then
        some { s with
          pipe := s.pipe.confirmRead w.size
          reading := some { c with confirmed := true } }
      else none
    | _, _ => none
  | .release =>
    match s.reading with
    | some c => if c.confirmed then some (s.releaseNext c) else none
    | none => none
  | .flushReleased => some { s with pipe := s.pipe.flushReleased }
  | .releaseToHere =>
    if s.reading.isNone then some { s with pipe := s.pipe.releaseToHere } else none

end Session

/-! ## Runs -/

/-- The sessions that calls lead to which the protocol and a rule allow. -/
inductive Reaches (rule : Session → Action → Prop) (s : Session) : Session → Prop where
  | refl : Reaches rule s s
  | step {t u : Session} {a : Action} (run : Reaches rule s t) (kept : rule t a)
      (call : t.step a = some u) : Reaches rule s u

/-- Every call that the protocol allows. -/
def anyCall (_ : Session) (_ : Action) : Prop := True

instance (s : Session) (a : Action) : Decidable (anyCall s a) := .isTrue trivial

namespace Reaches

variable {rule other : Session → Action → Prop} {s t u : Session}

theorem trans (left : Reaches rule s t) (right : Reaches rule t u) : Reaches rule s u := by
  induction right with
  | refl => exact left
  | step _ kept call ih => exact ih.step kept call

theorem mono (weaker : ∀ t a, rule t a → other t a) (run : Reaches rule s t) :
    Reaches other s t := by
  induction run with
  | refl => exact .refl
  | step _ kept call ih => exact ih.step (weaker _ _ kept) call

/-- What holds at the start and is kept by every call holds throughout. -/
theorem invariant {inv : Session → Prop} (first : inv s)
    (keeps : ∀ t u a, inv t → rule t a → t.step a = some u → inv u) (run : Reaches rule s t) :
    inv t := by
  induction run with
  | refl => exact first
  | step _ kept call ih => exact keeps _ _ _ ih kept call

end Reaches

/-- Makes calls one after the other, as long as the protocol and the rule allow them. -/
def play (rule : Session → Action → Prop) [∀ s a, Decidable (rule s a)] (s : Session) :
    List Action → Option Session
  | [] => some s
  | a :: rest => if rule s a then (s.step a).bind fun t => play rule t rest else none

theorem Reaches.of_play {rule : Session → Action → Prop} [∀ s a, Decidable (rule s a)]
    {s t : Session} {calls : List Action} (played : play rule s calls = some t) :
    Reaches rule s t := by
  induction calls generalizing s with
  | nil =>
    cases played
    exact .refl
  | cons a rest ih =>
    rw [play] at played
    split at played
    · next kept =>
      cases call : s.step a with
      | none => rw [call] at played; cases played
      | some u =>
        rw [call] at played
        exact (Reaches.refl.step kept call).trans (ih played)
    · cases played

/-- A pipe that a registry creates, moved to a place and split into its sides. -/
def Registry.open? (r : Registry) (config : Config) (slab blob : Int) : Option Pipe :=
  match (r.create config).1 with
  | .error _ => none
  | .ok h => (h.makeRings.resetTo slab blob).2.split.2.pipe?

theorem Registry.eq_of_open? {r : Registry} {config : Config} {slab blob : Int} {p : Pipe}
    (opened : r.open? config slab blob = some p) :
    p = .start ((Store.empty r.created config false).moveTo slab (blob % blobSpan)) := by
  unfold open? create at opened
  cases valid : config.validate with
  | error e => rw [valid] at opened; cases opened
  | ok u =>
    rw [valid] at opened
    exact (Option.some.inj opened).symm

/-! ## A small pipe -/

/-- Messages of an integer that may be absent and a field of bytes. -/
def sampleSchema : Schema where
  name := "Sample"
  fragments := [⟨"Reading", [.optionalInt, .bytes], true⟩]
  absentInt := Schema.defaultAbsentInt
  absentLong := Schema.defaultAbsentLong
  hasMessage := rfl

/-- Rings of 32 cells and 32 bytes, and batches of two. -/
def sampleConfig : Config := ⟨sampleSchema, 5, 5, #[], 2, 2, by decide, by decide⟩

/-- The pipe in use, with the slab at cell 3 and the blob at byte 30. -/
def samplePipe : Pipe := .start ((Store.empty 0 sampleConfig false).moveTo 3 30)

theorem open?_sample : Registry.empty.open? sampleConfig 3 30 = some samplePipe := by
  rfl

/-- The calls that write a message. -/
def writeSample (value : Option Int32) (data : List UInt8) : List Action :=
  [.begin .waiting 0, .put (.entry (.scalar (.optionalInt value))),
    .put (.entry (.content (.bytes data))), .confirm, .publish]

/-- The calls that read a message. -/
def readSample : List Action := [.receive, .take .optionalInt, .take .bytes, .pass, .release]

end FragmentPipe
