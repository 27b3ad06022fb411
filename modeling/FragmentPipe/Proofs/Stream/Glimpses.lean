import FragmentPipe.Proofs.Rollback.Refused
import FragmentPipe.Proofs.Stream.Fetches

/-!
The ways to look at a field. A `Glimpse` reads the next field of the reader as bytes or as text, into a
sink or in view, or compares it with something; `Glimpse.tells` is its answer to somebody who has
nothing but the bytes of the field. `Pipe.Finds` says that all glimpses answer as certain bytes have
it. Main statement: `glimpses_agree`, there are such bytes for every field that was written, and a
field of bytes can not be told from a reference to the same bytes among the constants.
-/

namespace FragmentPipe

/-- A way to look at a field. -/
inductive Glimpse where
  | bytes
  /-- As one character a byte. -/
  | lowBytes
  | sink (s : Sink)
  /-- In view, by fetches one after the other. -/
  | view (fetches : List Fetch)
  | sameBytes (expected : List UInt8)
  | sameText (expected : String)

namespace Glimpse

/-- What is answered. -/
abbrev Answer : Glimpse → Type
  | bytes => Nat × List UInt8
  | lowBytes => Nat × String
  | sink _ => Except PipeError Int × Sink
  | view _ => Int × List (Σ c : Fetch, c.Answer)
  | sameBytes _ | sameText _ => Bool

/-- Looks at the next field of the reader. -/
def look (p : Pipe) : (g : Glimpse) → g.Answer × Pipe
  | bytes => p.takeDescriptor.2.readBytes p.takeDescriptor.1
  | lowBytes => p.takeDescriptor.2.readLowBytes p.takeDescriptor.1
  | sink s =>
    let (answer, s, p) := p.writeFieldTo s
    ((answer, s), p)
  | view fetches =>
    let (length, v, p) := FieldView.openField p
    ((length, (v.fetchAll (fetches.map (·, p.store))).1), p)
  | sameBytes expected =>
    (p.takeDescriptor.2.fieldEqualsBytes p.takeDescriptor.1 expected, p.takeDescriptor.2)
  | sameText expected =>
    (p.takeDescriptor.2.fieldEqualsText p.takeDescriptor.1 expected, p.takeDescriptor.2)

/-- The answer that the bytes of the field tell. -/
def tells (found : List UInt8) : (g : Glimpse) → g.Answer
  | bytes => (found.length, found)
  | lowBytes => (found.length, String.ofList (LowByte.decode found))
  | sink s =>
    if s.takes found.length = found.length then
      (.ok found.length, { s with received := s.received ++ found })
    else (.error (.stream .sinkFull),
      { s with received := s.received ++ found.take (s.takes found.length) })
  | view fetches => (found.length, Fetch.answers found fetches)
  | sameBytes expected => decide (expected = found)
  | sameText expected => decide (LowByte.encode expected.toList = found)

end Glimpse

/-! ## A field that is there -/

namespace Descriptor

/-- What is read where the descriptor is written. -/
def readBack (d : Descriptor) : Descriptor := ofCells d.origin.toCell (Int32.ofInt d.length)

/-- What is read names bytes of the blob, or a part of the constants. -/
def Inside (constants : Buffer) (d : Descriptor) : Prop :=
  ∀ start, d.readBack.origin = .constants start → start + max d.readBack.length 0 ≤ constants.size

theorem readBack_bounds (d : Descriptor) : d.readBack.length ≤ Pipe.maxInt ∧
    ∀ start, d.readBack.origin = .constants start → 0 ≤ start ∧ start < blobSpan := by
  have low := d.origin.toCell.le_toInt
  have high := (Int32.ofInt d.length).toInt_lt
  refine ⟨by unfold Pipe.maxInt; show (Int32.ofInt d.length).toInt ≤ _; omega, fun start same => ?_⟩
  have told : Origin.ofCell d.origin.toCell = .constants start := same
  unfold Origin.ofCell at told
  split at told
  · next negative =>
    obtain rfl := Origin.constants.inj told
    unfold blobSpan
    omega
  · cases told

/-- A field of the blob is read as one, whatever its length. -/
theorem inside_blob (constants : Buffer) (position length : Int) :
    Inside constants ⟨.blob (position % blobSpan), length⟩ := by
  intro start same
  have low : 0 ≤ position % blobSpan := Int.emod_nonneg _ (by decide)
  have high : position % blobSpan < blobSpan := Int.emod_lt_of_pos _ (by decide)
  have origin : (readBack ⟨.blob (position % blobSpan), length⟩).origin =
      .blob (position % blobSpan) := Origin.ofCell_toCell_blob low high
  rw [origin] at same
  cases same

end Descriptor

namespace Pipe

/-- Whatever way the next field is looked at, the answer is what these bytes tell. -/
def Finds (p : Pipe) (found : List UInt8) : Prop := ∀ g : Glimpse, (g.look p).1 = g.tells found

/-- A field is there: it is not absent, and of the constants it names a part of them. -/
structure Has (p : Pipe) (d : Descriptor) : Prop where
  turn : (p.store.blob.size : Int) ∣ wordSpan
  present : 0 ≤ d.length
  inside : ∀ start, d.origin = .constants start →
    0 ≤ start ∧ start + d.length ≤ p.store.config.constants.size ∧ start + d.length ≤ wordSpan

/-- A part of the constants, read byte by byte. -/
theorem constantBytes_eq {p : Pipe} {start length : Int} (low : 0 ≤ start) (present : 0 ≤ length)
    (inside : start + length ≤ p.store.config.constants.size) (short : start + length ≤ wordSpan) :
    (p.constantBytes start length).toList =
      ByteStore.getList p.store.config.constants start length.toNat := by
  apply List.ext_getElem
  · simp only [constantBytes, Array.length_toList, Array.size_extract, ByteStore.length_getList]
    omega
  · intro i left right
    rw [ByteStore.length_getList] at right
    have place : ((start + (i : Int)) % wordSpan).toNat = start.toNat + i := by
      rw [Int.emod_eq_of_lt (by omega) (by omega)]
      omega
    have there : start.toNat + i < p.store.config.constants.size := by omega
    have byte : ByteStore.get p.store.config.constants (start + (i : Int)) =
        p.store.config.constants[start.toNat + i] := by
      show p.store.config.constants.getD ((start + (i : Int)) % wordSpan).toNat 0 = _
      rw [place, Array.getD_eq_getD_getElem?, Array.getElem?_eq_getElem there, Option.getD_some]
    simp only [constantBytes, ByteStore.getList, List.getElem_map, List.getElem_range, byte,
      Array.getElem_toList, Array.getElem_extract]

namespace Has

variable {p : Pipe} {d : Descriptor}

theorem size_eq (h : p.Has d) : (d.size : Int) = d.length := Int.toNat_of_nonneg h.present

theorem length_fieldBytes (h : p.Has d) : (p.fieldBytes d).length = d.size := by
  unfold fieldBytes
  split
  · exact ByteStore.length_getList ..
  · next start constant =>
    obtain ⟨low, inside, short⟩ := h.inside start constant
    rw [constantBytes_eq low h.present inside short, ByteStore.length_getList]
    rfl

theorem readBytes_eq (h : p.Has d) :
    (p.readBytes d).1 = ((p.fieldBytes d).length, p.fieldBytes d) := by
  have length := h.length_fieldBytes
  have size := h.size_eq
  unfold readBytes
  split
  · have noBytes : p.fieldBytes d = [] := List.length_eq_zero_iff.mp (by omega)
    rw [noBytes]
    rfl
  · rw [length]

theorem readLowBytes_eq (h : p.Has d) : (p.readLowBytes d).1 =
    ((p.fieldBytes d).length, String.ofList (LowByte.decode (p.fieldBytes d))) := by
  show ((p.readBytes d).1.1, String.ofList (LowByte.decode (p.readBytes d).1.2)) = _
  rw [h.readBytes_eq]

theorem fieldEqualsBytes_eq (h : p.Has d) (expected : List UInt8) :
    p.fieldEqualsBytes d expected = decide (expected = p.fieldBytes d) := by
  have length := h.length_fieldBytes
  have present := h.present
  unfold fieldEqualsBytes
  split
  · next other =>
    have differs : expected ≠ p.fieldBytes d := by
      rintro rfl
      omega
    exact (decide_eq_false differs).symm
  · exact Bool.beq_comm.trans (beq_eq_decide ..)

/-- As many bytes are compared as there are, also among the constants. -/
theorem fieldEqualsText_eq (h : p.Has d) (expected : String) :
    p.fieldEqualsText d expected =
      decide (LowByte.encode expected.toList = p.fieldBytes d) := by
  have length := h.length_fieldBytes
  have present := h.present
  unfold fieldEqualsText
  dsimp only
  split
  · next other =>
    have differs : LowByte.encode expected.toList ≠ p.fieldBytes d := by
      intro same
      rw [same] at other
      omega
    exact (decide_eq_false differs).symm
  · next alike =>
    cases d.origin with
    | blob offset => exact Bool.beq_comm.trans (beq_eq_decide ..)
    | constants start =>
      rw [Bool.eq_iff_iff, List.isPrefixOf_iff_prefix, decide_eq_true_iff]
      exact ⟨fun front => (front.eq_of_length (by omega)).symm, fun same => same ▸ List.prefix_rfl⟩

end Has

/-! ## What is found -/

variable {p : Pipe}

/-- The bytes of the next field of the reader. -/
def nextBytes (p : Pipe) : List UInt8 := p.takeDescriptor.2.fieldBytes p.takeDescriptor.1

/-- The next field of the reader is there. -/
def Present (p : Pipe) : Prop := p.takeDescriptor.2.Has p.takeDescriptor.1

theorem Present.length_nextBytes (h : p.Present) :
    (p.nextBytes.length : Int) = p.takeDescriptor.1.length := by
  have size := Has.size_eq h
  rw [nextBytes, Has.length_fieldBytes h, size]

theorem Present.writeFieldTo_eq (h : p.Present) (s : Sink) :
    ((Glimpse.sink s).look p).1 = (Glimpse.sink s).tells p.nextBytes := by
  have length := h.length_nextBytes
  have present : 0 ≤ p.takeDescriptor.1.length := h.present
  show ((p.writeFieldTo s).1, (p.writeFieldTo s).2.1) =
    if s.takes p.nextBytes.length = p.nextBytes.length then _ else _
  unfold writeFieldTo
  dsimp only
  by_cases empty : p.takeDescriptor.1.length ≤ 0
  · have noBytes : p.nextBytes = [] := List.length_eq_zero_iff.mp (by omega)
    have zero : p.takeDescriptor.1.length = 0 := by omega
    have all : s.takes ([] : List UInt8).length = ([] : List UInt8).length :=
      Nat.le_zero.mp (s.takes_le 0)
    have same : ({ s with received := s.received ++ [] } : Sink) = s := by rw [List.append_nil]
    rw [if_pos empty, noBytes, if_pos all, same]
    exact Prod.ext (congrArg Except.ok zero) rfl
  · have found : p.takeDescriptor.2.fieldBytes p.takeDescriptor.1 = p.nextBytes := rfl
    rw [if_neg empty, found, Sink.write_eq, ← length]
    by_cases all : s.takes p.nextBytes.length = p.nextBytes.length
    · simp only [if_pos all]
    · simp only [if_neg all]

/-- What comes in view of a field is the field. -/
theorem Has.shows_ofRun {d : Descriptor} (h : p.Has d) {position : Int} {backing : Backing}
    (lies : match d.origin with
      | .blob offset => backing = .blob ∧ position = p.restorePosition offset
      | .constants start => backing = .constants ∧ position = start) :
    (FieldView.ofRun backing position d.length).Shows p.store (p.fieldBytes d) := by
  refine FieldView.Opened.shows_field (.run ..) h.turn ?_
  unfold fieldBytes
  cases origin : d.origin with
  | blob offset =>
    rw [origin] at lies
    obtain ⟨rfl, rfl⟩ := lies
    exact (folds_ring h.turn).getList ..
  | constants start =>
    rw [origin] at lies
    obtain ⟨rfl, rfl⟩ := lies
    obtain ⟨low, inside, short⟩ := h.inside _ origin
    dsimp only
    rw [constantBytes_eq low h.present inside short]
    exact (folds_buffer _).getList ..

theorem Present.openField_eq (h : p.Present) :
    (FieldView.openField p).1 = p.nextBytes.length ∧
      (FieldView.openField p).2.1.Shows (FieldView.openField p).2.2.store p.nextBytes := by
  have length := h.length_nextBytes
  unfold FieldView.openField
  dsimp only
  cases origin : p.takeDescriptor.1.origin with
  | blob offset =>
    have store : (p.takeDescriptor.2.locate offset p.takeDescriptor.1.length).2.store =
        p.takeDescriptor.2.store := by
      unfold locate
      dsimp only
      split <;> rfl
    refine ⟨length.symm, ?_⟩
    dsimp only
    rw [store, locate_fst]
    exact Has.shows_ofRun h (by rw [origin]; exact ⟨rfl, rfl⟩)
  | constants start => exact ⟨length.symm, Has.shows_ofRun h (by rw [origin]; exact ⟨rfl, rfl⟩)⟩

/-- All glimpses of a field that is there find its bytes. -/
theorem Present.finds (h : p.Present) : p.Finds p.nextBytes := by
  intro g
  cases g with
  | bytes => exact Has.readBytes_eq h
  | lowBytes => exact Has.readLowBytes_eq h
  | sink s => exact h.writeFieldTo_eq s
  | view fetches =>
    obtain ⟨length, shown⟩ := h.openField_eq
    exact Prod.ext length (shown.fetchAll_fst fetches)
  | sameBytes expected => exact Has.fieldEqualsBytes_eq h expected
  | sameText expected => exact Has.fieldEqualsText_eq h expected

/-- A reader that stands at the cells of such a descriptor has a field before it, unless the field is
absent. -/
theorem present_of_cells {d : Descriptor} (turn : (p.store.blob.size : Int) ∣ wordSpan)
    (cells : p.store.slab.Holds p.consumer.slabTail d.cells)
    (inside : d.Inside p.store.config.constants) (present : 0 ≤ p.takeDescriptor.1.length) :
    p.Present := by
  have taken : p.takeDescriptor.1 = d.readBack := takeDescriptor_of_cells cells
  have store : p.takeDescriptor.2.store = p.store := by
    rw [takeDescriptor_snd]
    rfl
  unfold Present
  rw [taken] at present ⊢
  refine ⟨by rwa [store], present, fun start constant => ?_⟩
  obtain ⟨short, bounds⟩ := d.readBack_bounds
  obtain ⟨low, high⟩ := bounds start constant
  have part := inside start constant
  rw [store]
  unfold maxInt at short
  unfold blobSpan at high
  unfold wordSpan
  omega

/-- A reader stands at the descriptor that was written between two states of a pipe, and its two cells
are still there. -/
structure StandsAt (r p q : Pipe) : Prop where
  apart : 2 ≤ p.store.slab.size
  cells : ∀ i < 2, r.store.slab.get (r.consumer.slabTail + (i : Nat)) =
    q.store.slab.get (p.producer.slabHead + (i : Nat))
  constants : r.store.config.constants = p.store.config.constants
  small : r.store.blob.bits ≤ maxBits

end Pipe

/-! ## Fields that were written -/

theorem Content.inside_of_sound {constants : Buffer} {c : Content} (sound : c.Sound constants)
    (position : Int) : (c.descriptor (position % blobSpan)).Inside constants := by
  cases c with
  | constant start count =>
    intro start' same
    have low : 0 ≤ position % blobSpan := Int.emod_nonneg _ (by decide)
    have high : position % blobSpan < blobSpan := Int.emod_lt_of_pos _ (by decide)
    have back : ((constant start count).descriptor (position % blobSpan)).readBack = _ :=
      ofCells_descriptor sound low high
    rw [back] at same ⊢
    obtain rfl := Origin.constants.inj same
    exact (sound.inside start count rfl).2
  | _ => exact Descriptor.inside_blob constants position _

namespace Pipe

variable {p q : Pipe}

/-- Between two states of a pipe a descriptor is stored behind the slab head. -/
def Describes (p q : Pipe) : Prop :=
  ∃ d : Descriptor, q.store.slab = p.store.slab.setList p.producer.slabHead d.cells ∧
    d.Inside p.store.config.constants

/-- What is committed is described, whatever was done to the blob before. -/
theorem describes_commitField (p : Pipe) (blob : Ring UInt8) (average length : Int) (isOpen : Bool) :
    p.Describes ({ p with
      store.blob := blob
      producer.average := average
      producer.fieldOpen := isOpen }.commitField length) := by
  rw [commitField_eq]
  exact ⟨_, rfl, Descriptor.inside_blob _ (p.producer.blobHead - p.producer.writeBase) length⟩

end Pipe

section Offers

variable {o : Offer} {p q r : Pipe} {x : Option FieldView}

theorem Content.describes {c : Content} (accepted : c.put p = (.ok (), q)) : p.Describes q := by
  have outcome := c.outcome p
  rw [accepted] at outcome
  cases outcome with
  | accepted allowed sound => exact ⟨_, rfl, inside_of_sound sound _⟩

/-- A field that is committed, whatever was done to the blob before. -/
def Pipe.Commits (p : Pipe) (length : Nat) (q : Pipe) : Prop :=
  ∃ blob average isOpen, q = { p with
    store.blob := blob
    producer.average := average
    producer.fieldOpen := isOpen }.commitField length

theorem Made.commits {m : Made} (accepted : m.put p = (.ok (), q)) : p.Commits m.length q := by
  have outcome := m.outcome p
  rw [accepted] at outcome
  cases outcome with
  | accepted => exact ⟨_, _, _, rfl⟩

theorem FieldWriter.commits_finish {w : FieldWriter} {n : Int} {chunks : List Chunk}
    (opened : p.openStream = (.ok w, r)) (finished : (w.writeAll chunks).finish = (.ok n, q)) :
    p.Commits (w.writeAll chunks).written q := by
  obtain ⟨bytes, written⟩ := ((opensOn_of_openStream opened).begun.writeAll chunks).grows
  obtain ⟨-, -, rfl⟩ := Pipe.finish_ok finished
  obtain ⟨rfl, rfl⟩ := Pipe.openStream_ok opened
  rw [written]
  exact ⟨_, _, false, rfl⟩

/-- The length of a field whose bytes are made, fetched or streamed. -/
def Offer.size (o : Offer) (p : Pipe) : Nat :=
  match o with
  | field _ => 0
  | intText value => (Made.intText value).length
  | longText value => (Made.longText value).length
  | decimalText places mantissa => (Made.decimalText places mantissa).length
  | copyInto v source limit => (Made.copied v source limit).length
  | copyWithin v limit => (Made.moved v limit).length
  | streamed chunks =>
    match p.openStream.1 with
    | .ok w => (w.writeAll chunks).written
    | .error _ => 0

/-- A field that is accepted is written like a content, or it is committed. -/
theorem Offer.written_or_commits (accepted : o.run p = (.ok (), x, q)) :
    (∃ c, o = .field c ∧ c.put p = (.ok (), q)) ∨
      (∀ c, o ≠ .field c) ∧ p.Commits (o.size p) q := by
  cases o with
  | streamed chunks =>
    cases opened : p.openStream with
    | mk answer r =>
      simp only [run, opened] at accepted
      cases answer with
      | error e => cases accepted
      | ok w =>
        obtain ⟨answer, rest⟩ := Prod.mk.inj accepted
        obtain ⟨-, rfl⟩ := Prod.mk.inj rest
        obtain ⟨n, finished, -⟩ := exists_of_map answer
        simp only [size, opened]
        exact .inr ⟨fun _ => Offer.noConfusion,
          FieldWriter.commits_finish opened (Prod.ext finished rfl)⟩
  | copyInto v source limit =>
    obtain ⟨answer, rest⟩ := Prod.mk.inj accepted
    obtain ⟨-, rfl⟩ := Prod.mk.inj rest
    exact .inr ⟨fun _ => Offer.noConfusion,
      (Made.copied v source limit).commits (Prod.ext answer rfl)⟩
  | copyWithin v limit =>
    obtain ⟨answer, rest⟩ := Prod.mk.inj accepted
    obtain ⟨-, rfl⟩ := Prod.mk.inj rest
    exact .inr ⟨fun _ => Offer.noConfusion,
      (Made.moved v limit).commits (Prod.ext answer rfl)⟩
  | field c =>
    obtain ⟨answer, rest⟩ := Prod.mk.inj accepted
    obtain ⟨-, rfl⟩ := Prod.mk.inj rest
    exact .inl ⟨c, rfl, Prod.ext answer rfl⟩
  | intText value =>
    obtain ⟨answer, rest⟩ := Prod.mk.inj accepted
    obtain ⟨-, rfl⟩ := Prod.mk.inj rest
    exact .inr ⟨fun _ => Offer.noConfusion,
      (Made.intText value).commits (Prod.ext answer rfl)⟩
  | longText value =>
    obtain ⟨answer, rest⟩ := Prod.mk.inj accepted
    obtain ⟨-, rfl⟩ := Prod.mk.inj rest
    exact .inr ⟨fun _ => Offer.noConfusion,
      (Made.longText value).commits (Prod.ext answer rfl)⟩
  | decimalText places mantissa =>
    obtain ⟨answer, rest⟩ := Prod.mk.inj accepted
    obtain ⟨-, rfl⟩ := Prod.mk.inj rest
    exact .inr ⟨fun _ => Offer.noConfusion,
      (Made.decimalText places mantissa).commits (Prod.ext answer rfl)⟩

/-- Every field that is accepted is described. -/
theorem Offer.describes (accepted : o.run p = (.ok (), x, q)) : p.Describes q := by
  obtain ⟨c, -, written⟩ | ⟨-, committed⟩ := o.written_or_commits accepted
  · exact c.describes written
  · obtain ⟨blob, average, isOpen, rfl⟩ := committed
    exact p.describes_commitField blob average _ isOpen

end Offers

/-- A reader that stands at a field that was written, which is not absent, has it before it. -/
theorem Pipe.StandsAt.present {p q r : Pipe} (stands : r.StandsAt p q) (described : p.Describes q)
    (length : 0 ≤ r.takeDescriptor.1.length) : r.Present := by
  obtain ⟨d, slab, inside⟩ := described
  have held : q.store.slab.Holds p.producer.slabHead d.cells := by
    rw [slab]
    exact Ring.holds_setList _ _ _ stands.apart
  have cells : r.store.slab.Holds r.consumer.slabTail d.cells := fun i inside =>
    (stands.cells i inside).trans (held i inside)
  have turn : (r.store.blob.size : Int) ∣ wordSpan :=
    Int.dvd_trans (Ring.size_dvd_blobSpan stands.small) (by decide)
  rw [← stands.constants] at inside
  exact present_of_cells turn cells inside length

/-! ## Fields in a run -/

namespace Session

/-- Some run of a pipe leads to the session. -/
def Reached (s : Session) : Prop :=
  ∃ (registry : Registry) (config : Config) (slab blob : Int) (p : Pipe),
    registry.open? config slab blob = some p ∧ Reaches anyCall (Session.start p) s

/-- The field that the reader stands at, and the fields before it in its fragment. -/
def ahead? (s : Session) : Option (List Entry × Content) :=
  match s.reading, s.next? with
  | some c, some w =>
    match w.entries[c.fields.length]? with
    | some (.content x) => some (w.entries.take c.fields.length, x)
    | _ => none
  | _, _ => none

/-- In a run, the reader stands at a field behind other fields of its fragment. -/
structure Meets (s : Session) (before : List Entry) (c : Content) : Prop where
  reached : s.Reached
  field : s.ahead? = some (before, c)

/-- Where the bytes of a field behind other fields of a fragment begin, counted without end. -/
def place (s : Session) (k : Nat) (before : List Entry) : Int :=
  s.blobAt k + ((before.map Entry.taken).sum : Nat)

variable {s : Session} {before : List Entry} {c : Content}

theorem Reached.recorded (h : s.Reached) : s.Recorded := by
  obtain ⟨registry, config, slab, blob, p, opened, run⟩ := h
  exact recorded_of_reaches (recorded_of_open? opened) run

/-- A field of bytes lies at its place as soon as it is written. -/
theorem Reached.holds {q : Pipe} {d : Draft} {data : List UInt8} (h : s.Reached)
    (draft : s.draft = some d) (written : (Content.bytes data).put s.pipe = (.ok (), q))
    (fits : data.length ≤ s.pipe.store.blob.size) :
    q.store.blob.Holds (s.place s.written.length d.content.entries) data := by
  have head := h.recorded.head_emod
  rw [current_of_draft draft] at head
  obtain ⟨-, rfl⟩ := Entry.put_ok (e := .content (.bytes data)) written
  have held := s.pipe.store.blob.holds_setList s.pipe.producer.blobHead data fits
  refine held.congr ?_
  rw [Ring.size_setList]
  exact head

/-- The cells that the reader stands at are those that were written for the field. -/
theorem Meets.cells (h : s.Meets before c) :
    s.pipe.store.slab.Holds s.pipe.consumer.slabTail
        (c.descriptor (((before.map Entry.taken).sum : Nat) % blobSpan)).cells ∧
      c.Sound s.pipe.store.config.constants := by
  have recorded := h.reached.recorded
  have field := h.field
  unfold ahead? at field
  split at field
  · next reading w reads next =>
    split at field
    · next entry =>
      cases field
      exact ⟨recorded.cells_of_reading reads next entry,
        recorded.sound.written w (List.mem_of_getElem? next) _ (List.mem_of_getElem? entry)⟩
    · cases field
  · cases field

theorem Meets.takeDescriptor_fst (h : s.Meets before c) :
    s.pipe.takeDescriptor.1 = c.descriptor (((before.map Entry.taken).sum : Nat) % blobSpan) := by
  obtain ⟨cells, sound⟩ := h.cells
  rw [Pipe.takeDescriptor_of_cells cells]
  exact Content.ofCells_descriptor sound (Int.emod_nonneg _ (by decide))
    (Int.emod_lt_of_pos _ (by decide))

theorem Meets.present (h : s.Meets before c) (length : 0 ≤ c.length) : s.pipe.Present := by
  obtain ⟨cells, sound⟩ := h.cells
  have turn := Int.dvd_trans h.reached.recorded.turn (by decide : blobSpan ∣ wordSpan)
  refine Pipe.present_of_cells turn cells (Content.inside_of_sound sound _) ?_
  rw [h.takeDescriptor_fst]
  exact length

/-- The bytes of a field are found at its place. -/
theorem Meets.nextBytes_eq {data : List UInt8} (h : s.Meets before (.bytes data))
    (fits : data.length ≤ s.pipe.store.blob.size)
    (held : s.pipe.store.blob.Holds (s.place s.received.length before) data) :
    s.pipe.nextBytes = data := by
  have recorded := h.reached.recorded
  have small := s.pipe.store.config.blobSize_le
  have size := recorded.size
  have bound : (1 <<< maxBits) < 0x7FFFFFFF := by decide
  have length : (Content.bytes data).length = data.length := by
    refine Int.min_eq_left ?_
    unfold Pipe.maxInt
    omega
  have spot : s.pipe.restorePosition ((((before.map Entry.taken).sum : Nat) : Int) % blobSpan) %
      (s.pipe.store.blob.size : Int) =
        s.place s.received.length before % (s.pipe.store.blob.size : Int) := by
    rw [Pipe.restorePosition_emod _ recorded.turn, Int.add_emod,
      Int.emod_emod_of_dvd _ recorded.turn, recorded.base, ← Int.add_emod, place]
  rw [Pipe.nextBytes, h.takeDescriptor_fst, Pipe.takeDescriptor_snd]
  show ByteStore.getList s.pipe.store.blob (s.pipe.restorePosition _) _ = data
  have count : ((Content.bytes data).descriptor
      (((before.map Entry.taken).sum : Nat) % blobSpan)).size = data.length := by
    show (Content.bytes data).length.toNat = _
    rw [length, Int.toNat_natCast]
  rw [count, Ring.getList_congr spot]
  exact Ring.getList_eq_of_holds held

end Session

/-- All ways to look at a field find the same bytes in it. A field that is accepted, in whichever way
it is offered, and that is not absent: a reader that stands at its cells finds as many bytes as the
descriptor tells; so does the reader in any run, at any field that was written. A field of bytes lies
in the blob as it is written, and where it still does so, its own bytes are found; of a reference to
the constants, the bytes it refers to; so that the two are not to be told from each other if these
are the same. Comparing a field leaves the reader behind its cells, and neither the bytes that are read
nor those that go into a sink depend on the slices they come in. -/
theorem glimpses_agree :
    (∀ {o : Offer} {p q r : Pipe} {x : Option FieldView}, o.run p = (.ok (), x, q) →
      r.StandsAt p q → 0 ≤ r.takeDescriptor.1.length →
        ∃ found : List UInt8, (found.length : Int) = r.takeDescriptor.1.length ∧ r.Finds found) ∧
    (∀ {s : Session} {before : List Entry} {c : Content}, s.Meets before c → 0 ≤ c.length →
      ∃ found : List UInt8, (found.length : Int) = c.length ∧ s.pipe.Finds found) ∧
    (∀ {s : Session} {d : Draft} {data : List UInt8} {q : Pipe}, s.Reached → s.draft = some d →
      (Content.bytes data).put s.pipe = (.ok (), q) → data.length ≤ s.pipe.store.blob.size →
        q.store.blob.Holds (s.place s.written.length d.content.entries) data) ∧
    (∀ {s : Session} {before : List Entry} {data : List UInt8}, s.Meets before (.bytes data) →
      data.length ≤ s.pipe.store.blob.size →
      s.pipe.store.blob.Holds (s.place s.received.length before) data →
        s.pipe.Finds data ∧
        ∀ {t : Session} {others : List Entry} {start count : Int32},
          t.Meets others (.constant start count) → count.toInt = data.length →
          (t.pipe.constantBytes start.toInt count.toInt).toList = data →
            t.pipe.Finds data ∧ ∀ g : Glimpse, (g.look s.pipe).1 = (g.look t.pipe).1) ∧
    (∀ (p : Pipe) (bytes : List UInt8) (text : String),
      ((Glimpse.sameBytes bytes).look p).2 = p.passCells 2 ∧
        ((Glimpse.sameText text).look p).2 = p.passCells 2) ∧
    (∀ {p : Pipe} {most : Nat}, p.store.blob.bits ≤ maxBits → 0 < most →
      (∀ d : Descriptor, p.readBytesBy most d = p.readBytes d) ∧
        ∀ s : Sink, p.writeFieldToBy most s = p.writeFieldTo s) := by
  refine ⟨?_, ?_, ?_, ?_, ?_, ?_⟩
  · intro o p q r x accepted stands length
    have present := stands.present (Offer.describes accepted) length
    exact ⟨r.nextBytes, present.length_nextBytes, present.finds⟩
  · intro s before c meets length
    have present := meets.present length
    have told := present.length_nextBytes
    rw [meets.takeDescriptor_fst] at told
    exact ⟨s.pipe.nextBytes, told, present.finds⟩
  · intro s d data q reached draft written fits
    exact reached.holds draft written fits
  · intro s before data meets fits held
    have found := meets.nextBytes_eq fits held
    have finds := (meets.present (Int.le_min.mpr ⟨Int.natCast_nonneg _, by decide⟩)).finds
    rw [found] at finds
    refine ⟨finds, ?_⟩
    intro t others start count meets' length same
    have found' : t.pipe.nextBytes = data := by
      rw [Pipe.nextBytes, meets'.takeDescriptor_fst, Pipe.takeDescriptor_snd]
      exact same
    have present : 0 ≤ count.toInt := by omega
    have finds' := (meets'.present present).finds
    rw [found'] at finds'
    exact ⟨finds', fun g => (finds g).trans (finds' g).symm⟩
  · intro p bytes text
    exact ⟨p.takeDescriptor_snd, p.takeDescriptor_snd⟩
  · intro p most small positive
    have turn : (p.store.blob.size : Int) ∣ wordSpan :=
      Int.dvd_trans (Ring.size_dvd_blobSpan small) (by decide)
    exact ⟨Pipe.readBytesBy_eq turn positive, Pipe.writeFieldToBy_eq turn positive⟩

namespace Content

/-- Whether the field is one of these bytes. -/
def isBytes (data : List UInt8) : Content → Bool
  | bytes data' => data' = data
  | _ => false

/-- Whether the field is this reference to the constants. -/
def isConstant (start count : Int32) : Content → Bool
  | constant start' count' => start' = start ∧ count' = count
  | _ => false

theorem eq_of_isBytes {data : List UInt8} {c : Content} (same : c.isBytes data = true) :
    c = bytes data := by
  cases c with
  | bytes data' => exact congrArg bytes (of_decide_eq_true same)
  | _ => cases same

theorem eq_of_isConstant {start count : Int32} {c : Content}
    (same : c.isConstant start count = true) : c = constant start count := by
  cases c with
  | constant start' count' =>
    obtain ⟨rfl, rfl⟩ := of_decide_eq_true same
    rfl
  | _ => cases same

end Content

/-- The pipe of the sample with four bytes of constants. -/
def constantsPipe : Pipe :=
  .start ((Store.empty 0 { sampleConfig with constants := #[9, 1, 2, 3] } false).moveTo 3 30)

/-- A message with three bytes and one that refers to the constants; the reader is at the bytes. -/
def constantsSample : List Action :=
  writeSample (some 1) [1, 2, 3] ++
    [.begin .waiting 0, .put (.entry (.scalar (.optionalInt none))),
      .put (.entry (.content (.constant 1 3))), .confirm, .publish, .receive, .take .optionalInt]

/-- Three bytes around the end of the blob are found like the same bytes among the constants, and so
is a number that was written as text. -/
theorem glimpses_agree_sample :
    (∃ s t, play anyCall (Session.start constantsPipe) constantsSample = some s ∧
      play anyCall s [.take .bytes, .pass, .release, .receive, .take .optionalInt] = some t ∧
      s.pipe.Finds [1, 2, 3] ∧ t.pipe.Finds [1, 2, 3] ∧
      ∀ g : Glimpse, (g.look s.pipe).1 = (g.look t.pipe).1) ∧
    ∃ x q, (Offer.decimalText 1 7).run constantsPipe = (.ok (), x, q) ∧
      ∃ found : List UInt8, found.length = 3 ∧
        { q with consumer.slabTail := constantsPipe.producer.slabHead }.Finds found := by
  obtain ⟨offers, -, -, fields, -⟩ := @glimpses_agree
  constructor
  · have evaluated : (play anyCall (Session.start constantsPipe) constantsSample).any fun s =>
        (play anyCall s [.take .bytes, .pass, .release, .receive, .take .optionalInt]).any fun t =>
          s.ahead?.any fun a => t.ahead?.any fun b =>
            a.2.isBytes [1, 2, 3] ∧ b.2.isConstant 1 3 ∧ s.pipe.store.blob.size = 32 ∧
              ByteStore.getList s.pipe.store.blob (s.place s.received.length a.1) 3 = [1, 2, 3] ∧
              (t.pipe.constantBytes 1 3).toList = [1, 2, 3] := by decide +kernel
    obtain ⟨s, played, checked⟩ := (Option.any_eq_true ..).mp evaluated
    obtain ⟨t, later, checked⟩ := (Option.any_eq_true ..).mp checked
    obtain ⟨⟨before, x⟩, met, checked⟩ := (Option.any_eq_true ..).mp checked
    obtain ⟨⟨others, y⟩, met', checked⟩ := (Option.any_eq_true ..).mp checked
    obtain ⟨first, second, size, lies, same⟩ := of_decide_eq_true checked
    obtain rfl := Content.eq_of_isBytes first
    obtain rfl := Content.eq_of_isConstant second
    have opened : Registry.empty.open? { sampleConfig with constants := #[9, 1, 2, 3] } 3 30 =
        some constantsPipe := rfl
    have run := Reaches.of_play played
    have meets : s.Meets before (.bytes [1, 2, 3]) := ⟨⟨_, _, _, _, _, opened, run⟩, met⟩
    have meets' : t.Meets others (.constant 1 3) :=
      ⟨⟨_, _, _, _, _, opened, run.trans (.of_play later)⟩, met'⟩
    have held := s.pipe.store.blob.holds_getList (s.place s.received.length before) 3
    rw [lies] at held
    obtain ⟨found, constants⟩ := fields meets (by rw [size]; decide) held
    obtain ⟨found', alike⟩ := constants meets' rfl same
    exact ⟨s, t, played, later, found, found', alike⟩
  · have evaluated : ((Offer.decimalText 1 7).run constantsPipe).1.isOk = true ∧
        2 ≤ constantsPipe.store.slab.size ∧
        ((Offer.decimalText 1 7).run constantsPipe).2.2.store.config.constants =
          constantsPipe.store.config.constants ∧
        ((Offer.decimalText 1 7).run constantsPipe).2.2.store.blob.bits ≤ maxBits ∧
        { ((Offer.decimalText 1 7).run constantsPipe).2.2 with
          consumer.slabTail := constantsPipe.producer.slabHead }.takeDescriptor.1.length = 3 := by
      decide +kernel
    cases result : (Offer.decimalText 1 7).run constantsPipe with
    | mk answer rest =>
      obtain ⟨x, q⟩ := rest
      rw [result] at evaluated
      obtain ⟨fine, apart, constants, small, length⟩ := evaluated
      cases answer with
      | error e => cases fine
      | ok a =>
        have stands : ({ q with consumer.slabTail := constantsPipe.producer.slabHead } : Pipe).StandsAt
            constantsPipe q := ⟨apart, fun _ _ => rfl, constants, small⟩
        have present : ({ q with
            consumer.slabTail := constantsPipe.producer.slabHead } : Pipe).takeDescriptor.1.length =
              3 := length
        obtain ⟨found, told, finds⟩ := offers result stands (by omega)
        exact ⟨x, q, rfl, found, by omega, finds⟩

end FragmentPipe
