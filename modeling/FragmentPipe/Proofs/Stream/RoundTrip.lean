import FragmentPipe.Proofs.Transfer.Batching
import FragmentPipe.Proofs.Transfer.Fifo

/-!
Streamed fields through a pipe. A field is written value by value behind the blob head while the
reader goes on; it ends up in its fragment like a field of bytes. `Session.Carries` says that a
fragment has the field and that the blob has its bytes until the fragment is given back. Main
statements: `Session.view_of_stream`, for values of any kind the reader has their bytes in view, and
`stream_round_trip`, what is read there of items are the items that were written.
-/

namespace FragmentPipe

/-! ## Streaming -/

/-- A call while a field of values is streamed: the writer writes one, or the reader makes a call. -/
inductive StreamCall (α : Type) where
  | write (item : α)
  | read (a : Action)

/-- The values that are written. -/
def StreamCall.items {α : Type} : List (StreamCall α) → List α
  | [] => []
  | .write item :: rest => item :: items rest
  | .read _ :: rest => items rest

/-- Whether it is the reader that makes the call. -/
def Action.reads : Action → Bool
  | .look | .receive | .take _ | .pass | .release | .flushReleased | .releaseToHere => true
  | .askRoom _ | .begin _ _ | .nest _ | .put _ | .confirm | .publish | .flush | .abandon
  | .finish => false

/-- Whether the call gives up what is not published. -/
def Action.abandons : Action → Bool
  | .abandon => true
  | _ => false

namespace Session

/-- Makes calls while a field is streamed, as long as the protocol allows them and every value is
written. -/
def stream {α : Type} (write : FieldWriter → α → Except StreamError Unit × FieldWriter)
    (s : Session) (w : FieldWriter) : List (StreamCall α) → Option (Session × FieldWriter)
  | [] => some (s, w)
  | .write item :: rest =>
    match write w item with
    | (.ok _, w) => { s with pipe := w.pipe }.stream write w rest
    | (.error _, _) => none
  | .read a :: rest =>
    if a.reads then (s.step a).bind fun t => t.stream write { w with pipe := t.pipe } rest else none

/-- The session after a field of these bytes that was streamed to its end. -/
def endStream (s : Session) (d : Draft) (data : List UInt8) (p : Pipe) : Session :=
  { s with
    pipe := p
    draft := some { d with content := d.content.add (.content (.bytes data)) } }

/-- The session after the next field is taken in view. -/
def viewNext (s : Session) (c : Reading) : Session :=
  { s.takeNext c .bytes with pipe := (FieldView.openField s.pipe).2.2 }

/-- What a blob has at the places of the unreleased bytes. -/
def unreleasedIn (s : Session) (blob : Ring UInt8) : List UInt8 :=
  ByteStore.getList blob (s.blobAt s.released)
    (s.blobAt s.written.length + s.current.taken - s.blobAt s.released).toNat

end Session

/-- No unreleased byte is overwritten. -/
def untouched (s : Session) (a : Action) : Prop :=
  ∀ t ∈ s.step a, s.unreleasedIn t.pipe.store.blob = s.unreleasedIn s.pipe.store.blob

/-- No unreleased byte is overwritten, and the fragment `k` is not given up. -/
def carrying (k : Nat) (s : Session) (a : Action) : Prop :=
  untouched s a ∧ (a.abandons = true → k < s.published)

instance (s : Session) (a : Action) : Decidable (untouched s a) :=
  inferInstanceAs (Decidable (∀ t ∈ s.step a, _))

instance (k : Nat) (s : Session) (a : Action) : Decidable (carrying k s a) :=
  inferInstanceAs (Decidable (_ ∧ _))

theorem Ring.setList_of_holds {α : Type} {r : Ring α} {p : Int} {l : List α} (h : r.Holds p l) :
    r.setList p l = r := by
  induction l generalizing p with
  | nil => rfl
  | cons a l ih =>
    obtain ⟨first, rest⟩ := Ring.holds_cons.mp h
    have same : r.set p a = r := by
      rw [← first]
      simp only [Ring.set, Ring.get, Array.set_getElem_self]
    rw [Ring.setList, same, ih rest]

/-- Runs that are the same have the same bytes. -/
theorem Ring.get_eq_of_getList {r r' : Ring UInt8} {p q : Int} {count : Nat}
    (same : ByteStore.getList r p count = ByteStore.getList r' p count) (low : p ≤ q)
    (high : q < p + count) : r.get q = r'.get q := by
  obtain ⟨i, rfl⟩ := Int.le.dest low
  have inside : i < count := by omega
  have byte : ByteStore.get r (p + i) = ByteStore.get r' (p + i) := by
    simpa [ByteStore.getList, inside] using congrArg (·[i]?) same
  exact byte

namespace Session

variable {s t u : Session} {w v : FieldWriter} {d : Draft} {data : List UInt8} {a : Action}
  {α : Type} {put : FieldWriter → α → Except StreamError Unit × FieldWriter}
  {encoded : α → List UInt8}

/-! ### While the field is open -/

/-- What matters to a stream and is left alone by the reader. -/
structure Aside (s t : Session) : Prop where
  blob : t.pipe.store.blob = s.pipe.store.blob
  blobHead : t.pipe.producer.blobHead = s.pipe.producer.blobHead
  written : t.written = s.written
  draft : t.draft = s.draft

theorem Change.aside (change : s.Change a t) (reads : a.reads = true) : s.Aside t := by
  rcases change with writes | reads'
  · cases writes with
    | asked => exact ⟨rfl, rfl, rfl, rfl⟩
    | _ => cases reads
  · have side := reads'.sameWriter
    exact ⟨side.blob, congrArg _ side.producer, side.written, side.draft⟩

/-- What is recorded does not depend on the bytes of the blob, nor on a field being open. -/
theorem Recorded.of_blob {blob : Ring UInt8} {isOpen : Bool} (h : s.Recorded)
    (size : blob.size = s.pipe.store.blob.size) :
    { s with
      pipe := { s.pipe with store.blob := blob, producer.fieldOpen := isOpen } }.Recorded := by
  obtain ⟨⟨writer, reader⟩, place, records, sound, base, whole⟩ := h
  refine ⟨⟨{ writer with }, { reader with }⟩, { place with }, { records with }, { sound with },
    ?_, size.trans whole⟩
  unfold BaseAt at base ⊢
  rw [← size] at base
  exact base

/-- A field is being streamed: what is written of it lies behind the blob head, and there is less of
it than the blob has room for. -/
structure Streaming (s : Session) (w : FieldWriter) (data : List UInt8) : Prop where
  recorded : s.Recorded
  pipe : w.pipe = s.pipe
  start : w.start = s.pipe.producer.blobHead
  written : w.written = data.length
  inside : w.written ≤ w.room
  room : w.room < s.pipe.store.blob.size
  data : s.pipe.store.blob.Holds w.start data

theorem Recorded.streaming {q : Pipe} (h : s.Recorded) (opened : s.pipe.openStream = (.ok w, q)) :
    { s with pipe := q }.Streaming w [] := by
  obtain ⟨rfl, rfl⟩ := Pipe.openStream_ok opened
  have positive := s.pipe.store.blob.size_pos
  refine ⟨h.of_blob rfl, rfl, rfl, rfl, Nat.zero_le _, ?_, Ring.holds_nil _ _⟩
  show s.pipe.store.blob.size - _ < s.pipe.store.blob.size
  omega

theorem Streaming.write {item : α} (st : s.Streaming w data)
    (stores : FieldWriter.Stores put encoded) (written : put w item = (.ok (), v)) :
    { s with pipe := v.pipe }.Streaming v (data ++ encoded item) := by
  obtain ⟨recorded, pipe, start, length, inside, room, held⟩ := st
  obtain ⟨fits, rfl⟩ := stores written
  unfold FieldWriter.remaining at fits
  have size := w.pipe.store.blob.size_setList (w.start + w.written) (encoded item)
  rw [← pipe] at room held
  refine ⟨?_, rfl, ?_, ?_, ?_, ?_, ?_⟩
  · show { s with pipe := { w.pipe with store.blob := _ } }.Recorded
    rw [pipe] at size ⊢
    exact recorded.of_blob size
  · show w.start = w.pipe.producer.blobHead
    rw [start, pipe]
  · rw [List.length_append, ← length]
    rfl
  · show w.written + (encoded item).length ≤ w.room
    omega
  · show w.room < Ring.size (Ring.setList _ _ _)
    rw [size]
    exact room
  · show Ring.Holds (Ring.setList _ _ _) w.start _
    rw [length]
    exact held.setList_append (by omega)

theorem Streaming.read (st : s.Streaming w data) (change : s.Change a t)
    (reads : a.reads = true) : t.Streaming { w with pipe := t.pipe } data := by
  obtain ⟨recorded, pipe, start, length, inside, room, held⟩ := st
  have aside := change.aside reads
  refine ⟨recorded.change change, rfl, start.trans aside.blobHead.symm, length, inside, ?_, ?_⟩
  · rw [aside.blob]
    exact room
  · rw [aside.blob]
    exact held

/-- A run of calls while the field is open adds the bytes of the values to it. -/
theorem Streaming.stream {calls : List (StreamCall α)} (st : s.Streaming w data)
    (stores : FieldWriter.Stores put encoded)
    (streamed : s.stream put w calls = some (t, v)) :
    t.Streaming v (data ++ (StreamCall.items calls).flatMap encoded) ∧
      t.written = s.written ∧ t.draft = s.draft := by
  induction calls generalizing s w data with
  | nil =>
    cases streamed
    refine ⟨?_, rfl, rfl⟩
    rwa [StreamCall.items, List.flatMap_nil, List.append_nil]
  | cons call rest ih =>
    cases call with
    | write item =>
      rw [Session.stream] at streamed
      split at streamed
      · next u x written =>
        obtain ⟨after, fragments, draft⟩ := ih (st.write stores written) streamed
        rw [List.append_assoc] at after
        exact ⟨after, fragments, draft⟩
      · cases streamed
    | read a =>
      rw [Session.stream] at streamed
      split at streamed
      · next reads =>
        obtain ⟨x, call, later⟩ := Option.bind_eq_some_iff.mp streamed
        have change := change_of_step call
        have aside := change.aside reads
        obtain ⟨after, fragments, draft⟩ := ih (st.read change reads) later
        exact ⟨after, fragments.trans aside.written, draft.trans aside.draft⟩
      · cases streamed

/-- Each of the values was written. -/
theorem written_of_stream {calls : List (StreamCall α)}
    (streamed : s.stream put w calls = some (t, v)) :
    ∀ item ∈ StreamCall.items calls, ∃ x y, put x item = (.ok (), y) := by
  induction calls generalizing s w with
  | nil => nofun
  | cons call rest ih =>
    cases call with
    | write item =>
      rw [Session.stream] at streamed
      split at streamed
      · next written => exact List.forall_mem_cons.mpr ⟨⟨_, _, written⟩, ih streamed⟩
      · cases streamed
    | read a =>
      rw [Session.stream] at streamed
      split at streamed
      · obtain ⟨x, -, later⟩ := Option.bind_eq_some_iff.mp streamed
        exact ih later
      · cases streamed

/-- A finished stream leaves the pipe as a field of its bytes does, written where they already
lie. -/
theorem Streaming.putBytes_eq {n : Int} {p : Pipe} (st : s.Streaming w data)
    (finished : w.finish = (.ok n, p)) :
    n = data.length ∧
      { s.pipe with producer.fieldOpen := false }.putBytes data = (.ok (), p) := by
  obtain ⟨recorded, pipe, start, length, inside, room, held⟩ := st
  obtain ⟨rfl, allowed, rfl⟩ := Pipe.finish_ok finished
  have small := s.pipe.store.config.blobSize_le
  have bound : (1 <<< maxBits) < 0x7FFFFFFF := by decide
  have size := recorded.size
  have told : Pipe.fieldLength data.length = data.length := by
    unfold Pipe.fieldLength Pipe.maxInt
    omega
  rw [pipe, length] at allowed
  rw [start] at held
  refine ⟨congrArg _ length, ?_⟩
  have checked : { s.pipe with producer.fieldOpen := false }.checkLength data.length =
      (.ok (), { s.pipe with
        producer.average := s.pipe.nextAverage data.length
        producer.fieldOpen := false }) := Pipe.checkLength_of_le allowed
  simp only [Pipe.putBytes, told, Pipe.putField, checked, Ring.putList_eq_setList,
    Ring.setList_of_holds held, pipe, length]

/-! ## Fragments that have the field -/

/-- The fragments that are written, the open one last. -/
def fragments (s : Session) : List Written := s.written ++ (s.draft.map Draft.content).toList

/-- Fragment `k` has a field of bytes behind other fields, and as long as it is not given back the
bytes lie at their place. -/
structure Carries (s : Session) (k : Nat) (before : List Entry) (data : List UInt8) (place : Int) :
    Prop where
  recorded : s.Recorded
  field : ∃ w rest, s.fragments[k]? = some w ∧
    w.entries = before ++ .content (.bytes data) :: rest
  short : data.length ≤ 1 <<< maxBits
  lies : s.blobAt k + ((before.map Entry.taken).sum : Nat) = place
  data : s.released ≤ k → s.pipe.store.blob.Holds place data

variable {k : Nat} {before : List Entry} {place : Int}

theorem fragments_of_draft (draft : s.draft = some d) : s.fragments = s.written ++ [d.content] := by
  rw [fragments, draft]
  rfl

theorem fragments_of_idle (idle : s.draft = none) : s.fragments = s.written := by
  rw [fragments, idle]
  exact List.append_nil _

/-- A stream that is finished is carried by its fragment. -/
theorem Streaming.carries {n : Int} {p : Pipe} (st : s.Streaming w data)
    (draft : s.draft = some d)
    (unconfirmed : d.confirmed = false) (space : d.content.filled + 2 < d.fragment.size)
    (finished : w.finish = (.ok n, p)) :
    (s.endStream d data p).Carries s.written.length d.content.entries data
      (s.blobAt s.written.length + d.content.taken) := by
  obtain ⟨-, put⟩ := st.putBytes_eq finished
  have ready : { s with pipe := { s.pipe with producer.fieldOpen := false } }.Recorded :=
    st.recorded.of_blob rfl
  have change := change_of_put (s := { s with pipe := { s.pipe with producer.fieldOpen := false } })
    (w := .entry (.content (.bytes data))) draft trivial rfl unconfirmed space
  have written : (Stroke.entry (.content (.bytes data))).run
      { s.pipe with producer.fieldOpen := false } = (.ok (), p) := put
  rw [putField, written] at change
  have small := s.pipe.store.config.blobSize_le
  have size := st.recorded.size
  have length := st.written
  have inside := st.inside
  have room := st.room
  have head := st.recorded.head_emod
  rw [current_of_draft draft] at head
  have blob : p.store.blob = s.pipe.store.blob := by
    obtain ⟨-, -, rfl⟩ := Pipe.finish_ok finished
    show w.pipe.store.blob = _
    rw [st.pipe]
  refine ⟨ready.change (.inl change), ⟨d.content.add (.content (.bytes data)), [], ?_, rfl⟩, by omega,
    rfl, ?_⟩
  · show (s.written ++ [_])[s.written.length]? = _
    exact List.getElem?_concat_length
  · intro _
    have held := st.data
    rw [st.start] at held
    show p.store.blob.Holds _ _
    rw [blob]
    exact held.congr head

theorem Carries.length_le (y : s.Carries k before data place) : k ≤ s.written.length := by
  obtain ⟨w, rest, found, -⟩ := y.field
  obtain ⟨inside, -⟩ := List.getElem?_eq_some_iff.mp found
  rw [fragments, List.length_append] at inside
  have one : (s.draft.map Draft.content).toList.length ≤ 1 := by
    cases s.draft <;> simp
  omega

/-- The bytes of the field are among those that are not given back. -/
theorem Carries.within (y : s.Carries k before data place) :
    s.blobAt k ≤ place ∧
      place + data.length ≤ s.blobAt s.written.length + s.current.taken := by
  obtain ⟨w, rest, found, entries⟩ := y.field
  have lies := y.lies
  have short := Entry.taken_eq (e := .content (.bytes data)) y.short
  have whole : w.taken = (before.map Entry.taken).sum + (data.length +
      (rest.map Entry.taken).sum) := by
    rw [Written.taken, entries, List.map_append, List.sum_append, List.map_cons, List.sum_cons,
      short]
    rfl
  refine ⟨by omega, ?_⟩
  rcases Nat.lt_or_eq_of_le y.length_le with finished | rfl
  · rw [fragments, List.getElem?_append_left finished] at found
    have ends := blobAt_succ found
    have later : s.blobAt (k + 1) ≤ s.blobAt s.written.length := s.blobAt_mono finished
    omega
  · cases draft : s.draft with
    | none =>
      rw [fragments_of_idle draft] at found
      obtain ⟨inside, -⟩ := List.getElem?_eq_some_iff.mp found
      omega
    | some d =>
      rw [fragments_of_draft draft, List.getElem?_concat_length] at found
      cases found
      rw [current_of_draft draft]
      omega

theorem getElem?_fragments_of_lt (inside : k < s.written.length) :
    s.fragments[k]? = s.written[k]? := List.getElem?_append_left inside

/-- The fragment goes on in another session: it may have more fields, and the ones before it are the
same. -/
def GoesOn (s t : Session) (k : Nat) : Prop :=
  t.written.take k = s.written.take k ∧ ∀ w, s.fragments[k]? = some w →
    ∃ x more, t.fragments[k]? = some x ∧ x.entries = w.entries ++ more

theorem goesOn_of_eq (same : t.fragments = s.fragments)
    (front : t.written.take k = s.written.take k) : s.GoesOn t k :=
  ⟨front, fun w found => ⟨w, [], same ▸ found, (List.append_nil _).symm⟩⟩

/-- A finished fragment goes on in every session that has it. -/
theorem goesOn_of_take (inside : k < s.written.length)
    (front : t.written.take (k + 1) = s.written.take (k + 1)) : s.GoesOn t k := by
  refine ⟨take_eq_of_take front (Nat.le_succ k), ?_⟩
  intro w found
  rw [getElem?_fragments_of_lt inside, ← getElem?_eq_of_take front (Nat.lt_succ_self k)] at found
  have inside' := (List.getElem?_eq_some_iff.mp found).1
  exact ⟨w, [], (getElem?_fragments_of_lt inside').trans found, (List.append_nil _).symm⟩

/-- No call of the writer takes a field from a fragment, unless it gives the fragment up. -/
theorem WriterChange.goesOn (change : s.WriterChange a t) (started : k < s.fragments.length)
    (kept : a.abandons = true → k < s.published) (visible : s.published ≤ s.written.length) :
    s.GoesOn t k := by
  cases change with
  | asked => exact goesOn_of_eq rfl rfl
  | begun idle =>
    rw [fragments_of_idle idle] at started
    exact goesOn_of_take started rfl
  | nested idle =>
    rw [fragments_of_idle idle] at started
    exact goesOn_of_take started rfl
  | @put w e d blob isOpen draft =>
    refine ⟨rfl, ?_⟩
    intro w found
    rw [fragments_of_draft draft] at found
    rcases getElem?_append_singleton found with ⟨inside, before⟩ | ⟨rfl, rfl⟩
    · exact ⟨w, [], (List.getElem?_append_left inside).trans before, (List.append_nil _).symm⟩
    · exact ⟨d.content.add e, [e], List.getElem?_concat_length, rfl⟩
  | aside => exact goesOn_of_eq rfl rfl
  | confirmed draft =>
    refine goesOn_of_eq ?_ rfl
    rw [fragments_of_draft draft]
    rfl
  | @published d draft =>
    rw [fragments_of_draft draft, List.length_append, List.length_singleton] at started
    refine goesOn_of_eq ?_ ?_
    · rw [fragments_of_draft draft]
      exact List.append_nil _
    · exact List.take_append_of_le_length (Nat.le_of_lt_succ started)
  | flushed => exact goesOn_of_eq rfl rfl
  | abandoned =>
    have early := kept rfl
    refine goesOn_of_take (Nat.lt_of_lt_of_le early visible) ?_
    show (s.written.take s.published).take (k + 1) = _
    rw [List.take_take, Nat.min_eq_left early]
  | finished idle =>
    rw [fragments_of_idle idle] at started
    exact goesOn_of_take started (List.take_append_of_le_length started)

theorem Change.goesOn (change : s.Change a t) (started : k < s.fragments.length)
    (kept : a.abandons = true → k < s.published) (visible : s.published ≤ s.written.length) :
    s.GoesOn t k := by
  rcases change with writes | reads
  · exact writes.goesOn started kept visible
  · have side := reads.sameWriter
    refine goesOn_of_eq ?_ (congrArg _ side.written)
    rw [fragments, fragments, side.written, side.draft]

/-- A call that overwrites no unreleased byte leaves the field in its fragment, and its bytes in the
blob. -/
theorem Carries.change (y : s.Carries k before data place) (change : s.Change a t)
    (call : s.step a = some t) (kept : carrying k s a) : t.Carries k before data place := by
  obtain ⟨w, rest, found, entries⟩ := y.field
  obtain ⟨started, -⟩ := List.getElem?_eq_some_iff.mp found
  obtain ⟨front, goes⟩ := change.goesOn started kept.2 y.recorded.aligned.1.visible_le
  obtain ⟨x, more, found', entries'⟩ := goes w found
  have start := change.sameCapacity.blobStart
  have grows := (y.recorded.aligned.change change).2
  refine ⟨y.recorded.change change, ⟨x, rest ++ more, found', ?_⟩, y.short, ?_, ?_⟩
  · rw [entries', entries, List.append_assoc, List.cons_append]
  · rw [blobAt_eq_of_take start front (Nat.le_refl k)]
    exact y.lies
  · intro behind
    have held := y.data (Nat.le_trans grows behind)
    have lower := s.blobAt_mono (Nat.le_trans grows behind)
    obtain ⟨after, upper⟩ := y.within
    intro i hi
    rw [← held i hi]
    exact Ring.get_eq_of_getList (kept.1 t call) (by omega) (by omega)

theorem carries_of_reaches (first : s.Carries k before data place)
    (run : Reaches (carrying k) s t) : t.Carries k before data place :=
  run.invariant first fun _ _ _ (y : Carries _ k before data place) kept call =>
    y.change (change_of_step call) call kept

/-! ### In view of the field -/

/-- The reader that has taken the fields before it stands at the field. -/
theorem Carries.faces {c : Reading} (y : s.Carries k before data place)
    (reading : s.reading = some c) (here : s.received.length = k)
    (field : c.fields.length = before.length) :
    ∃ w, s.next? = some w ∧ w.entries[c.fields.length]? = some (.content (.bytes data)) ∧
      ∃ offset, s.pipe.Faces (.bytes data) offset ∧
        s.pipe.restorePosition offset % (s.pipe.store.blob.size : Int) =
          place % (s.pipe.store.blob.size : Int) := by
  obtain ⟨w, rest, found, entries⟩ := y.field
  have published := y.recorded.aligned.2.received_lt (by rw [reading]; rfl)
  have visible := y.recorded.aligned.1.visible_le
  have next : s.next? = some w := by
    rw [next?, here, ← getElem?_fragments_of_lt (by omega)]
    exact found
  have entry : w.entries[c.fields.length]? = some (.content (.bytes data)) := by
    rw [entries, field]
    simp
  have front : w.entries.take c.fields.length = before := by
    rw [entries, field]
    exact List.take_left
  have cells := y.recorded.cells_of_reading reading next entry
  rw [front] at cells
  -- The offset is told on the circle of positions, of which the blob's turns are a part.
  have told : (((before.map Entry.taken).sum % 0x80000000 : Nat) : Int) =
      ((before.map Entry.taken).sum : Int) % blobSpan := Int.natCast_emod ..
  have lies := y.lies
  have base := y.recorded.base
  rw [BaseAt, here] at base
  have spot : (s.pipe.consumer.readBase +
      (((before.map Entry.taken).sum % 0x80000000 : Nat) : Int)) %
        (s.pipe.store.blob.size : Int) = place % (s.pipe.store.blob.size : Int) := by
    rw [told, Int.add_emod, Int.emod_emod_of_dvd _ y.recorded.turn, base, ← Int.add_emod, lies]
  have behind : s.released ≤ k := here ▸ y.recorded.aligned.2.given_le
  have short := y.short
  have bound : (1 <<< maxBits) < 0x7FFFFFFF := by decide
  have faces : s.pipe.Faces (.bytes data) ((before.map Entry.taken).sum % 0x80000000) := by
    refine ⟨?_, (y.data behind).congr spot.symm, y.recorded.turn, ?_, ?_,
      y.recorded.sound.written w (List.mem_of_getElem? next) _ (List.mem_of_getElem? entry)⟩
    · rw [told]
      exact cells
    · unfold blobSpan
      omega
    · show (data.length : Int) ≤ _
      unfold Pipe.maxInt
      omega
  exact ⟨w, next, entry, _, faces, (Pipe.emod_restorePosition faces).trans spot⟩

/-- Taking a field in view tells its length and moves the reader behind its cells. -/
theorem openField_of_faces {p : Pipe} {offset : Nat} (h : p.Faces (.bytes data) offset) :
    ∃ tail, FieldView.openField p =
      ((data.length : Int), .ofRun .blob (p.restorePosition offset) data.length,
        p.passed 2 tail p.store.events) := by
  have short : (data.length : Int) ≤ Pipe.maxInt := h.short
  have taken : p.takeDescriptor.1 = ⟨.blob offset, data.length⟩ := by
    rw [h.takeDescriptor_fst]
    show Descriptor.mk _ (min (data.length : Int) Pipe.maxInt) = _
    rw [Int.min_eq_left short]
    rfl
  have present : 0 ≤ (data.length : Int) := Int.natCast_nonneg _
  refine ⟨(data.length + p.consumer.blobTail) % p.store.blob.size, ?_⟩
  simp only [FieldView.openField, taken, Pipe.takeDescriptor_snd, Pipe.locate, if_pos present]
  rfl

/-- What is recorded depends neither on how far the reader has come in the blob nor on the report. -/
theorem Recorded.of_tail (h : s.Recorded) (tail : Int) (events : List Event) :
    { s with
      pipe := { s.pipe with store.events := events, consumer.blobTail := tail } }.Recorded := by
  obtain ⟨⟨writer, reader⟩, blob, records, sound, base, size⟩ := h
  exact ⟨⟨{ writer with }, { reader with }⟩, { blob with }, { records with }, { sound with }, base,
    size⟩

/-- The field goes on being carried after it is taken in view. -/
theorem Carries.view {c : Reading} (y : s.Carries k before data place)
    (reading : s.reading = some c) (here : s.received.length = k)
    (field : c.fields.length = before.length) :
    (FieldView.openField s.pipe).1 = data.length ∧
      (∀ x : Store, x.blob.size = s.pipe.store.blob.size → x.blob.Holds place data →
        (FieldView.openField s.pipe).2.1.Holds x data) ∧
      (s.viewNext c).Carries k before data place ∧
      (s.viewNext c).pipe.store.blob = s.pipe.store.blob := by
  obtain ⟨w, next, entry, offset, faces, spot⟩ := y.faces reading here field
  obtain ⟨tail, opened⟩ := openField_of_faces faces
  obtain ⟨tail', events, moved⟩ := s.pipe.takeField_eq .bytes
  have turn := Int.dvd_trans y.recorded.turn (by decide : blobSpan ∣ wordSpan)
  have recorded : (s.viewNext c).Recorded := by
    have took : s.ReaderChange (.take .bytes) (s.takeNext c .bytes) := .took reading next entry rfl
    have taken := (y.recorded.change (.inr took)).of_tail tail s.pipe.store.events
    unfold viewNext
    rw [opened]
    unfold takeNext at taken ⊢
    dsimp only at taken ⊢
    rw [moved] at taken
    exact taken
  refine ⟨by rw [opened], ?_, ?_, by rw [viewNext, opened]; rfl⟩
  · intro x size held
    rw [opened]
    refine ⟨rfl, Int.toNat_natCast _, held.congr ?_⟩
    show place % (x.blob.size : Int) = s.pipe.restorePosition offset % wordSpan % (x.blob.size : Int)
    rw [size, Int.emod_emod_of_dvd _ turn, spot]
  · refine ⟨recorded, y.field, y.short, y.lies, ?_⟩
    have held := y.data
    unfold viewNext released at *
    rw [opened]
    exact held

/-! ### From the writer to the view -/

/-- The reader that comes to a streamed field is told the length that the writer was. It has the bytes
of the values in view, and goes on having them as long as no unreleased byte is overwritten. -/
theorem view_of_stream {registry : Registry} {config : Config} {slab blob n : Int} {p q r : Pipe}
    {calls : List (StreamCall α)} {c : Reading} (stores : FieldWriter.Stores put encoded)
    (prepared : registry.Prepares config slab blob p)
    (before : Reaches anyCall (start p) s) (draft : s.draft = some d)
    (unconfirmed : d.confirmed = false) (space : d.content.filled + 2 < d.fragment.size)
    (opened : s.pipe.openStream = (.ok w, q))
    (streamed : { s with pipe := q }.stream put w calls = some (t, v))
    (finished : v.finish = (.ok n, r))
    (later : Reaches (carrying s.written.length)
      (t.endStream d ((StreamCall.items calls).flatMap encoded) r) u)
    (reading : u.reading = some c) (here : u.received.length = s.written.length)
    (field : c.fields.length = d.content.entries.length) :
    (FieldView.openField u.pipe).1 = n ∧
    (FieldView.openField u.pipe).2.1.remaining =
      ((StreamCall.items calls).flatMap encoded).length ∧
    ∀ x, (∃ y, Reaches (carrying s.written.length) (u.viewNext c) y ∧
        y.received.length = s.written.length ∧ y.pipe.store = x) →
      (FieldView.openField u.pipe).2.1.Holds x ((StreamCall.items calls).flatMap encoded) ∧
        (x.blob.size : Int) ∣ wordSpan := by
  have recorded := recorded_of_reaches (batched_of_prepares prepared).recorded before
  obtain ⟨streaming, written, draft'⟩ := (recorded.streaming opened).stream stores streamed
  rw [List.nil_append] at streaming
  obtain ⟨length, -⟩ := streaming.putBytes_eq finished
  have carries := streaming.carries (draft'.trans draft) unconfirmed space finished
  rw [written] at carries
  have carried := carries_of_reaches carries later
  obtain ⟨same, view, viewed, blob⟩ := carried.view reading here field
  have behind := carried.recorded.aligned.2.given_le
  refine ⟨same.trans length.symm, (view u.pipe.store rfl (carried.data (here ▸ behind))).remaining,
    ?_⟩
  rintro x ⟨y, run, still, rfl⟩
  have after := carries_of_reaches viewed run
  have size := (sameCapacity_of_reaches run).blob
  rw [blob] at size
  exact ⟨view y.pipe.store size (after.data (still ▸ after.recorded.aligned.2.given_le)),
    Int.dvd_trans after.recorded.turn (by decide)⟩

end Session

/-- What is written to a stream is read from it. In every run, wherever in the blob the field comes
to lie: a field is streamed in a fragment, each of its items is written, and it is finished. As long
as no unreleased byte is overwritten and the fragment is not given up, the reader that comes to the
field is told the length that the writer was, and whenever it reads the items, each as what it was
written as, it gets them in their order and is then at the end of the field. -/
theorem stream_round_trip {registry : Registry} {config : Config} {slab blob n : Int}
    {p q r : Pipe} {s t u : Session} {d : Draft} {w v : FieldWriter} {calls : List (StreamCall Item)}
    {c : Reading} {stores : List Store} (prepared : registry.Prepares config slab blob p)
    (before : Reaches anyCall (Session.start p) s) (draft : s.draft = some d)
    (unconfirmed : d.confirmed = false) (space : d.content.filled + 2 < d.fragment.size)
    (opened : s.pipe.openStream = (.ok w, q))
    (streamed : { s with pipe := q }.stream Item.write w calls = some (t, v))
    (nonempty : ∀ item ∈ StreamCall.items calls, item ≠ .bytes [])
    (finished : v.finish = (.ok n, r))
    (later : Reaches (carrying s.written.length)
      (t.endStream d ((StreamCall.items calls).flatMap Item.encoded) r) u)
    (reading : u.reading = some c) (here : u.received.length = s.written.length)
    (field : c.fields.length = d.content.entries.length)
    (reads : stores.length = (StreamCall.items calls).length)
    (during : ∀ x ∈ stores, ∃ y, Reaches (carrying s.written.length) (u.viewNext c) y ∧
      y.received.length = s.written.length ∧ y.pipe.store = x) :
    (FieldView.openField u.pipe).1 = n ∧
    ((FieldView.openField u.pipe).2.1.readAll Shape.readAt
      (((StreamCall.items calls).map Item.shape).zip stores)).1 =
        (StreamCall.items calls).map .ok ∧
    ((FieldView.openField u.pipe).2.1.readAll Shape.readAt
      (((StreamCall.items calls).map Item.shape).zip stores)).2.remaining = 0 := by
  obtain ⟨length, all, view⟩ := Session.view_of_stream Item.stores_write prepared before
    draft unconfirmed space opened streamed finished later reading here field
  have told : ∀ item ∈ StreamCall.items calls, item.Told := by
    intro item inside
    obtain ⟨x, y, written⟩ := Session.written_of_stream streamed item inside
    exact Item.told_of_write written (nonempty item inside)
  have holds : ∀ call ∈ ((StreamCall.items calls).map Item.shape).zip stores,
      (FieldView.openField u.pipe).2.1.Holds call.2
          ((StreamCall.items calls).flatMap Item.encoded) ∧
        (call.2.blob.size : Int) ∣ wordSpan :=
    fun _ inside => view _ (during _ (List.of_mem_zip inside).2)
  exact ⟨length, FieldView.readAll_of_holds (Item.readsAs_readAt told reads) all holds⟩

/-- A message up to its field of bytes. -/
def openSample : List Action := [.begin .waiting 0, .put (.entry (.scalar (.optionalInt (some 7))))]

/-- The end of the message, the beginning of another one, and the reader on its way to the field. -/
def visitSample : List Action :=
  [.confirm, .publish] ++ openSample ++ [.flush, .receive, .take .optionalInt]

/-- Another field, of a byte. -/
def besideSample : List Action := [.put (.entry (.content (.bytes [5])))]

/-- Whether a field of `n` bytes can be streamed in the sample pipe and be visited by the reader, and
another field be written meanwhile. -/
def visits {α : Type} (write : FieldWriter → α → Except StreamError Unit × FieldWriter)
    (encoded : α → List UInt8) (calls : List (StreamCall α)) (n : Int) : Bool :=
  (play anyCall (Session.start samplePipe) openSample).any fun s =>
    s.written.length = 0 ∧ s.draft.any fun d =>
      (d.confirmed = false ∧ d.content.filled + 2 < d.fragment.size ∧
        d.content.entries.length = 1) ∧
      s.pipe.openStream.1.toOption.any fun w =>
        ({ s with pipe := s.pipe.openStream.2 }.stream write w calls).any
          fun x : Session × FieldWriter => x.2.finish.1.toOption = some n ∧
            (play (carrying 0)
              (x.1.endStream d ((StreamCall.items calls).flatMap encoded) x.2.finish.2)
              visitSample).any fun u : Session =>
                u.received.length = 0 ∧ u.reading.any fun c : Reading => c.fields.length = 1 ∧
                  (play (carrying 0) (u.viewNext c) besideSample).any
                    fun y : Session => y.received.length = 0

theorem exists_of_visits {α : Type}
    {write : FieldWriter → α → Except StreamError Unit × FieldWriter} {encoded : α → List UInt8}
    {calls : List (StreamCall α)} {n : Int} (visited : visits write encoded calls n = true) :
    ∃ s d w t v u c y,
      (play anyCall (Session.start samplePipe) openSample = some s ∧ s.draft = some d ∧
        s.pipe.openStream = (.ok w, s.pipe.openStream.2) ∧
        { s with pipe := s.pipe.openStream.2 }.stream write w calls = some (t, v) ∧
        v.finish = (.ok n, v.finish.2) ∧
        play (carrying 0) (t.endStream d ((StreamCall.items calls).flatMap encoded) v.finish.2)
          visitSample = some u ∧
        u.reading = some c ∧ play (carrying 0) (u.viewNext c) besideSample = some y) ∧
      (s.written.length = 0 ∧ d.confirmed = false ∧ d.content.filled + 2 < d.fragment.size ∧
        u.received.length = 0 ∧ c.fields.length = d.content.entries.length ∧
        y.received.length = 0) := by
  obtain ⟨s, played, checked⟩ := (Option.any_eq_true ..).mp visited
  obtain ⟨first, checked⟩ := of_decide_eq_true checked
  obtain ⟨d, draft, checked⟩ := (Option.any_eq_true ..).mp checked
  obtain ⟨⟨unconfirmed, space, one⟩, checked⟩ := of_decide_eq_true checked
  obtain ⟨w, opened, checked⟩ := (Option.any_eq_true ..).mp checked
  obtain ⟨⟨t, v⟩, streamed, checked⟩ := (Option.any_eq_true ..).mp checked
  obtain ⟨finished, checked⟩ := of_decide_eq_true checked
  obtain ⟨u, later, checked⟩ := (Option.any_eq_true ..).mp checked
  obtain ⟨here, checked⟩ := of_decide_eq_true checked
  obtain ⟨c, reading, checked⟩ := (Option.any_eq_true ..).mp checked
  obtain ⟨field, checked⟩ := of_decide_eq_true checked
  obtain ⟨y, during, still⟩ := (Option.any_eq_true ..).mp checked
  exact ⟨s, d, w, t, v, u, c, y,
    ⟨played, draft, Prod.ext (eq_ok_of_toOption opened) rfl, streamed,
      Prod.ext (eq_ok_of_toOption finished) rfl, later, reading, during⟩,
    first, unconfirmed, space, here, field.trans one.symm, of_decide_eq_true still⟩

/-- Nine bytes from byte 30 of the blob on, around its end. -/
def streamSample : List (StreamCall Item) :=
  [.write (.int 0x01020304), .read .look, .write (.text "é"), .write (.bool true)]

/-- A field that is streamed around the end of the blob, and read while another one is written. -/
theorem stream_round_trip_sample :
    ∃ s d w q t v r u c y,
      play anyCall (Session.start samplePipe) openSample = some s ∧ s.draft = some d ∧
      s.pipe.openStream = (.ok w, q) ∧
      { s with pipe := q }.stream Item.write w streamSample = some (t, v) ∧
      v.finish = (.ok 9, r) ∧
      play (carrying 0)
        (t.endStream d ((StreamCall.items streamSample).flatMap Item.encoded) r)
        visitSample = some u ∧
      u.reading = some c ∧ play (carrying 0) (u.viewNext c) besideSample = some y ∧
      (FieldView.openField u.pipe).1 = 9 ∧
      ((FieldView.openField u.pipe).2.1.readAll Shape.readAt
        [(.int, (u.viewNext c).pipe.store), (.text, y.pipe.store), (.bool, y.pipe.store)]).1 =
          [.ok (.int 0x01020304), .ok (.text "é"), .ok (.bool true)] := by
  obtain ⟨s, d, w, t, v, u, c, y, ⟨played, draft, opened, streamed, finished, later, reading, during⟩,
    first, unconfirmed, space, here, field, still⟩ :=
    exists_of_visits
      (by decide +kernel : visits Item.write Item.encoded streamSample 9 = true)
  have run := later
  have beside := during
  rw [← first] at run beside
  have seen : ∀ x ∈ [(u.viewNext c).pipe.store, y.pipe.store, y.pipe.store],
      ∃ z, Reaches (carrying s.written.length) (u.viewNext c) z ∧
        z.received.length = s.written.length ∧ z.pipe.store = x := by
    intro x inside
    simp only [List.mem_cons, List.not_mem_nil, or_false, or_self] at inside
    rcases inside with rfl | rfl
    · exact ⟨_, .refl, here.trans first.symm, rfl⟩
    · exact ⟨y, .of_play beside, still.trans first.symm, rfl⟩
  obtain ⟨length, items, -⟩ := stream_round_trip (.opened open?_sample) (.of_play played) draft
    unconfirmed space opened streamed (by decide) finished (.of_play run) reading
    (here.trans first.symm) field rfl seen
  exact ⟨s, d, w, _, t, v, _, u, c, y, played, draft, opened, streamed, finished, later, reading,
    during, length, items⟩

end FragmentPipe
