import FragmentPipe.Proofs.Transfer.Contents

/-!
The pipe is a queue of fragments. Main statement: `fifo`, in every run that loses no bytes the
fragments received are the first of those written, each with its number and its fields, and there is
content exactly as long as a published fragment is not received.
-/

namespace FragmentPipe

/-- Of fields and what was taken for them, each is seen as it was written. -/
def ShowsAll (s : Schema) (constants : Buffer) (es : List Entry)
    (vs : List (FieldKind × FieldValue)) : Prop :=
  ∀ (i : Nat) (e : Entry) (v : FieldKind × FieldValue), es[i]? = some e → vs[i]? = some v →
    e.fits v.1 = true ∧ e.Shows s constants v.1 v.2

/-- What is read of a fragment is what was written of it. -/
structure Written.ReadAs (s : Schema) (constants : Buffer) (w : Written) (c : Receipt) : Prop where
  number : c.number = w.number
  length : c.fields.length = w.entries.length
  fields : ShowsAll s constants w.entries c.fields
  count : c.count = w.bytes.length

namespace Entry

/-- The bytes of a field stand behind those of the fields before it. -/
theorem bytes_split {es : List Entry} {j : Nat} {e : Entry} (entry : es[j]? = some e) :
    ∃ rest, es.flatMap bytesIn = (es.take j).flatMap bytesIn ++ (e.bytesIn ++ rest) := by
  refine ⟨(es.drop (j + 1)).flatMap bytesIn, ?_⟩
  obtain ⟨inside, same⟩ := List.getElem?_eq_some_iff.mp entry
  have split := List.take_append_drop j es
  rw [List.drop_eq_getElem_cons inside, same] at split
  rw [← List.flatMap_cons, ← List.flatMap_append, split]

end Entry

namespace Session

/-- What is read so far is what was written. -/
structure Shown (s : Session) : Prop where
  received : ∀ (k : Nat) (w : Written) (c : Receipt), s.written[k]? = some w →
    s.received[k]? = some c → w.ReadAs s.pipe.schema s.pipe.store.config.constants c
  reading : ∀ (c : Reading) (w : Written), s.reading = some c → s.next? = some w →
    c.number = w.number ∧
      ShowsAll s.pipe.schema s.pipe.store.config.constants w.entries c.fields

variable {s t : Session}

theorem Shown.of_written {a : Action} (q : s.Shown) (aligned : s.Aligned)
    (change : s.WriterChange a t) : t.Shown := by
  have side := change.sameReader
  obtain ⟨-, same⟩ := aligned.front (.inl change)
  have upto := aligned.2.received_le
  constructor
  · intro k w c found got
    rw [side.received] at got
    obtain ⟨inside, -⟩ := List.getElem?_eq_some_iff.mp got
    rw [getElem?_eq_of_take same (by omega)] at found
    rw [side.schema, side.config]
    exact q.received k w c found got
  · intro c w reading next
    rw [side.reading] at reading
    have behind := aligned.2.received_lt (by rw [reading]; rfl)
    rw [next?, side.received, getElem?_eq_of_take same behind] at next
    rw [side.schema, side.config]
    exact q.reading c w reading next

/-- The number that the reader finds at the beginning of a message is the one written there. -/
theorem takeMessage_fst {w : Written} {number : Int32} (h : s.Recorded) (idle : s.reading = none)
    (next : s.next? = some w) (message : w.number = some number) :
    s.pipe.takeMessage.1 = number := by
  have held := h.records.records _ w next h.aligned.2.given_le
  obtain ⟨tail, -⟩ := h.aligned.2.idle idle
  rw [← tail, Written.cells, Written.opening, message, Option.toList_some, List.append_assoc,
    List.singleton_append] at held
  exact Pipe.takeInt_fst held

/-- What is not given back of a fragment has room in the blob. -/
theorem length_bytes_le {k : Nat} {w : Written} (h : s.Recorded) (y : s.Roomy)
    (found : s.written[k]? = some w) (behind : s.released ≤ k) :
    w.bytes.length ≤ 1 <<< maxBits := by
  obtain ⟨inside, -⟩ := List.getElem?_eq_some_iff.mp found
  have ends := blobAt_succ found
  have later : s.blobAt (k + 1) ≤ s.blobAt s.written.length := s.blobAt_mono inside
  have before := s.blobAt_mono behind
  have bytes_eq := unreleasedBytes_eq y.short
  have length := Written.taken_eq (y.short.written w (List.mem_of_getElem? found))
  have room := y.room
  have small := s.pipe.store.config.blobSize_le
  rw [h.size] at room
  omega

/-- The cells of its fragment that the reader has before it, up to the byte count, lie there as they
were written. -/
theorem Recorded.rest_of_reading {c : Reading} {w : Written} (h : s.Recorded)
    (reading : s.reading = some c) (next : s.next? = some w) :
    s.pipe.store.slab.Holds s.pipe.consumer.slabTail
      (Entry.lay s.pipe.schema ((w.entries.take c.fields.length).map Entry.taken).sum
        (w.entries.drop c.fields.length) ++ [Int32.ofInt ((w.taken : Int) % blobSpan)]) := by
  have cells := h.records.records _ w next h.aligned.2.given_le
  have tail := h.aligned.2.tail
  simp only [passedCells, reading, next] at tail
  have split : w.cells s.pipe.schema = w.number.toList ++
      (Entry.lay s.pipe.schema 0 (w.entries.take c.fields.length) ++
        (Entry.lay s.pipe.schema ((w.entries.take c.fields.length).map Entry.taken).sum
          (w.entries.drop c.fields.length) ++ [Int32.ofInt ((w.taken : Int) % blobSpan)])) := by
    have joined := Entry.lay_append s.pipe.schema 0 (w.entries.take c.fields.length)
      (w.entries.drop c.fields.length)
    rw [List.take_append_drop, Nat.zero_add] at joined
    rw [Written.cells, Written.opening, joined, List.append_assoc, List.append_assoc]
  rw [split, Ring.holds_append, Ring.holds_append, Entry.length_lay] at cells
  have here : s.slabAt s.received.length + (w.number.toList.length : Int) +
      ((w.entries.take c.fields.length).map Entry.width).sum = s.pipe.consumer.slabTail := by omega
  rw [here] at cells
  exact cells.2.2

/-- The cells of the fields that the reader has before it lie there as they were written. -/
theorem Recorded.lay_of_reading {c : Reading} {w : Written} (h : s.Recorded)
    (reading : s.reading = some c) (next : s.next? = some w) :
    s.pipe.store.slab.Holds s.pipe.consumer.slabTail
      (Entry.lay s.pipe.schema ((w.entries.take c.fields.length).map Entry.taken).sum
        (w.entries.drop c.fields.length)) := by
  have cells := h.rest_of_reading reading next
  rw [Ring.holds_append] at cells
  exact cells.1

/-- The cells of the field that the reader stands at lie there as they were written. -/
theorem Recorded.cells_of_reading {c : Reading} {w : Written} {e : Entry} (h : s.Recorded)
    (reading : s.reading = some c) (next : s.next? = some w)
    (entry : w.entries[c.fields.length]? = some e) :
    s.pipe.store.slab.Holds s.pipe.consumer.slabTail
      (e.cells s.pipe.schema
        (((((w.entries.take c.fields.length).map Entry.taken).sum : Nat) : Int) % blobSpan)) := by
  obtain ⟨inside, same⟩ := List.getElem?_eq_some_iff.mp entry
  have cells := h.lay_of_reading reading next
  rw [List.drop_eq_getElem_cons inside, same, Entry.lay, Ring.holds_append] at cells
  exact cells.1

/-- The field that the reader stands at lies there as it was written. -/
theorem stands_of_reading {c : Reading} {w : Written} {e : Entry} (h : s.Recorded) (i : s.Intact)
    (y : s.Roomy) (reading : s.reading = some c) (next : s.next? = some w)
    (entry : w.entries[c.fields.length]? = some e) :
    s.pipe.Stands (((w.entries.take c.fields.length).map Entry.taken).sum) e := by
  have short := y.short.written w (List.mem_of_getElem? next)
  have before : ∀ e ∈ w.entries.take c.fields.length, e.bytesIn.length ≤ 1 <<< maxBits :=
    fun e inside => short e (List.mem_of_mem_take inside)
  have stored := h.cells_of_reading reading next entry
  cases e with
  | scalar value => exact stored
  | content value =>
    obtain ⟨more, joined⟩ := Entry.bytes_split entry
    have bytes := i.records _ w next h.aligned.2.given_le
    rw [Written.bytes, joined, Ring.holds_append, Ring.holds_append] at bytes
    have whole := congrArg List.length joined
    have passed : ((w.entries.take c.fields.length).flatMap Entry.bytesIn).length =
        ((w.entries.take c.fields.length).map Entry.taken).sum := by
      rw [Entry.sum_taken_eq before, List.length_flatMap]
    have total := length_bytes_le h y next h.aligned.2.given_le
    have bound : (1 <<< maxBits) < 0x7FFFFFFF := by decide
    rw [Written.bytes, whole, List.length_append, passed] at total
    have small : ((((w.entries.take c.fields.length).map Entry.taken).sum : Nat) : Int) <
        blobSpan := by
      unfold blobSpan
      omega
    rw [passed] at bytes
    refine ⟨?_, ?_, h.turn, small, ?_, h.sound.written w (List.mem_of_getElem? next) _
      (List.mem_of_getElem? entry)⟩
    · rwa [Int.emod_eq_of_lt (Int.natCast_nonneg _) small] at stored
    · exact bytes.2.1.congr (Int.add_emod_eq_add_emod_right _ h.base.symm)
    · have one : (Entry.content value).bytesIn.length ≤ 1 <<< maxBits :=
        short _ (List.mem_of_getElem? entry)
      unfold Pipe.maxInt
      have same : (Entry.content value).bytesIn = value.bytesIn := rfl
      rw [same] at one
      omega

theorem showsAll_append {schema : Schema} {constants : Buffer} {es : List Entry}
    {vs : List (FieldKind × FieldValue)} {e : Entry} {kind : FieldKind} {value : FieldValue}
    (all : ShowsAll schema constants es vs) (entry : es[vs.length]? = some e)
    (fits : e.fits kind = true) (shown : e.Shows schema constants kind value) :
    ShowsAll schema constants es (vs ++ [(kind, value)]) := by
  intro i e' v' found got
  rcases getElem?_append_singleton got with ⟨-, before⟩ | ⟨rfl, rfl⟩
  · exact all i e' v' found before
  · rw [entry] at found
    cases found
    exact ⟨fits, shown⟩

theorem Shown.open {w : Written} {seen : Int} (q : s.Shown) (h : s.Recorded)
    (idle : s.reading = none) (next : s.next? = some w) :
    ({ s with pipe := s.pipe.looked seen }.openNext w).Shown := by
  have nothing : ∀ es : List Entry, ShowsAll s.pipe.schema s.pipe.store.config.constants es [] := by
    intro es i e v _ got
    cases got
  have same : ∀ w', s.next? = some w' → w' = w := by
    intro w' next'
    rw [next] at next'
    exact (Option.some.inj next').symm
  unfold openNext
  cases message : w.number with
  | none =>
    refine ⟨q.received, ?_⟩
    intro c w' reading next'
    cases reading
    rw [same w' next']
    exact ⟨message.symm, nothing _⟩
  | some number =>
    have found := takeMessage_fst h idle next message
    refine ⟨q.received, ?_⟩
    intro c w' reading next'
    cases reading
    rw [same w' next', message]
    exact ⟨congrArg some found, nothing _⟩

theorem Shown.take {c : Reading} {w : Written} {e : Entry} {kind : FieldKind} (q : s.Shown)
    (h : s.Recorded) (i : s.Intact) (y : s.Roomy) (reading : s.reading = some c)
    (next : s.next? = some w) (entry : w.entries[c.fields.length]? = some e)
    (fits : e.fits kind = true) : (s.takeNext c kind).Shown := by
  have shown := Pipe.shows_takeField fits (stands_of_reading h i y reading next entry)
  obtain ⟨number, all⟩ := q.reading c w reading next
  have side := (ReaderChange.took reading next entry fits).sameWriter
  constructor
  · rw [side.schema, side.config]
    exact q.received
  · intro c' w' reading' next'
    cases reading'
    rw [show s.next? = some w' from next', Option.some.injEq] at next
    subst next
    rw [side.schema, side.config]
    exact ⟨number, showsAll_append all entry fits shown⟩

theorem Shown.release {c : Reading} (q : s.Shown) (h : s.Recorded) (y : s.Roomy)
    (reading : s.reading = some c) (closed : c.confirmed = true) : (s.releaseNext c).Shown := by
  obtain ⟨w, next, all, count⟩ := takeByteCount_fst h.records h.aligned reading closed
  obtain ⟨number, fields⟩ := q.reading c w reading next
  have length := Written.taken_eq (y.short.written w (List.mem_of_getElem? next))
  have small := length_bytes_le h y next h.aligned.2.given_le
  have bound : (1 <<< maxBits) < 0x7FFFFFFF := by decide
  have side := (ReaderChange.released reading closed).sameWriter
  refine ⟨?_, nofun⟩
  intro k w' c' found got
  rw [side.schema, side.config]
  have received : (s.releaseNext c).received =
      s.received ++ [⟨c.number, c.fields, s.pipe.takeByteCount.1⟩] := rfl
  rw [received] at got
  rcases getElem?_append_singleton got with ⟨-, before⟩ | ⟨rfl, rfl⟩
  · exact q.received k w' c' found before
  · rw [show s.next? = some w' from found, Option.some.injEq] at next
    subst next
    refine ⟨number, all, fields, ?_⟩
    show s.pipe.takeByteCount.1 = _
    rw [count, Int.emod_eq_of_lt (Int.natCast_nonneg _) (by unfold blobSpan; omega), length]

theorem Shown.of_read {a : Action} (q : s.Shown) (h : s.Recorded) (i : s.Intact) (y : s.Roomy)
    (change : s.ReaderChange a t) : t.Shown := by
  cases change with
  | looked => exact { q with }
  | opened idle next => exact q.open h idle next
  | took reading next entry fits => exact q.take h i y reading next entry fits
  | @passed c w reading next =>
    refine ⟨q.received, ?_⟩
    intro c' w' reading' next'
    cases reading'
    exact q.reading c w' reading next'
  | released reading closed => exact q.release h y reading closed
  | flushedReleased =>
    obtain ⟨_, _, moved⟩ := s.pipe.flushReleased_eq
    rw [moved]
    exact { q with }
  | releasedToHere => exact { q with }

/-- A pipe in which nothing is lost. -/
structure Faithful (s : Session) : Prop where
  recorded : s.Recorded
  roomy : s.Roomy
  intact : s.Intact
  shown : s.Shown

theorem Faithful.change {a : Action} (f : s.Faithful) (change : s.Change a t)
    (kept : lossless s a) : t.Faithful := by
  obtain ⟨h, y, i, q⟩ := f
  have shown : t.Shown := by
    rcases change with writes | reads
    · exact q.of_written h.aligned writes
    · exact q.of_read h i y reads
  exact ⟨h.change change, y.change h change (fitting_of_lossless s a kept),
    i.change y.short h change kept, shown⟩

theorem faithful_start {p : Pipe} (recorded : (Session.start p).Recorded) :
    (Session.start p).Faithful := by
  refine ⟨recorded, ⟨⟨nofun, nofun⟩, Nat.zero_le _⟩, ⟨?_, Ring.holds_nil _ _⟩, ⟨?_, nofun⟩⟩
  · intro k w found
    cases found
  · intro k w c found
    cases found

theorem faithful_of_reaches (first : s.Faithful) (run : Reaches lossless s t) : t.Faithful :=
  run.invariant first fun _ _ _ faithful kept call =>
    faithful.change (change_of_step call) kept

/-- Between fragments there is content exactly if a published fragment is not received. -/
theorem Aligned.hasContent_iff (aligned : s.Aligned) (idle : s.reading = none) :
    s.pipe.hasContent.1 = true ↔ s.received.length < s.published := by
  obtain ⟨h, g⟩ := aligned
  obtain ⟨-, confirmed⟩ := g.idle idle
  have seen : s.pipe.consumer.content.headSeen ≤ s.pipe.store.slabHead := by
    rw [h.visible]
    exact g.seen
  have answer : s.pipe.hasContent.1 =
      decide (s.pipe.consumer.content.confirmed + 1 ≤ s.pipe.store.slabHead) := by
    show (reaches _ _ _).answer = _
    exact reaches_answer seen
  rw [answer, decide_eq_true_iff, confirmed, h.visible]
  constructor
  · intro content
    rcases Nat.lt_or_ge s.received.length s.published with behind | all
    · exact behind
    · have before := s.slabAt_mono all
      omega
  · intro behind
    exact slabAt_lt behind h.visible_le

end Session

/-- The pipe is a queue of fragments. In every run that loses no bytes, each fragment received is
the fragment of the same place among those written, with its number, its fields and the number of
its bytes; what is published is written for good; and between fragments there is content exactly if
a published fragment is not received. -/
theorem fifo {registry : Registry} {config : Config} {slab blob : Int} {p : Pipe} {s : Session}
    (opened : registry.open? config slab blob = some p)
    (run : Reaches lossless (Session.start p) s) :
    s.received.length ≤ s.published ∧ s.published ≤ s.written.length ∧
    (∀ (k : Nat) (w : Written) (c : Receipt), s.written[k]? = some w → s.received[k]? = some c →
      w.ReadAs config.schema config.constants c) ∧
    (∀ a t, s.step a = some t →
      s.published ≤ t.published ∧ t.written.take s.published = s.written.take s.published) ∧
    (s.reading = none → (s.pipe.hasContent.1 = true ↔ s.received.length < s.published)) := by
  have faithful := Session.faithful_of_reaches
    (Session.faithful_start (Session.recorded_of_open? opened)) run
  have aligned := faithful.recorded.aligned
  obtain ⟨same, -⟩ := Session.capacity_of_reaches opened run
  have received := faithful.shown.received
  unfold Pipe.schema at received
  rw [same] at received
  exact ⟨aligned.2.received_le, aligned.1.visible_le, received,
    fun a t call => aligned.front (Session.change_of_step call), aligned.hasContent_iff⟩

/-- Two messages, of which the first goes around the end of the blob, are read as they were
written. -/
theorem fifo_sample :
    ∃ s, play lossless (Session.start samplePipe)
        (writeSample (some 7) [1, 2, 3] ++ writeSample none [4] ++ readSample ++ readSample) =
          some s ∧
      s.received.length = 2 ∧
      ∀ (k : Nat) (w : Written) (c : Receipt), s.written[k]? = some w → s.received[k]? = some c →
        w.ReadAs sampleSchema #[] c := by
  obtain ⟨s, played⟩ : ∃ s, play lossless (Session.start samplePipe)
      (writeSample (some 7) [1, 2, 3] ++ writeSample none [4] ++ readSample ++ readSample) =
        some s := Option.isSome_iff_exists.mp (by decide +kernel)
  have evaluated : (play lossless (Session.start samplePipe)
      (writeSample (some 7) [1, 2, 3] ++ writeSample none [4] ++ readSample ++ readSample)).all
        fun s => s.received.length = 2 := by decide +kernel
  rw [played] at evaluated
  obtain ⟨-, -, received, -, -⟩ := fifo open?_sample (Reaches.of_play played)
  exact ⟨s, played, of_decide_eq_true evaluated, received⟩

/-- A message is not always read as it was written: an integer that the schema reserves for absence
is absent, a character beyond the low bytes loses its high bits, and six messages of 34 bytes in
all, each of them accepted, leave other bytes in the first one than it was written with. -/
theorem not_read_as_written :
    (play accepting (Session.start samplePipe)
      (writeSample (some Schema.defaultAbsentInt) [] ++ .flush :: readSample)).map
        Session.received =
      some [⟨some 0, [(.optionalInt, .optionalInt none), (.bytes, .bytes (some []))], 0⟩] ∧
    (play accepting (Session.start samplePipe)
      [.begin .plain 0, .put (.entry (.scalar (.optionalInt (some 7)))),
        .put (.entry (.content (.lowBytes (some "Ā")))), .confirm, .publish, .flush,
        .receive, .take .optionalInt, .take .ascii, .pass, .release]).map Session.received =
      some [⟨some 0, [(.optionalInt, .optionalInt (some 7)), (.ascii, .text (some "\x00"))], 1⟩] ∧
    (play accepting (Session.start samplePipe)
      (writeSample (some 1) [1, 2, 3, 4, 5, 6, 7, 8, 9] ++
        (List.replicate 5 (writeSample (some 2) [11, 12, 13, 14, 15])).flatten ++
        readSample)).map Session.received =
      some [⟨some 0, [(.optionalInt, .optionalInt (some 1)),
        (.bytes, .bytes (some [14, 15, 3, 4, 5, 6, 7, 8, 9]))], 9⟩] := by
  decide +kernel

end FragmentPipe
