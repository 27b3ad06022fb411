import FragmentPipe.Proofs.Transfer.Batching
import FragmentPipe.Proofs.Transfer.Fifo

/-!
The end of a pipe. The end mark is published with every fragment before it, and the place where it
lies tells from the released position whether all of them are given back. `Session.EndsAt` says how
a pipe goes on after its end mark. Main statement: `end_exact`, the end is reported neither too
early nor too late, and an end mark that is refused leaves no trace.
-/

namespace FragmentPipe

/-- Whether a call writes the end mark. -/
def Action.ends : Action → Bool
  | .finish => true
  | _ => false

/-- The calls that do not end the pipe; an end mark may be asked for, as long as it is refused. -/
def unended (s : Session) (a : Action) : Prop :=
  a.ends = true → s.pipe.publishEnd.1.isOk = false

instance (s : Session) (a : Action) : Decidable (unended s a) :=
  inferInstanceAs (Decidable (a.ends = true → s.pipe.publishEnd.1.isOk = false))

namespace Pipe

variable {p : Pipe}

/-- What a refused end mark leaves as it was: the writer's positions, the published heads, both
rings and the place of the end mark. -/
structure SameHeads (p q : Pipe) : Prop where
  producer : q.producer = p.producer
  slabHead : q.store.slabHead = p.store.slabHead
  blobHead : q.store.blobHead = p.store.blobHead
  slab : q.store.slab = p.store.slab
  blob : q.store.blob = p.store.blob
  endPosition : q.store.endPosition = p.store.endPosition

theorem publishEnd_of_room
    (room : p.producer.slabHead + endMarkSize ≤ p.store.slabTail + p.store.slab.size) :
    p.publishEnd = (.ok (), p.ended) := by
  unfold publishEnd
  dsimp only
  rw [if_neg (by omega)]
  rfl

theorem publishEnd_of_isOk (accepted : p.publishEnd.1.isOk = true) :
    p.producer.slabHead + endMarkSize ≤ p.store.slabTail + p.store.slab.size ∧
      p.publishEnd = (.ok (), p.ended) := by
  rcases p.publishEnd_eq with ⟨-, room, ended⟩ | ⟨e, events, cause, refused⟩
  · exact ⟨room, ended⟩
  · rw [refused] at accepted
    cases accepted

end Pipe

namespace Session

variable {s t u : Session} {a : Action} {k : Nat}

theorem finishAll_of_isOk (accepted : s.pipe.publishEnd.1.isOk = true) :
    s.finishAll = { s with pipe := s.pipe.ended, written := s.written ++ [.endMark] } := by
  obtain ⟨-, ended⟩ := Pipe.publishEnd_of_isOk accepted
  rw [finishAll, ended]

theorem sameHeads_finishAll (refused : s.pipe.publishEnd.1.isOk = false) :
    s.pipe.SameHeads s.finishAll.pipe := by
  unfold finishAll
  rcases s.pipe.publishEnd_eq with ⟨accepted, -, -⟩ | ⟨e, events, cause, asked⟩
  · rw [refused] at accepted
    cases accepted
  · rw [asked]
    exact ⟨rfl, rfl, rfl, rfl, rfl, rfl⟩

/-- Only an end mark that is accepted moves the place of the end mark. -/
theorem Change.same_endPosition (change : s.Change a t) (kept : unended s a) :
    t.pipe.store.endPosition = s.pipe.store.endPosition := by
  rcases change with writes | reads
  · cases writes with
    | published =>
      obtain ⟨_, _, _, _, _, _, moved⟩ := s.pipe.putByteCount.publishBatched_eq
      rw [moved]
      rfl
    | flushed =>
      obtain ⟨_, _, moved⟩ := s.pipe.flushPublished_eq
      rw [moved]
      rfl
    | finished idle room =>
      have refused := kept rfl
      rw [Pipe.publishEnd_of_room room] at refused
      cases refused
    | _ => rfl
  · cases reads with
    | opened =>
      unfold openNext
      split
      · rfl
      · rfl
    | @took c w e kind =>
      obtain ⟨_, _, moved⟩ := s.pipe.takeField_eq kind
      unfold takeNext
      dsimp only
      rw [moved]
      rfl
    | @released c =>
      obtain ⟨_, _, _, _, _, _, moved⟩ := s.pipe.takeByteCount.2.releaseBatched_eq
        s.pipe.takeByteCount.2.consumer.slabTail s.pipe.takeByteCount.2.consumer.blobTail
      have released : (s.releaseNext c).pipe = _ := moved
      rw [released]
      rfl
    | flushedReleased =>
      obtain ⟨_, _, moved⟩ := s.pipe.flushReleased_eq
      rw [moved]
      rfl
    | _ => rfl

/-! ## Before the end mark -/

theorem endPosition_of_reaches (run : Reaches unended s t) :
    t.pipe.store.endPosition = s.pipe.store.endPosition := by
  induction run with
  | refl => rfl
  | step _ kept call ih => exact ((change_of_step call).same_endPosition kept).trans ih

theorem Aligned.slabTail_le_of_reaches {rule : Session → Action → Prop} (aligned : s.Aligned)
    (run : Reaches rule s t) : s.pipe.store.slabTail ≤ t.pipe.store.slabTail := by
  induction run with
  | refl => exact Int.le_refl _
  | step run _ call ih =>
    exact Int.le_trans ih ((aligned_of_reaches aligned run).slabTail_le (change_of_step call))

/-- A pipe without an end mark is not at its end while its positions are below the largest 64 bit
number. -/
theorem isEnd_eq_false (endless : s.pipe.store.endPosition = noEnd)
    (word : s.pipe.store.slabTail < noEnd) : s.pipe.store.isEnd s.pipe.store.slabTail = false := by
  unfold Store.isEnd
  rw [endless]
  exact decide_eq_false (by omega)

/-! ## After the end mark -/

/-- The end mark is published behind `k` fragments, and the reader reads it as a message with the
number -1, without fields and bytes. -/
structure EndsAt (s : Session) (k : Nat) : Prop where
  recorded : s.Recorded
  mark : s.written[k]? = some .endMark
  visible : k < s.published
  place : s.pipe.store.endPosition = s.slabAt k
  reading : ∀ c, s.reading = some c → s.received.length = k → c.number = some (-1) ∧ c.fields = []
  received : ∀ c, s.received[k]? = some c → c = ⟨some (-1), [], 0⟩

theorem EndsAt.next (h : s.EndsAt k) (here : s.received.length = k) :
    s.next? = some .endMark := by
  rw [next?, here]
  exact h.mark

/-- The end mark is published with all that is written before it. -/
theorem endsAt_finish (h : s.Recorded) (idle : s.draft = none)
    (accepted : s.pipe.publishEnd.1.isOk = true) :
    s.finishAll.published = s.written.length + 1 ∧ s.finishAll.EndsAt s.written.length := by
  have room := (Pipe.publishEnd_of_isOk accepted).1
  have recorded := h.change (.inl (.finished idle room))
  have received_le := h.aligned.2.received_le
  have visible_le := h.aligned.1.visible_le
  have head := h.aligned.1.head
  rw [current_of_idle idle] at head
  rw [finishAll_of_isOk accepted]
  have all := recorded.aligned.1.published_of_head idle rfl
  have place : slabAt { s with pipe := s.pipe.ended, written := s.written ++ [.endMark] }
      s.written.length = s.slabAt s.written.length :=
    slabAt_eq_of_take rfl (take_of_append rfl) (Nat.le_refl _)
  rw [List.length_append] at all
  refine ⟨all, recorded, ?_, ?_, ?_, ?_, ?_⟩
  · exact List.getElem?_concat_length
  · rw [all]
    exact Nat.lt_succ_self _
  · exact (head.trans (Int.add_zero _)).trans place.symm
  · intro c reading here
    have behind := h.aligned.2.received_lt (by rw [show s.reading = some c from reading]; rfl)
    have same : s.received.length = s.written.length := here
    omega
  · intro c found
    obtain ⟨inside, -⟩ := List.getElem?_eq_some_iff.mp found
    have within : s.written.length < s.received.length := inside
    omega

/-- The writer touches neither the end mark nor what was read of it. -/
theorem EndsAt.of_written (h : s.EndsAt k) (change : s.WriterChange a t) (kept : unended s a) :
    t.EndsAt k := by
  have side := change.sameReader
  have place := Change.same_endPosition (.inl change) kept
  have visible := h.visible
  obtain ⟨shows, front⟩ := h.recorded.aligned.front (.inl change)
  constructor
  · exact h.recorded.change (.inl change)
  · rw [getElem?_eq_of_take front visible]
    exact h.mark
  · exact Nat.lt_of_lt_of_le visible shows
  · rw [place, slabAt_eq_of_take side.slabStart front (Nat.le_of_lt visible)]
    exact h.place
  · rw [side.reading, side.received]
    exact h.reading
  · rw [side.received]
    exact h.received

/-- What the reader holds of the end mark after its own call. -/
theorem EndsAt.read (h : s.EndsAt k) (change : s.ReaderChange a t) :
    (∀ c, t.reading = some c → t.received.length = k → c.number = some (-1) ∧ c.fields = []) ∧
      ∀ c, t.received[k]? = some c → c = ⟨some (-1), [], 0⟩ := by
  cases change with
  | looked => exact ⟨h.reading, h.received⟩
  | @opened w seen idle next =>
    unfold openNext
    cases message : w.number with
    | none =>
      refine ⟨?_, h.received⟩
      intro c reading here
      rw [h.next here] at next
      cases next
      cases message
    | some number =>
      refine ⟨?_, h.received⟩
      intro c reading here
      have found := takeMessage_fst h.recorded idle (h.next here) rfl
      cases reading
      exact ⟨congrArg some found, rfl⟩
  | @took c w e kind reading next entry =>
    refine ⟨?_, h.received⟩
    intro c' _ here
    -- The end mark has no field that could be taken.
    rw [h.next here] at next
    cases next
    cases entry
  | @passed c w reading next =>
    refine ⟨?_, h.received⟩
    intro c' again here
    cases again
    exact h.reading c reading here
  | @released c reading closed =>
    refine ⟨nofun, ?_⟩
    intro c' got
    have received : (s.releaseNext c).received =
        s.received ++ [⟨c.number, c.fields, s.pipe.takeByteCount.1⟩] := rfl
    rw [received] at got
    rcases getElem?_append_singleton got with ⟨-, before⟩ | ⟨rfl, rfl⟩
    · exact h.received c' before
    · obtain ⟨w, next, -, count⟩ :=
        takeByteCount_fst h.recorded.records h.recorded.aligned reading closed
      rw [h.next rfl] at next
      cases next
      obtain ⟨number, fields⟩ := h.reading c reading rfl
      rw [number, fields, count]
      rfl
  | flushedReleased =>
    obtain ⟨_, _, moved⟩ := s.pipe.flushReleased_eq
    rw [moved]
    exact ⟨h.reading, h.received⟩
  | releasedToHere => exact ⟨h.reading, h.received⟩

theorem EndsAt.change (h : s.EndsAt k) (change : s.Change a t) (kept : unended s a) :
    t.EndsAt k := by
  rcases change with writes | reads
  · exact h.of_written writes kept
  · have side := reads.sameWriter
    have place := Change.same_endPosition (.inr reads) kept
    obtain ⟨reading, received⟩ := h.read reads
    refine ⟨h.recorded.change (.inr reads), ?_, ?_, ?_, reading, received⟩
    · rw [side.written]
      exact h.mark
    · rw [side.published]
      exact h.visible
    · rw [place, side.slabAt]
      exact h.place

theorem endsAt_of_reaches (first : s.EndsAt k) (run : Reaches unended s t) : t.EndsAt k :=
  run.invariant first fun _ _ _ (ends : EndsAt _ k) kept call =>
    ends.change (change_of_step call) kept

/-- The pipe is at its end exactly if the fragments before the end mark are given back. -/
theorem EndsAt.isEnd_iff (h : s.EndsAt k) :
    s.pipe.store.isEnd s.pipe.store.slabTail = true ↔ k ≤ s.released := by
  have visible := h.visible
  have visible_le := h.recorded.aligned.1.visible_le
  rw [Store.isEnd, decide_eq_true_iff, h.place, h.recorded.aligned.2.given]
  constructor
  · intro reached
    rcases Nat.lt_or_ge s.released k with behind | through
    · have before := slabAt_lt (s := s) behind (by omega)
      omega
    · exact through
  · intro through
    exact s.slabAt_mono through

/-- The reader that has received the fragments before the end mark finds the mark. -/
theorem EndsAt.receive (h : s.EndsAt k) (idle : s.reading = none) (here : s.received.length = k) :
    ∃ t, s.step .receive = some t ∧ t.reading = some ⟨some (-1), [], false⟩ := by
  have content : s.pipe.hasContent.1 = true := by
    rw [h.recorded.aligned.hasContent_iff idle, here]
    exact h.visible
  have number := takeMessage_fst h.recorded idle (h.next here) rfl
  refine ⟨({ s with pipe := s.pipe.hasContent.2 }.openNext .endMark), ?_, ?_⟩
  · simp only [step, content, if_true, idle, h.next here]
  · show some (Reading.mk (some s.pipe.hasContent.2.takeMessage.1) [] false) = _
    rw [← number]
    rfl

end Session

/-- The end of a pipe is exact. In every run without an end mark, in batches of any sizes: where an
end mark is asked for between fragments and refused, the writer, the published heads, the rings and
the place of the end mark stay as they are. Where it is accepted, everything written is visible;
none of the states up to it is at the end, as long as the cells of the mark have 64 bit positions;
and after it the pipe is at its end exactly if all fragments are given back, the message that is
received after the last of them has the number -1, and it counts no bytes. -/
theorem end_exact {registry : Registry} {config : Config} {slab blob : Int} {p : Pipe} {s : Session}
    (prepared : registry.Prepares config slab blob p)
    (before : Reaches unended (Session.start p) s) (idle : s.draft = none) :
    (s.pipe.publishEnd.1.isOk = false → s.pipe.SameHeads s.finishAll.pipe) ∧
    (s.pipe.publishEnd.1.isOk = true →
      s.step .finish = some s.finishAll ∧
      s.finishAll.written = s.written ++ [.endMark] ∧
      s.finishAll.published = s.finishAll.written.length ∧
      (s.finishAll.pipe.store.slabHead ≤ noEnd →
        ∀ u, Reaches unended (Session.start p) u → Reaches unended u s →
          u.pipe.store.isEnd u.pipe.store.slabTail = false) ∧
      ∀ t, Reaches unended s.finishAll t →
        (t.pipe.store.isEnd t.pipe.store.slabTail = true ↔ s.written.length ≤ t.released) ∧
        (t.reading = none → t.received.length = s.written.length →
          ∃ u, t.step .receive = some u ∧ u.reading = some ⟨some (-1), [], false⟩) ∧
        ∀ c, t.received[s.written.length]? = some c → c = ⟨some (-1), [], 0⟩) := by
  have first := (Session.batched_of_prepares prepared).recorded
  have recorded := Session.recorded_of_reaches first before
  refine ⟨Session.sameHeads_finishAll, ?_⟩
  intro accepted
  obtain ⟨all, ends⟩ := Session.endsAt_finish recorded idle accepted
  have finished := Session.finishAll_of_isOk accepted
  refine ⟨?_, by rw [finished], ?_, ?_, ?_⟩
  · rw [Session.step, idle]
    rfl
  · rw [all, finished, List.length_append]
    rfl
  · intro word u early later
    have endless : u.pipe.store.endPosition = noEnd := by
      obtain ⟨q, publish, release, events, opened, rfl⟩ := prepared.eq_inBatches
      rw [Session.endPosition_of_reaches early, Registry.eq_of_open? opened]
      rfl
    have stop : s.finishAll.pipe.store.slabHead = s.pipe.producer.slabHead + endMarkSize := by
      rw [finished]
      rfl
    have tail := (Session.aligned_of_reaches first.aligned early).slabTail_le_of_reaches later
    have visible := recorded.aligned.tail_le_visible
    have head := recorded.aligned.visible_le_head
    refine Session.isEnd_eq_false endless ?_
    unfold endMarkSize at stop
    omega
  · intro t after
    have ended := Session.endsAt_of_reaches ends after
    exact ⟨ended.isEnd_iff, ended.receive, ended.received⟩

/-- A message that its batch holds back, and the end mark behind it; both are read. -/
theorem end_exact_sample :
    ∃ s t, play unended (Session.start samplePipe) (writeSample (some 7) [1, 2, 3]) = some s ∧
      s.published = 0 ∧ s.finishAll.published = 2 ∧
      samplePipe.store.isEnd samplePipe.store.slabTail = false ∧
      play unended s.finishAll (readSample ++ [.receive, .pass, .release]) = some t ∧
      t.received[1]? = some ⟨some (-1), [], 0⟩ ∧ t.released = 2 ∧
      t.pipe.store.isEnd t.pipe.store.slabTail = true := by
  obtain ⟨s, wrote⟩ : ∃ s, play unended (Session.start samplePipe)
      (writeSample (some 7) [1, 2, 3]) = some s := Option.isSome_iff_exists.mp (by decide +kernel)
  have before : (play unended (Session.start samplePipe) (writeSample (some 7) [1, 2, 3])).all
      fun s => s.draft.isNone ∧ s.pipe.publishEnd.1.isOk = true ∧ s.published = 0 ∧
        s.written.length = 1 ∧ s.finishAll.pipe.store.slabHead ≤ noEnd := by decide +kernel
  have after : (play unended (Session.start samplePipe) (writeSample (some 7) [1, 2, 3])).all
      fun s => (play unended s.finishAll (readSample ++ [.receive, .pass, .release])).any
        fun t => t.received.length = 2 ∧ t.released = 2 := by decide +kernel
  rw [wrote, Option.all_some] at before after
  obtain ⟨idle, accepted, held, one, word⟩ := of_decide_eq_true before
  obtain ⟨t, read, checked⟩ := (Option.any_eq_true ..).mp after
  obtain ⟨two, released⟩ := of_decide_eq_true checked
  have run := Reaches.of_play wrote
  obtain ⟨-, accepts⟩ := end_exact (.opened open?_sample) run (Option.isNone_iff_eq_none.mp idle)
  obtain ⟨-, written, all, early, late⟩ := accepts accepted
  obtain ⟨ended, -, receipt⟩ := late t (Reaches.of_play read)
  rw [one] at ended receipt
  have last : t.received[1]? = some t.received[1] := List.getElem?_eq_getElem (by omega)
  refine ⟨s, t, wrote, held, ?_, early word _ .refl run, read, ?_, released, ?_⟩
  · rw [all, written, List.length_append, one]
    rfl
  · rw [last, receipt _ last]
  · rw [ended, released]
    decide

end FragmentPipe
