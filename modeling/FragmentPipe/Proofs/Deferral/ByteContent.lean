import FragmentPipe.Proofs.Deferral.Replay
import FragmentPipe.Proofs.Deferral.Tails

/-!
How many bytes are not given back. The writer and the handle measure them on the circle of the blob,
the writer up to where it stands and the handle up to where it was noted last. `Session.givenAlong`
is how far the blob tail has come along all bytes, told by the fragments that are given back and by
what is put off. Main statement: `byteContent_exact`, with every release in turn what is measured is
the difference to what is written, up to whole turns of the blob, and so it is exact as long as less
than one turn is not given back; between fragments the handle measures the same.
-/

namespace FragmentPipe

/-! ## What is noted of the writer -/

namespace Pipe

variable (p : Pipe)

theorem notedHead_releaseBatched (slabTail blobTail : Int) :
    (p.releaseBatched slabTail blobTail).store.noted.blobHead = p.store.noted.blobHead := by
  by_cases complete : p.consumer.countdown - 1 ≤ 0
  · rw [releaseBatched_of_complete complete]
  · rw [releaseBatched_of_partial complete]

theorem notedHead_flushReleased :
    p.flushReleased.store.noted.blobHead = p.store.noted.blobHead := by
  obtain ⟨_, _, moved⟩ := p.flushReleased_eq
  rw [moved]
  rfl

theorem notedHead_releaseDeferred :
    p.releaseDeferred.2.store.noted.blobHead = p.store.noted.blobHead := by
  unfold releaseDeferred
  split
  · rfl
  · exact notedHead_releaseBatched _ _ _

theorem notedHead_releaseEntries (entries : List Deferred) :
    (p.releaseEntries entries).store.noted.blobHead = p.store.noted.blobHead := by
  induction entries generalizing p with
  | nil => rfl
  | cons entry rest ih => exact (ih _).trans (p.notedHead_releaseBatched _ _)

theorem notedHead_releaseBytes (count : Int) (entries : List Deferred) :
    (p.releaseBytes count entries).store.noted.blobHead = p.store.noted.blobHead := by
  induction entries generalizing p count with
  | nil => rfl
  | cons entry rest ih =>
    unfold releaseBytes
    split
    · rfl
    · split
      · exact (ih _ _).trans (p.notedHead_releaseBatched _ _)
      · rfl

end Pipe

namespace Session

variable {s t : Session} {a : Action} {c : Call}

/-- The writer is noted at the base of its fragment, behind all that are finished. -/
def NotedAtBase (s : Session) : Prop :=
  s.pipe.store.noted.blobHead = s.pipe.producer.writeBase

theorem NotedAtBase.of_written (noted : s.NotedAtBase) (b : s.BlobAt)
    (change : s.WriterChange a t) : t.NotedAtBase := by
  unfold NotedAtBase at noted ⊢
  cases change with
  | begun idle => exact noted.trans (b.base.trans (b.head_idle idle).symm)
  | published =>
    by_cases complete : s.pipe.putByteCount.producer.countdown - 1 ≤ 0
    · rw [Pipe.publishBatched_of_complete complete]
      rfl
    · rw [Pipe.publishBatched_of_partial complete]
      rfl
  | flushed =>
    obtain ⟨_, _, moved⟩ := s.pipe.flushPublished_eq
    rw [moved]
    exact noted
  | abandoned => rfl
  | finished idle => exact (b.head_idle idle).trans b.base.symm
  | _ => exact noted

/-- A plain call that gives nothing back leaves alone what is noted of the writer, or is one of the
writer. -/
theorem NotedAtBase.change (noted : s.NotedAtBase) (b : s.BlobAt) (change : s.Change a t)
    (quiet : a.endsReleasing = false) : t.NotedAtBase := by
  rcases change with writes | reads
  · exact noted.of_written b writes
  · unfold NotedAtBase at noted ⊢
    cases reads with
    | opened =>
      unfold openNext
      split
      · exact noted
      · exact noted
    | @took c w e kind =>
      obtain ⟨_, _, moved⟩ := s.pipe.takeField_eq kind
      unfold takeNext
      dsimp only
      rw [moved]
      exact noted
    | released => cases quiet
    | flushedReleased => cases quiet
    | releasedToHere => cases quiet
    | _ => exact noted

theorem NotedAtBase.of_keeps {p q : Pipe} (noted : p.store.noted.blobHead = p.producer.writeBase)
    (keeps : p.Keeps q) (same : q.store.noted.blobHead = p.store.noted.blobHead) :
    q.store.noted.blobHead = q.producer.writeBase := by
  rw [same, keeps.producer]
  exact noted

theorem NotedAtBase.call (noted : s.NotedAtBase) (b : s.BlobAt) (change : s.CallChange c t) :
    t.NotedAtBase := by
  cases change with
  | quiet change quiet => exact noted.change b change quiet
  | released =>
    exact of_keeps (p := s.pipe.takeByteCount.2) noted (Pipe.keeps_releaseBatched ..)
      (Pipe.notedHead_releaseBatched ..)
  | flushed => exact of_keeps noted s.pipe.keeps_flushReleased s.pipe.notedHead_flushReleased
  | releasedDeferred =>
    exact of_keeps noted s.pipe.keeps_releaseDeferred s.pipe.notedHead_releaseDeferred
  | releasedAll =>
    exact of_keeps noted s.pipe.keeps_releaseAllDeferred (Pipe.notedHead_releaseEntries ..)
  | releasedBytes =>
    exact of_keeps noted (s.pipe.keeps_releaseBytes _ _) (Pipe.notedHead_releaseBytes ..)
  | releasedToHere | deferred | batched => exact noted

/-! ## How far the blob tail has come -/

/-- How far the blob tail comes by a call: to the end of the fragments that are given back then, if
it is not further already, and with bytes that end within a fragment to those of it that are still
put off. -/
def givenAfter (s : Session) (c : Call) (t : Session) (x : Int) : Int :=
  if c.Whole s then max x (t.blobAt t.released)
  else t.owedFrom (t.received.length - t.pipe.consumer.deferred.length) t.pipe.consumer.deferred

/-- How far the blob tail comes by calls one after the other. -/
def givenAlong (s : Session) (x : Int) (calls : List Call) : Int := s.along givenAfter x calls

/-- The state of a run with every release in turn, with the blob tail `x` along the bytes. -/
structure Reckoned (s : Session) (x : Int) : Prop where
  recorded : s.settled.Recorded
  marked : s.Marked false
  noted : s.NotedAtBase
  owes : ∃ r k y, s.Owes s.pipe r k s.pipe.consumer.deferred x y ∧ s.HeldTo k x y

variable {x : Int}

/-- Only bytes that are given back can end within a fragment. -/
theorem releaseBytes_of_not_whole (call : s.call c = some t) (part : ¬c.Whole s) :
    ∃ count, t = { s with pipe := s.pipe.releaseDeferredBytes count } ∧
      Deferred.stopsInside count s.pipe.consumer.deferred = true := by
  cases c with
  | releaseBytes count =>
    cases call
    exact ⟨count, rfl, Bool.not_eq_false _ ▸ part⟩
  | _ => exact absurd trivial part

theorem Reckoned.call (g : s.Reckoned x) (call : s.call c = some t) (turn : inTurn s c t) :
    t.Reckoned (s.givenAfter c t x) := by
  obtain ⟨h, m, noted, r, k, y, o, held⟩ := g
  have change := callChange_of_call call
  obtain ⟨-, _, _, -, h', m', -⟩ := Orderly.call ⟨h, m, k, y, o⟩ call turn
  refine ⟨h', m', noted.call { h.blob with } change, ?_⟩
  unfold givenAfter
  by_cases whole : c.Whole s
  · obtain ⟨r', k', x', y', -, -, o', place⟩ := o.call h m change turn
    obtain ⟨held', place⟩ := place held
    rw [if_pos whole, o'.released_eq h', ← place whole]
    exact ⟨r', k', y', o', held'⟩
  · obtain ⟨count, rfl, inside⟩ := releaseBytes_of_not_whole call whole
    obtain ⟨r', k', x', y', -, -, o', place⟩ := o.releaseBytes rfl count
    obtain ⟨held', place⟩ := place held
    have length := o'.queued.length
    rw [if_pos inside] at place
    have settled : s.received.length -
        (s.pipe.releaseBytes count s.pipe.consumer.deferred).consumer.deferred.length = k' := by
      omega
    have far : Session.owedFrom { s with pipe := s.pipe.releaseDeferredBytes count }
        (s.received.length -
          (s.pipe.releaseBytes count s.pipe.consumer.deferred).consumer.deferred.length)
        (s.pipe.releaseBytes count s.pipe.consumer.deferred).consumer.deferred = x' := by
      rw [settled, place]
      rfl
    have after := o'.of_keeps (s.pipe.keeps_releaseBytes _ _)
    rw [← far] at after held'
    rw [if_neg whole]
    exact ⟨r', k', y', after, held'⟩

theorem reckoned_of_prepares {registry : Registry} {config : Config} {slab blob : Int} {p : Pipe}
    (prepared : registry.Prepares config slab blob p) :
    (Session.start p).Reckoned p.store.blobHead := by
  obtain ⟨h, m, -⟩ := orderly_of_prepares prepared
  refine ⟨h, m, ?_, 0, 0, _, owes_of_prepares prepared, ?_⟩
  · obtain ⟨q, publish, release, events, opened, rfl⟩ := prepared.eq_inBatches
    rw [Registry.eq_of_open? opened]
    rfl
  · show p.store.blobHead = max p.store.blobHead (p.store.blobHead + 0)
    omega

/-! ## What is measured -/

/-- The bytes are measured right, where the blob tail has come as far as `given`: by the writer all
that is written, and by the handle the fragments that are finished. -/
structure MeasuresContent (s : Session) (given : Int) : Prop where
  tail : s.pipe.store.blobTail % (s.pipe.store.config.blobSize : Int) =
    given % (s.pipe.store.config.blobSize : Int)
  released : s.blobAt s.released ≤ given
  received : given ≤ s.blobAt s.received.length
  low : 0 ≤ s.pipe.bytesOfContent
  high : s.pipe.bytesOfContent < s.pipe.store.config.blobSize
  turns : s.pipe.bytesOfContent =
    (s.blobAt s.written.length + s.current.taken - given) % s.pipe.store.config.blobSize
  exactly : s.blobAt s.written.length + s.current.taken - given < s.pipe.store.config.blobSize →
    s.pipe.bytesOfContent = s.blobAt s.written.length + s.current.taken - given
  shown : ∀ h : Handle, (h.withPipe s.pipe).bytesOfContent =
    .ok ((s.blobAt s.written.length - given) % s.pipe.store.config.blobSize)
  agreed : s.draft = none →
    ∀ h : Handle, (h.withPipe s.pipe).bytesOfContent = .ok s.pipe.bytesOfContent

theorem Reckoned.measuresContent (g : s.Reckoned x) : s.MeasuresContent x := by
  obtain ⟨h, -, noted, r, k, y, o, -⟩ := g
  have size : s.pipe.store.blob.size = s.pipe.store.config.blobSize := h.size
  have positive := s.pipe.store.blob.size_pos
  have upto := Int.le_trans o.high o.queued.owedFrom_le
  have inside : s.received.length ≤ s.written.length :=
    Nat.le_trans h.aligned.2.received_le h.aligned.1.visible_le
  have written := s.blobAt_mono inside
  have tail : s.pipe.store.blobTail % (s.pipe.store.blob.size : Int) = _ := o.byte
  have head : s.pipe.producer.blobHead % (s.pipe.store.blob.size : Int) =
      (s.blobAt s.written.length + s.current.taken) % (s.pipe.store.blob.size : Int) :=
    h.head_emod
  have start : s.pipe.producer.writeBase = s.blobAt s.written.length % blobSpan := h.blob.base
  have base : s.pipe.store.noted.blobHead % (s.pipe.store.blob.size : Int) =
      s.blobAt s.written.length % (s.pipe.store.blob.size : Int) := by
    rw [noted, start]
    exact Int.emod_emod_of_dvd _ h.turn
  have turns : s.pipe.bytesOfContent =
      (s.blobAt s.written.length + s.current.taken - x) % (s.pipe.store.blob.size : Int) := by
    rw [Pipe.bytesOfContent_eq, Int.sub_emod, head, tail, ← Int.sub_emod]
  have shown (handle : Handle) : (handle.withPipe s.pipe).bytesOfContent =
      .ok ((s.blobAt s.written.length - x) % (s.pipe.store.blob.size : Int)) := by
    show Except.ok (s.pipe.store.bytesUpTo s.pipe.store.noted.blobHead) = _
    rw [Store.bytesUpTo_eq, Int.sub_emod, base, tail, ← Int.sub_emod]
  rw [size] at positive tail turns shown
  constructor
  · exact tail
  · rw [o.released_eq h]
    exact o.low
  · exact upto
  · exact s.pipe.bytesOfContent_bounds.1
  · rw [turns]
    exact Int.emod_lt_of_pos _ (by omega)
  · exact turns
  · intro few
    rw [turns]
    exact Int.emod_eq_of_lt (by omega) few
  · exact shown
  · intro idle handle
    have nothing : (s.current.taken : Int) = 0 := by
      rw [current_of_idle idle]
      rfl
    rw [shown, turns, nothing, Int.add_zero]

end Session

/-- What is measured of the bytes that are not given back is right. Wherever the blob begins, in
every run with the releases in turn, at once or put off, whole or by bytes, in batches of any size
and with flushes, with fragments given up and end marks, the writer measures how far all that it has
written and not given up is ahead of the blob tail, up to whole turns of the blob. So this is the
exact number as long as it is less than the size of the blob. The handle measures the same between
fragments. -/
theorem byteContent_exact {registry : Registry} {config : Config} {slab blob : Int} {p : Pipe}
    {s : Session} {calls : List Call} (prepared : registry.Prepares config slab blob p)
    (run : Session.perform inTurn (Session.start p) calls = some s) :
    s.pipe.store.config = config ∧
      s.MeasuresContent ((Session.start p).givenAlong p.store.blobHead calls) := by
  have same := Session.config_of_prepares prepared (Session.Runs.refl.of_perform run)
  have reckoned : s.Reckoned ((Session.start p).givenAlong p.store.blobHead calls) :=
    Session.along_of_perform Session.Reckoned.call (Session.reckoned_of_prepares prepared) run
  exact ⟨same, reckoned.measuresContent⟩

/-- Four of the five bytes are given back, and two more are written of a message that is not
finished. -/
theorem byteContent_exact_sample :
    ∃ s, Session.perform inTurn (Session.start samplePipe)
        (byBytes ++ (writeSample none [6, 7]).dropLast.map .plain) = some s ∧
      (Session.start samplePipe).givenAlong 30
        (byBytes ++ (writeSample none [6, 7]).dropLast.map .plain) = 34 ∧
      s.pipe.bytesOfContent = 3 ∧ s.MeasuresContent 34 := by
  have evaluated : (Session.perform inTurn (Session.start samplePipe)
      (byBytes ++ (writeSample none [6, 7]).dropLast.map .plain)).any fun s =>
        s.pipe.bytesOfContent = 3 := by decide +kernel
  obtain ⟨s, performed, checked⟩ := (Option.any_eq_true ..).mp evaluated
  have given : (Session.start samplePipe).givenAlong 30
      (byBytes ++ (writeSample none [6, 7]).dropLast.map .plain) = 34 := by decide +kernel
  obtain ⟨-, measured⟩ := byteContent_exact (.opened open?_sample) performed
  exact ⟨s, performed, given, of_decide_eq_true checked, given ▸ measured⟩

end FragmentPipe
