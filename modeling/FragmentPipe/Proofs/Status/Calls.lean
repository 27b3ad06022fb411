import FragmentPipe.Consume.Replay
import FragmentPipe.Produce.Publish
import FragmentPipe.Produce.Room
import FragmentPipe.Proofs.Status.Shutdown
import FragmentPipe.Proofs.Transfer.Change

/-!
The calls of both sides of a pipe and what they do to its status. A `Move` can not fail, an
`Attempt` can. Main statements: `Move.calm` and `Attempt.reacts`.
-/

namespace FragmentPipe

/-! ## Calls that can not fail -/

/-- A call of either side that can not fail. A stream is told by the place where it begins, the
bytes written and the room that it has. -/
inductive Move where
  | hasRoom (size : Int)
  | confirmWrite (size : Int)
  | scalar (value : Scalar)
  | fill (value : Int32) (position : Int)
  | null
  | stream (start : Int) (written room : Nat) (chunk : Chunk)
  | publish
  | publishBatched
  | flushPublished
  | abandonWrites
  | markHead
  | resetHead
  | setMaxPublishBatch
  | hasContent
  | hasContentSized (size : Int)
  | confirmRead (size : Int)
  | takeMessage
  | take (kind : FieldKind)
  | takeDescriptor
  | locate (offset length : Int)
  | readBytes (d : Descriptor)
  | readLowBytes (d : Descriptor)
  | readUtf8 (d : Descriptor)
  | readOptionalBytes (d : Descriptor)
  | readOptionalLowBytes (d : Descriptor)
  | readOptionalUtf8 (d : Descriptor)
  | view
  | addToView (v : FieldView)
  /-- Decodes text in a view, which reports what is broken. -/
  | decodeView (v : FieldView) (count : Nat)
  | release
  | flushReleased
  | releaseToHere
  | holdReleases
  | deferRelease
  | releaseDeferred
  | releaseAllDeferred
  | releaseBytes (count : Int)
  | setMaxReleaseBatch
  | replay
  | cancelReplay

/-- Makes the call. -/
def Move.run (p : Pipe) : Move → Pipe
  | hasRoom size => (p.hasRoom size).2
  | confirmWrite size => p.confirmWrite size
  | scalar value => value.put p
  | fill value position => p.fillInt value position
  | null => p.putNull
  | stream start written room chunk => (chunk.write ⟨p, start, written, room⟩).pipe
  | publish => p.publishFragment.2
  | publishBatched => p.publishBatched
  | flushPublished => p.flushPublished
  | abandonWrites => p.abandonWrites
  | markHead => p.markHead
  | resetHead => p.resetHead
  | setMaxPublishBatch => p.setMaxPublishBatch
  | hasContent => p.hasContent.2
  | hasContentSized size => (p.hasContentSized size).2
  | confirmRead size => p.confirmRead size
  | takeMessage => p.takeMessage.2
  | take kind => (p.takeField kind).2
  | takeDescriptor => p.takeDescriptor.2
  | locate offset length => (p.locate offset length).2
  | readBytes d => (p.readBytes d).2
  | readLowBytes d => (p.readLowBytes d).2
  | readUtf8 d => (p.readUtf8 d).2
  | readOptionalBytes d => (Pipe.readPresent Pipe.readBytes p d).2
  | readOptionalLowBytes d => (Pipe.readPresent Pipe.readLowBytes p d).2
  | readOptionalUtf8 d => (Pipe.readPresent Pipe.readUtf8 p d).2
  | view => (FieldView.openField p).2.2
  | addToView v => (v.addField p).2.2
  | decodeView v count => { p with store := p.store.reportAll (v.decodeText p.store count).1.2 }
  | release => p.releaseFragment.2
  | flushReleased => p.flushReleased
  | releaseToHere => p.releaseToHere
  | holdReleases => p.holdReleases
  | deferRelease => p.deferRelease.2
  | releaseDeferred => p.releaseDeferred.2
  | releaseAllDeferred => p.releaseAllDeferred
  | releaseBytes count => p.releaseDeferredBytes count
  | setMaxReleaseBatch => p.setMaxReleaseBatch
  | replay => p.replay
  | cancelReplay => p.cancelReplay

/-! ### What decoders report -/

namespace Utf8

variable {σ : Type} [ByteStore σ]

theorem causesOf_readContinuations (s : σ) (start : Int) (offset bits count : Nat) :
    causesOf (readContinuations s start offset bits count).events = [] := by
  induction count generalizing offset bits with
  | zero => rfl
  | succ count ih =>
    rw [readContinuations]
    split
    · exact ih _ _
    · unfold Step.broken
      split <;> rfl

theorem causesOf_decodeStep (s : σ) (position : Int) :
    causesOf (decodeStep s position).events = [] := by
  unfold decodeStep
  split
  · rfl
  · exact causesOf_readContinuations s position 0 _ _
  · rfl

/-- A decoder reports broken text and nothing else. -/
theorem causesOf_decodeRun (s : σ) (position : Int) (length : Nat) :
    causesOf (decodeRun s position length).2 = [] := by
  fun_induction decodeRun s position length with
  | case1 => rfl
  | case2 position length more step rest ih =>
    rw [Store.causesOf_append, ih, causesOf_decodeStep]
    rfl

end Utf8

/-! ### Reading -/

namespace Pipe

variable {p q : Pipe}

/-- Nothing that has to do with the status changes. -/
abbrev Calm (p q : Pipe) : Prop := p.store.SameStatus q.store

theorem calm_rfl (p : Pipe) : p.Calm p := .refl p.store

theorem calm_report (p : Pipe) {event : Event} (quiet : event.cause? = none) :
    p.Calm (p.report event) := Store.sameStatus_report quiet

theorem Calm.report (calm : p.Calm q) {event : Event} (quiet : event.cause? = none) :
    p.Calm (q.report event) := calm.trans (q.calm_report quiet)

theorem calm_locate (p : Pipe) (offset length : Int) : p.Calm (p.locate offset length).2 := by
  unfold locate
  split
  · exact p.calm_rfl
  · exact p.calm_rfl

theorem calm_passField (p : Pipe) (d : Descriptor) : p.Calm (p.passField d) := by
  unfold passField
  split
  · exact p.calm_locate _ _
  · exact p.calm_rfl

theorem calm_readBytes (p : Pipe) (d : Descriptor) : p.Calm (p.readBytes d).2 := by
  unfold readBytes
  split
  · exact p.calm_rfl
  · exact p.calm_passField d

theorem calm_readLowBytes (p : Pipe) (d : Descriptor) : p.Calm (p.readLowBytes d).2 :=
  p.calm_readBytes d

theorem causesOf_decodeField (p : Pipe) (d : Descriptor) : causesOf (p.decodeField d).2 = [] := by
  unfold decodeField
  split
  · exact Utf8.causesOf_decodeRun _ _ _
  · exact Utf8.causesOf_decodeRun _ _ _

theorem calm_readUtf8 (p : Pipe) (d : Descriptor) : p.Calm (p.readUtf8 d).2 := by
  unfold readUtf8
  split
  · exact p.calm_rfl
  · exact (p.calm_passField d).trans (Store.sameStatus_reportAll (p.causesOf_decodeField d))

theorem calm_readPresent {α : Type} {read : Pipe → Descriptor → (Nat × α) × Pipe}
    (calm : ∀ (p : Pipe) (d : Descriptor), p.Calm (read p d).2) (p : Pipe) (d : Descriptor) :
    p.Calm (readPresent read p d).2 := by
  unfold readPresent
  split
  · exact p.calm_rfl
  · exact calm p d

theorem calm_takeField (p : Pipe) (kind : FieldKind) : p.Calm (p.takeField kind).2 := by
  cases kind with
  | ascii => exact calm_readPresent calm_readLowBytes p.takeDescriptor.2 p.takeDescriptor.1
  | utf8 => exact calm_readPresent calm_readUtf8 p.takeDescriptor.2 p.takeDescriptor.1
  | bytes => exact calm_readPresent calm_readBytes p.takeDescriptor.2 p.takeDescriptor.1
  | _ => exact p.calm_rfl

theorem calm_openField (p : Pipe) : p.Calm (FieldView.openField p).2.2 := by
  unfold FieldView.openField
  dsimp only
  split
  · exact p.calm_rfl
  · exact p.takeDescriptor.2.calm_locate _ _

theorem calm_addField (v : FieldView) (p : Pipe) : p.Calm (v.addField p).2.2 := by
  unfold FieldView.addField
  dsimp only
  split
  · exact p.calm_openField
  · split
    · exact p.takeDescriptor.2.calm_locate _ _
    · exact p.calm_rfl

theorem calm_decodeView (p : Pipe) (v : FieldView) (count : Nat) :
    p.Calm { p with store := p.store.reportAll (v.decodeText p.store count).1.2 } := by
  refine Store.sameStatus_reportAll ?_
  unfold FieldView.decodeText
  dsimp only
  split
  · exact Utf8.causesOf_decodeRun _ _ _
  · exact Utf8.causesOf_decodeRun _ _ _

/-! ### Publishing and releasing -/

theorem calm_publishBatched (p : Pipe) : p.Calm p.publishBatched := by
  obtain ⟨_, _, _, _, _, _, moved⟩ := p.publishBatched_eq
  rw [moved]
  exact ⟨rfl, rfl, rfl⟩

theorem calm_publishFragment (p : Pipe) : p.Calm p.publishFragment.2 := by
  have counted : p.Calm p.putByteCount := ⟨rfl, rfl, rfl⟩
  exact counted.trans p.putByteCount.calm_publishBatched

theorem calm_flushPublished (p : Pipe) : p.Calm p.flushPublished := by
  obtain ⟨_, _, moved⟩ := p.flushPublished_eq
  rw [moved]
  exact ⟨rfl, rfl, rfl⟩

theorem calm_releaseBatched (p : Pipe) (slabTail blobTail : Int) :
    p.Calm (p.releaseBatched slabTail blobTail) := by
  obtain ⟨_, _, _, _, _, _, moved⟩ := p.releaseBatched_eq slabTail blobTail
  rw [moved]
  exact ⟨rfl, rfl, rfl⟩

theorem calm_flushReleased (p : Pipe) : p.Calm p.flushReleased := by
  obtain ⟨_, _, moved⟩ := p.flushReleased_eq
  rw [moved]
  exact ⟨rfl, rfl, rfl⟩

theorem calm_releaseDeferred (p : Pipe) : p.Calm p.releaseDeferred.2 := by
  unfold releaseDeferred
  split
  · exact p.calm_rfl
  · next entry rest _ =>
    exact calm_releaseBatched { p with consumer.deferred := rest } entry.slabTail entry.blobTail

theorem calm_releaseEntries (p : Pipe) (entries : List Deferred) :
    p.Calm (p.releaseEntries entries) := by
  induction entries generalizing p with
  | nil => exact p.calm_rfl
  | cons entry rest ih => exact (p.calm_releaseBatched _ _).trans (ih _)

theorem calm_releaseBytes (p : Pipe) (count : Int) (entries : List Deferred) :
    p.Calm (p.releaseBytes count entries) := by
  induction entries generalizing p count with
  | nil => exact p.calm_rfl
  | cons entry rest ih =>
    rw [releaseBytes]
    split
    · exact p.calm_rfl
    · split
      · exact (p.calm_releaseBatched _ _).trans (ih _ _)
      · exact ⟨rfl, rfl, rfl⟩

theorem calm_rememberPlace (p : Pipe) : p.Calm p.rememberPlace := by
  unfold rememberPlace
  split
  · exact p.calm_rfl
  · exact p.calm_rfl

theorem calm_replay (p : Pipe) : p.Calm p.replay := by
  refine p.calm_rememberPlace.trans ⟨rfl, rfl, ?_⟩
  show causesOf (p.rememberPlace.store.events ++ [_]) = causesOf p.rememberPlace.store.events
  rw [Store.causesOf_append]
  exact List.append_nil _

end Pipe

/-- What can not fail leaves the status alone. -/
theorem Move.calm (m : Move) (p : Pipe) : p.Calm (m.run p) := by
  cases m with
  | scalar value => cases value <;> exact ⟨rfl, rfl, rfl⟩
  | stream start written room chunk =>
    obtain ⟨bytes, stored⟩ := chunk.extends ⟨p, start, written, room⟩
    rw [run, stored]
    exact ⟨rfl, rfl, rfl⟩
  | publish => exact p.calm_publishFragment
  | publishBatched => exact p.calm_publishBatched
  | flushPublished => exact p.calm_flushPublished
  | setMaxPublishBatch => exact p.calm_report rfl
  | take kind => exact p.calm_takeField kind
  | locate offset length => exact p.calm_locate offset length
  | readBytes d => exact p.calm_readBytes d
  | readLowBytes d => exact p.calm_readLowBytes d
  | readUtf8 d => exact p.calm_readUtf8 d
  | readOptionalBytes d => exact Pipe.calm_readPresent Pipe.calm_readBytes p d
  | readOptionalLowBytes d => exact Pipe.calm_readPresent Pipe.calm_readLowBytes p d
  | readOptionalUtf8 d => exact Pipe.calm_readPresent Pipe.calm_readUtf8 p d
  | view => exact p.calm_openField
  | addToView v => exact p.calm_addField v
  | decodeView v count => exact p.calm_decodeView v count
  | release => exact p.takeByteCount.2.calm_releaseBatched _ _
  | flushReleased => exact p.calm_flushReleased
  | releaseDeferred => exact p.calm_releaseDeferred
  | releaseAllDeferred => exact Pipe.calm_releaseEntries { p with consumer.deferred := [] } _
  | releaseBytes count => exact p.calm_releaseBytes count _
  | setMaxReleaseBatch => exact p.calm_report rfl
  | replay => exact p.calm_replay
  | _ => exact ⟨rfl, rfl, rfl⟩

/-! ## Calls that can fail -/

/-- A call of either side that can fail. Giving a stream up is closing its field. -/
inductive Attempt where
  | awaitRoom (size : Int)
  | awaitMessage (message : Int32)
  | tryMessage (message : Int32)
  | startMessage (message : Int32)
  | publishEnd
  | checkLength (length : Int)
  | put (value : Content)
  | putIntText (value : Int32)
  | putLongText (value : Int64)
  | putDecimalText (places : Nat) (mantissa : Int64)
  | openField
  | closeField
  | openStream
  | finish (start : Int) (written room : Nat)
  | setPublishBatch (size : Nat)
  | setPublishRegulator (r : Regulator)
  | awaitContent
  | writeFieldTo (sink : Sink)
  | setReleaseBatch (size : Nat)
  | setReleaseRegulator (r : Regulator)
  /-- Writes bytes in view of another pipe. -/
  | copyInto (v : FieldView) (source : Store) (limit : Nat)
  | copyWithin (v : FieldView) (limit : Nat)

/-- Makes the call. -/
def Attempt.run (p : Pipe) : Attempt → Answer × Pipe
  | awaitRoom size => (.ofWait (p.awaitRoom size).1, (p.awaitRoom size).2)
  | awaitMessage message => (.ofWait (p.awaitMessage message).1, (p.awaitMessage message).2)
  | tryMessage message => (.ofExcept (p.tryMessage message).1, (p.tryMessage message).2)
  | startMessage message => (.ofExcept (p.startMessage message).1, (p.startMessage message).2)
  | publishEnd => (.ofExcept p.publishEnd.1, p.publishEnd.2)
  | checkLength length => (.ofExcept (p.checkLength length).1, (p.checkLength length).2)
  | put value => (.ofExcept (value.put p).1, (value.put p).2)
  | putIntText value => (.ofExcept (p.putIntText value).1, (p.putIntText value).2)
  | putLongText value => (.ofExcept (p.putLongText value).1, (p.putLongText value).2)
  | putDecimalText places mantissa =>
    (.ofExcept (p.putDecimalText places mantissa).1, (p.putDecimalText places mantissa).2)
  | openField => (.ofExcept p.openField.1, p.openField.2)
  | closeField => (.ofExcept p.closeField.1, p.closeField.2)
  | openStream => (.ofExcept p.openStream.1, p.openStream.2)
  | finish start written room =>
    (.ofExcept (FieldWriter.mk p start written room).finish.1,
      (FieldWriter.mk p start written room).finish.2)
  | setPublishBatch size => (.ofExcept (p.setPublishBatch size).1, (p.setPublishBatch size).2)
  | setPublishRegulator r => (.ofExcept (p.setPublishRegulator r).1, (p.setPublishRegulator r).2)
  | awaitContent => (.ofWait p.awaitContent.1, p.awaitContent.2)
  | writeFieldTo sink => (.ofExcept (p.writeFieldTo sink).1, (p.writeFieldTo sink).2.2)
  | setReleaseBatch size => (.ofExcept (p.setReleaseBatch size).1, (p.setReleaseBatch size).2)
  | setReleaseRegulator r => (.ofExcept (p.setReleaseRegulator r).1, (p.setReleaseRegulator r).2)
  | copyInto v source limit =>
    (.ofExcept (v.copyInto source p limit).1, (v.copyInto source p limit).2.2)
  | copyWithin v limit => (.ofExcept (v.copyWithin p limit).1, (v.copyWithin p limit).2.2)

namespace Pipe

variable {p q : Pipe}

/-- What a call that may be refused answers, beside what it does to the status. -/
def Reacts {α : Type} (p : Pipe) (result : Except PipeError α × Pipe) : Prop :=
  p.store.Reacts (.ofExcept result.1) result.2.store

/-- What a call that may have to wait answers, beside what it does to the status. -/
def Waits {α : Type} (p : Pipe) (result : Wait α × Pipe) : Prop :=
  p.store.Reacts (.ofWait result.1) result.2.store

theorem Reacts.ok {α : Type} {a : α} (calm : p.Calm q) : p.Reacts (.ok a, q) := .done calm

/-- A call that came to its end left the status alone. -/
theorem Reacts.calm {α : Type} {a : α}
    (reacts : p.Reacts ((.ok a, q) : Except PipeError α × Pipe)) : p.Calm q := by
  cases reacts with
  | done calm => exact calm

/-- A refusal that leaves the pipe as it was. -/
theorem Reacts.refused {α : Type} {e : PipeError} (mild : e.shutsDownPipe = false) :
    p.Reacts ((.error e, p) : Except PipeError α × Pipe) := .mild p.calm_rfl mild

/-- A refusal for which the pipe is shut down. -/
theorem Reacts.shutdown {α : Type} {e : PipeError} {cause : String} (calm : p.Calm q)
    (stops : e.stops = true) :
    p.Reacts ((.error e, (q.shutdown cause).2) : Except PipeError α × Pipe) :=
  .stopped (.trans (.same calm) (q.store.follows_shutdown cause))
    (q.store.isShutdown_shutdown cause) stops

/-- A call that goes on where another one did not fail. -/
theorem Reacts.after {α : Type} {result : Except PipeError α × Pipe} (calm : p.Calm q)
    (reacts : q.Reacts result) : p.Reacts result := by
  refine Store.Reacts.after calm reacts ?_
  intro first
  cases result.1 <;> nofun

/-! ### Lengths -/

theorem reacts_checkLength (p : Pipe) (length : Int) : p.Reacts (p.checkLength length) := by
  unfold checkLength
  split
  · have reported : p.Calm (p.report (.varLengthRefused p.store.id length (p.nextAverage length)
        p.store.config.maxAverage p.store.config.slabBits p.store.config.blobBits
        (p.suggestedBits length))) := p.calm_report rfl
    exact .shutdown reported rfl
  · exact .ok ⟨rfl, rfl, rfl⟩

/-- What is done with a length that passed the check may not touch the status. -/
theorem reacts_of_checked {α : Type} {length : Int} {next : Pipe → Except PipeError α × Pipe}
    (reacts : ∀ q : Pipe, q.Reacts (next q)) :
    p.Reacts (match p.checkLength length with
      | (.error e, p) => (.error e, p)
      | (.ok _, p) => next p) := by
  have checked := p.reacts_checkLength length
  split
  · next same =>
    rw [same] at checked
    exact checked
  · next same =>
    rw [same] at checked
    exact .after checked.calm (reacts _)

/-! ### Fields -/

theorem reacts_putField (p : Pipe) (checked : Int)
    (fill : Ring UInt8 → Int → Int × Ring UInt8) : p.Reacts (p.putField checked fill) :=
  reacts_of_checked fun _ => .ok ⟨rfl, rfl, rfl⟩

theorem reacts_putBytes (p : Pipe) (bytes : List UInt8) : p.Reacts (p.putBytes bytes) :=
  p.reacts_putField _ _

theorem reacts_putLowBytes (p : Pipe) (text : Option String) : p.Reacts (p.putLowBytes text) := by
  cases text with
  | none => exact .ok ⟨rfl, rfl, rfl⟩
  | some text => exact p.reacts_putBytes _

theorem reacts_putUtf8 (p : Pipe) (text : Option String) : p.Reacts (p.putUtf8 text) := by
  cases text with
  | none => exact .ok ⟨rfl, rfl, rfl⟩
  | some text => exact p.reacts_putBytes _

theorem reacts_putPieces (p : Pipe) (source : Option (List (List UInt8))) :
    p.Reacts ((Content.pieces source).put p) := by
  show p.Reacts ((p.putPieces source).1, (p.putPieces source).2.2)
  have checked := p.reacts_checkLength (fieldLength (source.getD []).flatten.length)
  unfold putPieces
  dsimp only
  split
  · exact .ok ⟨rfl, rfl, rfl⟩
  · generalize p.checkLength (fieldLength (source.getD []).flatten.length) = result at checked ⊢
    obtain ⟨answer, q⟩ := result
    cases answer with
    | error e => exact checked
    | ok u => exact .ok (checked.calm.trans ⟨rfl, rfl, rfl⟩)

theorem reacts_putConstant (p : Pipe) (offset length : Int) :
    p.Reacts (p.putConstant offset length) := by
  unfold putConstant
  dsimp only
  split
  · exact .refused rfl
  · exact .ok ⟨rfl, rfl, rfl⟩

theorem reacts_putFromStream (p : Pipe) (source : List Delivery) (count : Nat) :
    p.Reacts ((Content.stream source count).put p) := by
  show p.Reacts ((p.putFromStream source count).1, (p.putFromStream source count).2.2)
  have checked := p.reacts_checkLength (fieldLength count)
  unfold putFromStream
  generalize p.checkLength (fieldLength count) = result at checked ⊢
  obtain ⟨answer, q⟩ := result
  cases answer with
  | error e => exact checked
  | ok u =>
    have calm := checked.calm
    dsimp only
    split
    · exact .mild (calm.trans ⟨rfl, rfl, rfl⟩) rfl
    · exact .ok (calm.trans ⟨rfl, rfl, rfl⟩)

theorem reacts_put (p : Pipe) (value : Content) : p.Reacts (value.put p) := by
  cases value with
  | bytes data => exact p.reacts_putBytes data
  | pieces source => exact p.reacts_putPieces source
  | lowBytes text => exact p.reacts_putLowBytes text
  | utf8 text => exact p.reacts_putUtf8 text
  | null => exact .ok ⟨rfl, rfl, rfl⟩
  | constant offset length => exact p.reacts_putConstant _ _
  | stream source count => exact p.reacts_putFromStream source count

theorem reacts_putDecimalText (p : Pipe) (places : Nat) (mantissa : Int64) :
    p.Reacts (p.putDecimalText places mantissa) := by
  unfold putDecimalText
  split
  · exact .refused rfl
  · exact p.reacts_putField _ _

/-! ### Streams -/

theorem reacts_openField (p : Pipe) : p.Reacts p.openField := by
  unfold openField
  split
  · exact .shutdown p.calm_rfl rfl
  · exact .ok ⟨rfl, rfl, rfl⟩

theorem reacts_closeField (p : Pipe) : p.Reacts p.closeField := by
  unfold closeField
  split
  · exact .ok ⟨rfl, rfl, rfl⟩
  · exact .shutdown p.calm_rfl rfl

theorem reacts_openStream (p : Pipe) : p.Reacts p.openStream := by
  have opened := p.reacts_openField
  unfold openStream
  generalize p.openField = result at opened ⊢
  obtain ⟨answer, q⟩ := result
  cases answer with
  | error e => exact opened
  | ok u => exact .ok opened.calm

/-- A field that is finished is closed even where its length is refused. -/
theorem reacts_finish (w : FieldWriter) : w.pipe.Reacts w.finish := by
  have checked := w.pipe.reacts_checkLength w.written
  unfold FieldWriter.finish
  generalize w.pipe.checkLength w.written = result at checked ⊢
  obtain ⟨answer, q⟩ := result
  have closes : q.Calm { q with producer.fieldOpen := false } := ⟨rfl, rfl, rfl⟩
  unfold closeField
  by_cases isOpen : q.producer.fieldOpen = true
  · simp only [if_pos isOpen]
    cases answer with
    | error e => exact Store.Reacts.before checked closes
    | ok u => exact .ok (checked.calm.trans ⟨rfl, rfl, rfl⟩)
  · simp only [if_neg isOpen]
    exact .stopped (checked.follows.trans (q.store.follows_shutdown _))
      (q.store.isShutdown_shutdown _) rfl

/-! ### Messages -/

theorem calm_hasRoom (p : Pipe) (size : Int) : p.Calm (p.hasRoom size).2 := ⟨rfl, rfl, rfl⟩

/-- A wait that found nothing is told what interrupts it. -/
theorem waits_of_interruption {α : Type} (calm : p.Calm q) : p.Waits
    ((match q.store.interruption with
      | some e => (.failed e, q)
      | none => (.blocked, q)) : Wait α × Pipe) := by
  split
  · next e interrupted =>
    exact Store.Reacts.after calm (Store.reacts_interruption interrupted) nofun
  · exact .done calm

theorem waits_awaitRoom (p : Pipe) (size : Int) : p.Waits (p.awaitRoom size) := by
  have looked := p.calm_hasRoom size
  unfold awaitRoom
  dsimp only
  split
  · exact .done looked
  · exact waits_of_interruption looked

theorem waits_awaitContent (p : Pipe) : p.Waits p.awaitContent := by
  have looked : p.Calm p.hasContent.2 := ⟨rfl, rfl, rfl⟩
  unfold awaitContent
  dsimp only
  split
  · exact .done looked
  · exact waits_of_interruption looked

theorem messageSize_mild {message : Int32} {e : PipeError}
    (refused : p.messageSize message = .error e) : e.shutsDownPipe = false := by
  unfold messageSize at refused
  dsimp only at refused
  split at refused
  · split at refused
    · cases refused
    · cases refused
      rfl
  · cases refused
    rfl

theorem reacts_refuseFragment (calm : p.Calm q) (size : Nat) :
    p.Reacts (q.refuseFragment size) := by
  unfold refuseFragment
  exact .shutdown (calm.report rfl) rfl

theorem reacts_startMessage (p : Pipe) (message : Int32) : p.Reacts (p.startMessage message) := by
  unfold startMessage
  split
  · next e refused => exact .refused (messageSize_mild refused)
  · next size _ =>
    dsimp only
    split
    · exact .ok ⟨rfl, rfl, rfl⟩
    · refine reacts_refuseFragment ?_ size
      exact ⟨rfl, rfl, rfl⟩

theorem reacts_tryMessage (p : Pipe) (message : Int32) : p.Reacts (p.tryMessage message) := by
  unfold tryMessage
  split
  · next e refused => exact .refused (messageSize_mild refused)
  · next size known =>
    have looked := p.calm_hasRoom size
    have started := (p.hasRoom size).2.reacts_startMessage message
    dsimp only
    split
    · generalize (p.hasRoom size).2.startMessage message = result at started ⊢
      obtain ⟨answer, q⟩ := result
      have whole := Reacts.after looked started
      cases answer with
      | ok n => exact whole
      | error e => exact whole
    · exact .ok looked

theorem waits_awaitMessage (p : Pipe) (message : Int32) : p.Waits (p.awaitMessage message) := by
  unfold awaitMessage
  split
  · next e refused => exact .mild p.calm_rfl (messageSize_mild refused)
  · next size known =>
    have waited := p.waits_awaitRoom size
    generalize p.awaitRoom size = result at waited ⊢
    obtain ⟨answer, q⟩ := result
    cases answer with
    | blocked => exact waited
    | failed e => exact waited
    | done u =>
      cases waited with
      | done calm =>
        have started := Reacts.after calm (q.reacts_startMessage message)
        dsimp only
        generalize q.startMessage message = result at started ⊢
        obtain ⟨answer, r⟩ := result
        cases answer with
        | ok n => exact started
        | error e => exact started

theorem reacts_publishEnd (p : Pipe) : p.Reacts p.publishEnd := by
  unfold publishEnd
  dsimp only
  split
  · exact .shutdown p.calm_rfl rfl
  · refine .ok (.report ?_ rfl)
    exact ⟨rfl, rfl, rfl⟩

/-! ### Settings -/

theorem reacts_setPublishBatch (p : Pipe) (size : Nat) : p.Reacts (p.setPublishBatch size) := by
  unfold setPublishBatch
  dsimp only
  split
  · exact .refused rfl
  · exact .ok (p.calm_report rfl)

theorem reacts_setReleaseBatch (p : Pipe) (size : Nat) : p.Reacts (p.setReleaseBatch size) := by
  unfold setReleaseBatch
  dsimp only
  split
  · exact .refused rfl
  · exact .ok (p.calm_report rfl)

theorem reacts_setPublishRegulator (p : Pipe) (r : Regulator) :
    p.Reacts (p.setPublishRegulator r) := by
  unfold setPublishRegulator
  split
  · exact .refused rfl
  · exact .ok ⟨rfl, rfl, rfl⟩

theorem reacts_setReleaseRegulator (p : Pipe) (r : Regulator) :
    p.Reacts (p.setReleaseRegulator r) := by
  unfold setReleaseRegulator
  split
  · exact .refused rfl
  · exact .ok ⟨rfl, rfl, rfl⟩

/-! ### Fields that leave the pipe -/

theorem reacts_writeFieldTo (p : Pipe) (sink : Sink) :
    p.Reacts ((p.writeFieldTo sink).1, (p.writeFieldTo sink).2.2) := by
  have passed : p.Calm (p.takeDescriptor.2.passField p.takeDescriptor.1) :=
    p.takeDescriptor.2.calm_passField p.takeDescriptor.1
  unfold writeFieldTo
  dsimp only
  split
  · exact .ok ⟨rfl, rfl, rfl⟩
  · split
    · exact .ok passed
    · exact .mild passed rfl

/-- A copy fails as the field does that is written. -/
theorem reacts_copied {result : Except PipeError Unit × Pipe} {v w : FieldView} {count : Nat}
    {copied : Except PipeError Nat × FieldView × Pipe}
    (same : copied = match result with
      | (.error e, p) => (.error e, v, p)
      | (.ok _, p) => (.ok count, w, p))
    (put : p.Reacts result) : p.Reacts (copied.1, copied.2.2) := by
  obtain ⟨answer, q⟩ := result
  cases answer with
  | ok u => rw [same]; exact put
  | error e => rw [same]; exact put

theorem reacts_copyInto (p : Pipe) (v : FieldView) (source : Store) (limit : Nat) :
    p.Reacts ((v.copyInto source p limit).1, (v.copyInto source p limit).2.2) :=
  reacts_copied rfl (p.reacts_putField _ _)

theorem reacts_copyWithin (p : Pipe) (v : FieldView) (limit : Nat) :
    p.Reacts ((v.copyWithin p limit).1, (v.copyWithin p limit).2.2) := by
  unfold FieldView.copyWithin
  split
  · exact p.reacts_copyInto v p.store limit
  · exact reacts_copied rfl (p.reacts_putField _ _)

end Pipe

/-- What can fail shuts the pipe down exactly where its error says so. -/
theorem Attempt.reacts (a : Attempt) (p : Pipe) : p.store.Reacts (a.run p).1 (a.run p).2.store := by
  cases a with
  | awaitRoom size => exact p.waits_awaitRoom size
  | awaitMessage message => exact p.waits_awaitMessage message
  | tryMessage message => exact p.reacts_tryMessage message
  | startMessage message => exact p.reacts_startMessage message
  | publishEnd => exact p.reacts_publishEnd
  | checkLength length => exact p.reacts_checkLength length
  | put value => exact p.reacts_put value
  | putIntText value => exact p.reacts_putField _ _
  | putLongText value => exact p.reacts_putField _ _
  | putDecimalText places mantissa => exact p.reacts_putDecimalText places mantissa
  | openField => exact p.reacts_openField
  | closeField => exact p.reacts_closeField
  | openStream => exact p.reacts_openStream
  | finish start written room => exact Pipe.reacts_finish ⟨p, start, written, room⟩
  | setPublishBatch size => exact p.reacts_setPublishBatch size
  | setPublishRegulator r => exact p.reacts_setPublishRegulator r
  | awaitContent => exact p.waits_awaitContent
  | writeFieldTo sink => exact p.reacts_writeFieldTo sink
  | setReleaseBatch size => exact p.reacts_setReleaseBatch size
  | setReleaseRegulator r => exact p.reacts_setReleaseRegulator r
  | copyInto v source limit => exact p.reacts_copyInto v source limit
  | copyWithin v limit => exact p.reacts_copyWithin v limit

end FragmentPipe
