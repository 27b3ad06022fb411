import FragmentPipe.Proofs.Deferral.Calls
import FragmentPipe.Proofs.Transfer.Reading
import FragmentPipe.Stream.FieldView

/-!
A reader that puts releases off, beside one that releases every fragment when it ends. `Dues` is what
releases look at and change; looking at fragments does neither (`Look.unaware`). The second reader
always stands where the first one would if it made up for all that it put off (`Pipe.MadeUp`), but for
the positions noted for display, which the end of a fragment notes anew. Main statement:
`postponed_eq_prompt`, once everything is made up for nothing tells the two apart.
-/

namespace FragmentPipe

/-! ## Looking -/

/-- A call of the reader that looks at what is published or moves within it, by what it answers. -/
inductive Look : Type → Type where
  | hasContent : Look Bool
  | hasContentSized (size : Int) : Look Bool
  | awaitContent : Look (Wait Unit)
  | confirmRead (size : Int) : Look Unit
  | peekInt (offset : Int) : Look Int32
  | peekLong (offset : Int) : Look Int64
  | takeMessage : Look Int32
  | take (kind : FieldKind) : Look FieldValue
  | takeDescriptor : Look Descriptor
  | locate (offset length : Int) : Look Int
  | readBytes (d : Descriptor) : Look (Nat × List UInt8)
  | readLowBytes (d : Descriptor) : Look (Nat × String)
  | readUtf8 (d : Descriptor) : Look (Nat × String)
  | readOptionalBytes (d : Descriptor) : Look (Option (List UInt8))
  | readOptionalLowBytes (d : Descriptor) : Look (Option String)
  | readOptionalUtf8 (d : Descriptor) : Look (Option String)
  | equalsText (d : Descriptor) (text : String) : Look Bool
  | equalsBytes (d : Descriptor) (bytes : List UInt8) : Look Bool
  | writeFieldTo (sink : Sink) : Look (Except PipeError Int × Sink)
  | view : Look (Int × FieldView)
  | addToView (v : FieldView) : Look (Int × FieldView)
  | readView (v : FieldView) (limit : Nat) : Look (List UInt8 × FieldView)
  /-- Decodes text in a view, which reports what is broken. -/
  | decodeView (v : FieldView) (count : Nat) : Look (List Nat)

/-- Makes the call. -/
def Look.run {α : Type} (l : Look α) (p : Pipe) : α × Pipe :=
  match l with
  | hasContent => p.hasContent
  | hasContentSized size => p.hasContentSized size
  | awaitContent => p.awaitContent
  | confirmRead size => ((), p.confirmRead size)
  | peekInt offset => (p.peekInt offset, p)
  | peekLong offset => (p.peekLong offset, p)
  | takeMessage => p.takeMessage
  | take kind => p.takeField kind
  | takeDescriptor => p.takeDescriptor
  | locate offset length => p.locate offset length
  | readBytes d => p.readBytes d
  | readLowBytes d => p.readLowBytes d
  | readUtf8 d => p.readUtf8 d
  | readOptionalBytes d => Pipe.readPresent Pipe.readBytes p d
  | readOptionalLowBytes d => Pipe.readPresent Pipe.readLowBytes p d
  | readOptionalUtf8 d => Pipe.readPresent Pipe.readUtf8 p d
  | equalsText d text => (p.fieldEqualsText d text, p)
  | equalsBytes d bytes => (p.fieldEqualsBytes d bytes, p)
  | writeFieldTo sink =>
    let (answer, sink, p) := p.writeFieldTo sink
    ((answer, sink), p)
  | view =>
    let (length, v, p) := FieldView.openField p
    ((length, v), p)
  | addToView v =>
    let (length, v, p) := v.addField p
    ((length, v), p)
  | readView v limit => (v.read p.store limit, p)
  | decodeView v count =>
    let decoded := (v.decodeText p.store count).1
    (decoded.1, { p with store := p.store.reportAll decoded.2 })

/-! ## What releases are about -/

/-- What releases look at and change, and how the reader's position is noted. -/
structure Dues where
  slabTail : Int
  blobTail : Int
  noted : Noted
  countdown : Int
  batch : Int
  heldSlab : Int
  heldBlob : Int
  deferred : List Deferred
  regulator : Option Regulator
  delay : Nat

namespace Dues

variable {d d' : Dues} {slab blob : Int} {e : Deferred} {queue : List Deferred}

/-- Notes a position of the reader. -/
def note (d : Dues) (slab blob : Int) : Dues :=
  { d with noted := { d.noted with slabTail := slab, blobTail := blob } }

/-- Publishes the end of a fragment when a batch is complete, and otherwise remembers it. -/
def release (d : Dues) (e : Deferred) : Dues :=
  if d.countdown - 1 ≤ 0 then
    let asked := Regulator.askOption d.regulator e.slabTail
    { d with
      slabTail := e.slabTail
      blobTail := e.blobTail
      countdown := d.batch
      delay := asked.1
      regulator := asked.2 }
  else
    { d with countdown := d.countdown - 1, heldSlab := e.slabTail, heldBlob := e.blobTail }

/-- With another queue. -/
def withQueue (d : Dues) (queue : List Deferred) : Dues := { d with deferred := queue }

/-- With everything released that is put off. -/
def settled (d : Dues) : Dues := d.deferred.foldl release (d.withQueue [])

/-- The cells about which the regulator is asked while fragments are released. -/
def asks (d : Dues) : List Deferred → List Int
  | [] => []
  | e :: rest =>
    if d.countdown - 1 ≤ 0 then e.slabTail :: (d.release e).asks rest else (d.release e).asks rest

/-- The same but for the position noted. -/
def Alike (d d' : Dues) : Prop := ∀ slab blob, d.note slab blob = d'.note slab blob

theorem Alike.refl (d : Dues) : d.Alike d := fun _ _ => rfl

theorem alike_note (d : Dues) (slab blob : Int) : (d.note slab blob).Alike d := fun _ _ => rfl

theorem Alike.symm (same : d.Alike d') : d'.Alike d := fun slab blob => (same slab blob).symm

theorem Alike.trans {c : Dues} (first : c.Alike d) (second : d.Alike d') : c.Alike d' :=
  fun slab blob => (first slab blob).trans (second slab blob)

theorem release_note (d : Dues) (slab blob : Int) (e : Deferred) :
    (d.note slab blob).release e = (d.release e).note slab blob := by
  unfold release
  split
  · next complete => exact (if_pos complete).symm ▸ rfl
  · next part => exact (if_neg part).symm ▸ rfl

theorem release_withQueue (d : Dues) (queue : List Deferred) (e : Deferred) :
    (d.withQueue queue).release e = (d.release e).withQueue queue := by
  unfold release
  split
  · next complete => exact (if_pos complete).symm ▸ rfl
  · next part => exact (if_neg part).symm ▸ rfl

theorem foldl_release_withQueue (d : Dues) (queue queue' : List Deferred) :
    queue'.foldl release (d.withQueue queue) = (queue'.foldl release d).withQueue queue := by
  induction queue' generalizing d with
  | nil => rfl
  | cons e rest ih => rw [List.foldl_cons, release_withQueue, ih, List.foldl_cons]

theorem Alike.release (same : d.Alike d') (e : Deferred) : (d.release e).Alike (d'.release e) := by
  intro slab blob
  rw [← release_note, same, release_note]

theorem Alike.foldl_release (same : d.Alike d') (queue : List Deferred) :
    (queue.foldl Dues.release d).Alike (queue.foldl Dues.release d') := by
  induction queue generalizing d d' with
  | nil => exact same
  | cons e rest ih => exact ih (same.release e)

end Dues

namespace Pipe

/-- What the releases of a pipe are about. -/
def dues (p : Pipe) : Dues where
  slabTail := p.store.slabTail
  blobTail := p.store.blobTail
  noted := p.store.noted
  countdown := p.consumer.countdown
  batch := p.consumer.batch
  heldSlab := p.consumer.heldSlab
  heldBlob := p.consumer.heldBlob
  deferred := p.consumer.deferred
  regulator := p.consumer.regulator
  delay := p.consumer.delay

/-- The pipe with other dues. -/
def withDues (p : Pipe) (d : Dues) : Pipe :=
  { p with
    store.slabTail := d.slabTail
    store.blobTail := d.blobTail
    store.noted := d.noted
    consumer.countdown := d.countdown
    consumer.batch := d.batch
    consumer.heldSlab := d.heldSlab
    consumer.heldBlob := d.heldBlob
    consumer.deferred := d.deferred
    consumer.regulator := d.regulator
    consumer.delay := d.delay }

/-- The dues with the reader's position noted. -/
def notedIn (p : Pipe) (d : Dues) : Dues := d.note p.consumer.slabTail p.consumer.blobTail

variable {p p' q : Pipe} {d : Dues}

theorem withDues_dues (p : Pipe) : p.withDues p.dues = p := rfl

@[simp] theorem dues_withDues (p : Pipe) (d : Dues) : (p.withDues d).dues = d := rfl

theorem releaseBatched_eq_withDues (p : Pipe) (e : Deferred) :
    p.releaseBatched e.slabTail e.blobTail = p.withDues (p.notedIn (p.dues.release e)) := by
  unfold releaseBatched Dues.release
  by_cases complete : p.consumer.countdown - 1 ≤ 0
  · have same : p.dues.countdown - 1 ≤ 0 := complete
    rw [if_pos same]
    simp only [if_pos complete]
    rfl
  · have same : ¬p.dues.countdown - 1 ≤ 0 := complete
    rw [if_neg same]
    simp only [if_neg complete]
    rfl

theorem releaseEntries_eq_withDues (p : Pipe) (queue : List Deferred) :
    ∃ d, p.releaseEntries queue = p.withDues d ∧ d.Alike (queue.foldl Dues.release p.dues) := by
  induction queue generalizing p with
  | nil => exact ⟨p.dues, rfl, .refl _⟩
  | cons e rest ih =>
    obtain ⟨d, same, alike⟩ := ih (p.withDues (p.notedIn (p.dues.release e)))
    have noted := Dues.alike_note (p.dues.release e) p.consumer.slabTail p.consumer.blobTail
    refine ⟨d, ?_, alike.trans (noted.foldl_release rest)⟩
    rw [releaseEntries, releaseBatched_eq_withDues, same]
    rfl

theorem releaseEntries_append (p : Pipe) (queue queue' : List Deferred) :
    p.releaseEntries (queue ++ queue') = (p.releaseEntries queue).releaseEntries queue' := by
  induction queue generalizing p with
  | nil => rfl
  | cons e rest ih => exact ih _

end Pipe

/-! ## Looking is not about releases -/

namespace Pipe

/-- A call that neither looks at dues nor changes them. -/
def Unaware {α : Type} (read : Pipe → α × Pipe) : Prop :=
  ∀ (p : Pipe) (d : Dues), read (p.withDues d) = ((read p).1, (read p).2.withDues d)

variable {p p' q : Pipe} {d : Dues}

/-- The dues are those from before. -/
theorem Unaware.dues_eq {α : Type} {read : Pipe → α × Pipe} (unaware : Unaware read) (p : Pipe) :
    (read p).2.dues = p.dues := by
  have same := unaware p p.dues
  rw [withDues_dues] at same
  rw [same, dues_withDues]

theorem unaware_locate (offset length : Int) : Unaware fun p => p.locate offset length := by
  intro p d
  show (p.withDues d).locate offset length = _
  unfold locate
  by_cases present : 0 ≤ length
  · simp only [if_pos present]
    rfl
  · simp only [if_neg present]
    rfl

theorem passField_withDues (p : Pipe) (d : Dues) (f : Descriptor) :
    (p.withDues d).passField f = (p.passField f).withDues d := by
  unfold passField
  split
  · next offset _ => exact congrArg Prod.snd (unaware_locate offset f.length p d)
  · rfl

theorem unaware_readBytes (f : Descriptor) : Unaware fun p => p.readBytes f := by
  intro p d
  show (p.withDues d).readBytes f = _
  unfold readBytes
  by_cases absent : f.length ≤ 0
  · simp only [if_pos absent]
  · simp only [if_neg absent, passField_withDues]
    rfl

theorem unaware_readLowBytes (f : Descriptor) : Unaware fun p => p.readLowBytes f := by
  intro p d
  show (p.withDues d).readLowBytes f = _
  have same := unaware_readBytes f p d
  unfold readLowBytes
  simp only [same]

theorem unaware_readUtf8 (f : Descriptor) : Unaware fun p => p.readUtf8 f := by
  intro p d
  show (p.withDues d).readUtf8 f = _
  have same : (p.withDues d).decodeField f = p.decodeField f := rfl
  unfold readUtf8
  by_cases absent : f.length ≤ 0
  · simp only [if_pos absent]
  · simp only [if_neg absent, passField_withDues, same]
    rfl

theorem unaware_readPresent {α : Type} {read : Pipe → Descriptor → (Nat × α) × Pipe}
    (unaware : ∀ f, Unaware fun p => read p f) (f : Descriptor) :
    Unaware fun p => readPresent read p f := by
  intro p d
  show readPresent read (p.withDues d) f = _
  have same := unaware f p d
  unfold readPresent
  by_cases absent : f.length < 0
  · simp only [if_pos absent]
  · simp only [if_neg absent, same]

theorem unaware_takeField (kind : FieldKind) : Unaware fun p => p.takeField kind := by
  intro p d
  have low := unaware_readPresent unaware_readLowBytes p.takeDescriptor.1 p.takeDescriptor.2 d
  have text := unaware_readPresent unaware_readUtf8 p.takeDescriptor.1 p.takeDescriptor.2 d
  have raw := unaware_readPresent unaware_readBytes p.takeDescriptor.1 p.takeDescriptor.2 d
  cases kind with
  | ascii => exact congrArg (fun read => (FieldValue.text read.1, read.2)) low
  | utf8 => exact congrArg (fun read => (FieldValue.text read.1, read.2)) text
  | bytes => exact congrArg (fun read => (FieldValue.bytes read.1, read.2)) raw
  | _ => rfl

theorem unaware_writeFieldTo (sink : Sink) : Unaware (Look.writeFieldTo sink).run := by
  intro p d
  have taken : (p.withDues d).takeDescriptor =
      (p.takeDescriptor.1, p.takeDescriptor.2.withDues d) := rfl
  have bytes : (p.takeDescriptor.2.withDues d).fieldBytes p.takeDescriptor.1 =
      p.takeDescriptor.2.fieldBytes p.takeDescriptor.1 := rfl
  unfold Look.run writeFieldTo
  simp only [taken]
  by_cases absent : p.takeDescriptor.1.length ≤ 0
  · simp only [if_pos absent]
  · simp only [if_neg absent, passField_withDues, bytes]
    split
    · rfl
    · rfl

theorem unaware_openField : Unaware Look.view.run := by
  intro p d
  have taken : (p.withDues d).takeDescriptor =
      (p.takeDescriptor.1, p.takeDescriptor.2.withDues d) := rfl
  unfold Look.run FieldView.openField
  simp only [taken]
  cases p.takeDescriptor.1.origin with
  | constants offset => rfl
  | blob offset =>
    have located := unaware_locate offset p.takeDescriptor.1.length p.takeDescriptor.2 d
    simp only [located]

theorem unaware_addField (v : FieldView) : Unaware (Look.addToView v).run := by
  intro p d
  have taken : (p.withDues d).takeDescriptor =
      (p.takeDescriptor.1, p.takeDescriptor.2.withDues d) := rfl
  unfold Look.run FieldView.addField
  by_cases fresh : v.length ≤ 0
  · simp only [if_pos fresh]
    exact unaware_openField p d
  · simp only [if_neg fresh, taken]
    by_cases more : 0 < p.takeDescriptor.1.length
    · have located := unaware_locate p.takeDescriptor.1.origin.offset p.takeDescriptor.1.length
        p.takeDescriptor.2 d
      simp only [if_pos more, located]
    · simp only [if_neg more]

theorem unaware_awaitContent : Unaware Look.awaitContent.run := by
  intro p d
  have found : (p.withDues d).hasContent = (p.hasContent.1, p.hasContent.2.withDues d) := rfl
  have stopped : (p.hasContent.2.withDues d).store.interruption =
      p.hasContent.2.store.interruption := rfl
  unfold Look.run awaitContent
  simp only [found, stopped]
  split
  · rfl
  · split
    · rfl
    · rfl

end Pipe

/-- Looking neither depends on what is released or put off nor changes it. -/
theorem Look.unaware {α : Type} (l : Look α) : Pipe.Unaware l.run := by
  cases l with
  | awaitContent => exact Pipe.unaware_awaitContent
  | take kind => exact Pipe.unaware_takeField kind
  | locate offset length => exact Pipe.unaware_locate offset length
  | readBytes d => exact Pipe.unaware_readBytes d
  | readLowBytes d => exact Pipe.unaware_readLowBytes d
  | readUtf8 d => exact Pipe.unaware_readUtf8 d
  | readOptionalBytes d => exact Pipe.unaware_readPresent Pipe.unaware_readBytes d
  | readOptionalLowBytes d => exact Pipe.unaware_readPresent Pipe.unaware_readLowBytes d
  | readOptionalUtf8 d => exact Pipe.unaware_readPresent Pipe.unaware_readUtf8 d
  | writeFieldTo sink => exact Pipe.unaware_writeFieldTo sink
  | view => exact Pipe.unaware_openField
  | addToView v => exact Pipe.unaware_addField v
  | _ => exact fun _ _ => rfl

/-! ## Making up for what was put off -/

namespace Pipe

variable {p p' q : Pipe} {d : Dues} {e : Deferred} {rest : List Deferred}

/-- The second pipe is the first one with everything released that is put off, wherever the reader's
position was noted last. -/
def MadeUp (p p' : Pipe) : Prop := ∃ d, p' = p.withDues d ∧ d.Alike p.dues.settled

/-- Looking keeps it, and answers both alike. -/
theorem MadeUp.look {α : Type} {read : Pipe → α × Pipe} (made : p.MadeUp p')
    (unaware : Unaware read) : (read p').1 = (read p).1 ∧ (read p).2.MadeUp (read p').2 := by
  obtain ⟨d, rfl, alike⟩ := made
  rw [unaware p d]
  exact ⟨rfl, d, rfl, by rwa [unaware.dues_eq p]⟩

theorem releaseDeferred_cons (queue : p.consumer.deferred = e :: rest) :
    p.releaseDeferred.2 = p.withDues (p.notedIn ((p.dues.withQueue rest).release e)) := by
  have popped : p.releaseDeferred.2 =
      (p.withDues (p.dues.withQueue rest)).releaseBatched e.slabTail e.blobTail := by
    rw [releaseDeferred, queue]
    rfl
  rw [popped, releaseBatched_eq_withDues]
  rfl

theorem releaseDeferred_nil (queue : p.consumer.deferred = []) : p.releaseDeferred.2 = p := by
  rw [releaseDeferred, queue]

theorem releaseAllDeferred_eq (p : Pipe) :
    p.releaseAllDeferred = (p.withDues (p.dues.withQueue [])).releaseEntries p.dues.deferred := rfl

theorem releaseAllDeferred_nil (queue : p.consumer.deferred = []) : p.releaseAllDeferred = p := by
  have same : p.dues.withQueue [] = p.dues := by
    show { p.dues with deferred := [] } = p.dues
    rw [← queue]
    rfl
  have empty : p.dues.deferred = [] := queue
  rw [releaseAllDeferred_eq, same, empty]
  rfl

/-- What is released one by one is what is released in the end. -/
theorem releaseAllDeferred_releaseDeferred (p : Pipe) :
    p.releaseDeferred.2.releaseAllDeferred = p.releaseAllDeferred := by
  cases queue : p.consumer.deferred with
  | nil => rw [releaseDeferred_nil queue]
  | cons e rest =>
    have all : p.dues.deferred = e :: rest := queue
    rw [releaseDeferred_cons queue, releaseAllDeferred_eq p, all, releaseEntries,
      releaseBatched_eq_withDues, releaseAllDeferred_eq, dues_withDues, dues_withDues,
      Dues.release_withQueue, Dues.release_withQueue]
    rfl

theorem deferred_releaseAllDeferred (p : Pipe) : p.releaseAllDeferred.consumer.deferred = [] :=
  deferred_releaseEntries _ _

theorem releaseAllDeferred_twice (p : Pipe) :
    p.releaseAllDeferred.releaseAllDeferred = p.releaseAllDeferred :=
  releaseAllDeferred_nil p.deferred_releaseAllDeferred

/-- The pipe that releases all is one to which nothing is left to make up for. -/
theorem madeUp_releaseAllDeferred (p : Pipe) : p.MadeUp p.releaseAllDeferred := by
  obtain ⟨d, same, alike⟩ :=
    (p.withDues (p.dues.withQueue [])).releaseEntries_eq_withDues p.dues.deferred
  exact ⟨d, same, alike⟩

/-- What was made up for already does not matter. -/
theorem MadeUp.of_same (made : p.MadeUp p') (same : q.releaseAllDeferred = p.releaseAllDeferred) :
    q.MadeUp p' := by
  obtain ⟨d, rfl, alike⟩ := made
  obtain ⟨c, all, settled⟩ := p.madeUp_releaseAllDeferred
  obtain ⟨c', all', settled'⟩ := q.madeUp_releaseAllDeferred
  rw [all, all'] at same
  have dues : c' = c := congrArg Pipe.dues same
  refine ⟨d, (congrArg (Pipe.withDues · d) same).symm, ?_⟩
  rw [dues] at settled'
  exact alike.trans (settled.symm.trans settled')

/-- The fragment that ends next, as it is put off. -/
def ending (p : Pipe) : Deferred :=
  ⟨p.takeByteCount.2.consumer.slabTail, p.takeByteCount.2.consumer.blobTail, p.takeByteCount.1⟩

theorem releaseFragment_snd (p : Pipe) :
    p.releaseFragment.2 =
      p.takeByteCount.2.withDues (p.takeByteCount.2.notedIn (p.dues.release p.ending)) :=
  p.takeByteCount.2.releaseBatched_eq_withDues p.ending

/-- A fragment that is put off and made up for is released as the other reader does it. -/
theorem MadeUp.release (made : p.MadeUp p') :
    p'.releaseFragment.1 = p.deferRelease.1 ∧
      p.deferRelease.2.releaseAllDeferred = p'.releaseFragment.2 := by
  obtain ⟨d, rfl, alike⟩ := made
  refine ⟨rfl, ?_⟩
  -- Both end the fragment at the same place, one with the queue and one with its releases done.
  let q := p.takeByteCount.2
  let before := q.notedIn (p.dues.withQueue [])
  have noted : before.Alike (p.dues.withQueue []) := Dues.alike_note _ _ _
  obtain ⟨c, released, settled⟩ := (q.withDues before).releaseEntries_eq_withDues p.dues.deferred
  have same : c.Alike d := settled.trans ((noted.foldl_release p.dues.deferred).trans alike.symm)
  have all : p.deferRelease.2.releaseAllDeferred =
      (q.withDues before).releaseEntries (p.dues.deferred ++ [p.ending]) := rfl
  rw [all, releaseEntries_append, released, releaseEntries, releaseEntries,
    releaseBatched_eq_withDues, releaseFragment_snd]
  exact congrArg q.withDues (same.release p.ending _ _)

end Pipe

/-! ## The regulator -/

/-- Asks the regulator that is there about several cells, and keeps its last delay. -/
def Regulator.askAll (start : Nat × Option Regulator) (cells : List Int) : Nat × Option Regulator :=
  cells.foldl (fun before cell => Regulator.askOption before.2 cell) start

namespace Dues

variable {d d' : Dues} {e : Deferred} {queue queue' : List Deferred}

/-- The last delay and the regulator. -/
def delays (d : Dues) : Nat × Option Regulator := (d.delay, d.regulator)

/-- The regulator is asked about these cells and no others. -/
theorem delays_release (d : Dues) (e : Deferred) :
    (d.release e).delays = Regulator.askAll d.delays (d.asks [e]) := by
  unfold asks release
  by_cases complete : d.countdown - 1 ≤ 0
  · simp only [if_pos complete]
    rfl
  · simp only [if_neg complete]
    rfl

theorem asks_cons (d : Dues) (e : Deferred) (queue : List Deferred) :
    d.asks (e :: queue) = d.asks [e] ++ (d.release e).asks queue := by
  rw [asks, asks]
  split
  · rfl
  · rfl

theorem asks_append (d : Dues) (queue queue' : List Deferred) :
    d.asks (queue ++ queue') = d.asks queue ++ (queue.foldl release d).asks queue' := by
  induction queue generalizing d with
  | nil => rfl
  | cons e rest ih =>
    rw [List.cons_append, asks_cons, ih, asks_cons d e rest, List.append_assoc, List.foldl_cons]

theorem Alike.asks (same : d.Alike d') (queue : List Deferred) : d.asks queue = d'.asks queue := by
  induction queue generalizing d d' with
  | nil => rfl
  | cons e rest ih =>
    have noted := congrArg Dues.countdown (same 0 0)
    have countdown : d.countdown = d'.countdown := noted
    rw [Dues.asks, Dues.asks, countdown, ih (same.release e)]

theorem asks_withQueue (d : Dues) (queue queue' : List Deferred) :
    (d.withQueue queue).asks queue' = d.asks queue' := by
  induction queue' generalizing d with
  | nil => rfl
  | cons e rest ih =>
    have countdown : (d.withQueue queue).countdown = d.countdown := rfl
    rw [asks, asks, release_withQueue, ih, countdown]

end Dues

namespace Pipe

variable {p p' : Pipe}

theorem asks_releaseDeferred (p : Pipe) :
    p.dues.asks (p.consumer.deferred.take 1) ++
        p.releaseDeferred.2.dues.asks p.releaseDeferred.2.consumer.deferred =
      p.dues.asks p.consumer.deferred := by
  cases queue : p.consumer.deferred with
  | nil =>
    rw [releaseDeferred_nil queue, queue]
    rfl
  | cons e rest =>
    have noted := Dues.alike_note ((p.dues.release e).withQueue rest) p.consumer.slabTail
      p.consumer.blobTail
    rw [releaseDeferred_cons queue, Dues.asks_cons, Dues.release_withQueue, dues_withDues]
    exact congrArg (_ ++ ·) ((noted.asks rest).trans (Dues.asks_withQueue ..))

/-- The cells about which the regulator is asked until the fragment that ends is released. -/
theorem MadeUp.asks_ending (made : p.MadeUp p') (asked : List Int) :
    asked ++ p.deferRelease.2.dues.asks p.deferRelease.2.consumer.deferred =
      asked ++ p.dues.asks p.dues.deferred ++ p'.dues.asks [p'.ending] := by
  obtain ⟨d, rfl, alike⟩ := made
  have noted := Dues.alike_note (p.dues.withQueue (p.dues.deferred ++ [p.ending]))
    p.takeByteCount.2.consumer.slabTail p.takeByteCount.2.consumer.blobTail
  have later : (p.dues.deferred.foldl Dues.release p.dues).asks [p.ending] = d.asks [p.ending] := by
    rw [alike.asks, Dues.settled, Dues.foldl_release_withQueue, Dues.asks_withQueue]
  rw [List.append_assoc]
  refine congrArg (asked ++ ·) ((noted.asks _).trans ?_)
  rw [Dues.asks_withQueue]
  exact (Dues.asks_append ..).trans (congrArg (_ ++ ·) later)

end Pipe

/-! ## Courses of a reader -/

/-- What a reader came to: the pipe, the byte counts that it was told, the cells about which the
regulator was asked, and the answers of what it looked at. -/
structure Course where
  pipe : Pipe
  counts : List Int
  asked : List Int
  seen : List ((α : Type) × α)

/-- A call that makes up for what was put off. -/
inductive MakeUp where
  | oldest
  | all

/-- A call of a reader between the ends of fragments. -/
inductive Chore : Type 1 where
  | look {α : Type} (l : Look α)
  | makeUp (m : MakeUp)

namespace Course

/-- A reader that starts with a pipe. -/
def start (p : Pipe) : Course := ⟨p, [], [], []⟩

/-- Looks. -/
def look {α : Type} (c : Course) (l : Look α) : Course :=
  { c with pipe := (l.run c.pipe).2, seen := c.seen ++ [⟨α, (l.run c.pipe).1⟩] }

/-- Releases the oldest fragment that was put off, or all of them. -/
def makeUp (c : Course) : MakeUp → Course
  | .oldest =>
    { c with
      pipe := c.pipe.releaseDeferred.2
      asked := c.asked ++ c.pipe.dues.asks (c.pipe.consumer.deferred.take 1) }
  | .all =>
    { c with
      pipe := c.pipe.releaseAllDeferred
      asked := c.asked ++ c.pipe.dues.asks c.pipe.consumer.deferred }

/-- Ends a fragment and puts its release off. -/
def defer (c : Course) : Course :=
  { c with pipe := c.pipe.deferRelease.2, counts := c.counts ++ [c.pipe.deferRelease.1] }

/-- Ends a fragment and releases it. -/
def release (c : Course) : Course :=
  { c with
    pipe := c.pipe.releaseFragment.2
    counts := c.counts ++ [c.pipe.releaseFragment.1]
    asked := c.asked ++ c.pipe.dues.asks [c.pipe.ending] }

/-- Reads fragments, each with the calls given for it, and puts every release off. -/
def postponed (c : Course) (fragments : List (List Chore)) : Course :=
  fragments.foldl (fun c chores => (chores.foldl does c).defer) c
where
  does (c : Course) : Chore → Course
    | .look l => c.look l
    | .makeUp m => c.makeUp m

/-- Reads fragments with the same looks and releases each when it ends; there is nothing to make up
for. -/
def prompt (c : Course) (fragments : List (List Chore)) : Course :=
  fragments.foldl (fun c chores => (chores.foldl does c).release) c
where
  does (c : Course) : Chore → Course
    | .look l => c.look l
    | .makeUp _ => c

variable {c c' : Course}

/-- The second reader is where the first one would be if it made up for everything. -/
structure Matches (c c' : Course) : Prop where
  pipe : c.pipe.MadeUp c'.pipe
  counts : c'.counts = c.counts
  asked : c'.asked = c.asked ++ c.pipe.dues.asks c.pipe.dues.deferred
  seen : c'.seen = c.seen

theorem matches_makeUp_all (c : Course) : c.Matches (c.makeUp .all) :=
  ⟨c.pipe.madeUp_releaseAllDeferred, rfl, rfl, rfl⟩

theorem Matches.look {α : Type} (same : c.Matches c') (l : Look α) :
    (c.look l).Matches (c'.look l) := by
  obtain ⟨answer, pipe⟩ := same.pipe.look l.unaware
  refine ⟨pipe, same.counts, ?_, ?_⟩
  · show c'.asked = c.asked ++ (l.run c.pipe).2.dues.asks (l.run c.pipe).2.dues.deferred
    rw [l.unaware.dues_eq]
    exact same.asked
  · show c'.seen ++ [_] = c.seen ++ [_]
    rw [same.seen, answer]

/-- Making up for something comes to the same in the end. -/
theorem makeUp_all_makeUp (c : Course) (m : MakeUp) :
    (c.makeUp m).makeUp .all = c.makeUp .all := by
  cases m with
  | oldest =>
    have pipe := c.pipe.releaseAllDeferred_releaseDeferred
    have asked := c.pipe.asks_releaseDeferred
    simp only [makeUp, pipe, List.append_assoc, asked]
  | all =>
    have pipe := c.pipe.releaseAllDeferred_twice
    have empty := c.pipe.deferred_releaseAllDeferred
    simp only [makeUp, pipe, empty, Dues.asks, List.append_nil]

theorem Matches.makeUp (same : c.Matches c') (m : MakeUp) : (c.makeUp m).Matches c' := by
  have all := c.makeUp_all_makeUp m
  have asked := congrArg Course.asked all
  refine ⟨same.pipe.of_same (congrArg Course.pipe all), ?_, ?_, ?_⟩
  · cases m <;> exact same.counts
  · exact same.asked.trans asked.symm
  · cases m <;> exact same.seen

/-- Whatever is done between the ends of fragments, the readers go on as they did. -/
theorem Matches.does (same : c.Matches c') (chores : List Chore) :
    (chores.foldl postponed.does c).Matches (chores.foldl prompt.does c') := by
  induction chores generalizing c c' with
  | nil => exact same
  | cons chore rest ih =>
    cases chore with
    | look l => exact ih (same.look l)
    | makeUp m => exact ih (same.makeUp m)

/-- At the end of a fragment the readers come to the same, once everything is made up for. -/
theorem Matches.ends (same : c.Matches c') : c.defer.makeUp .all = c'.release := by
  obtain ⟨counts, pipe⟩ := same.pipe.release
  have asked := same.pipe.asks_ending c.asked
  simp only [Course.makeUp, defer, Course.release, pipe, counts, same.counts, same.seen,
    same.asked, asked]

/-- Fragment by fragment, the readers come to the same once everything is made up for. -/
theorem makeUp_postponed (fragments : List (List Chore)) (same : c.makeUp .all = c') :
    (c.postponed fragments).makeUp .all = c'.prompt fragments := by
  induction fragments generalizing c c' with
  | nil => exact same
  | cons chores rest ih =>
    rw [← same]
    exact ih (c.matches_makeUp_all.does chores).ends

theorem makeUp_all_makeUps (c : Course) (last : List MakeUp) :
    (last.foldl makeUp c).makeUp .all = c.makeUp .all := by
  induction last generalizing c with
  | nil => rfl
  | cons m rest ih => rw [List.foldl_cons, ih, makeUp_all_makeUp]

/-- The cells noted as asked about are those about which the regulator was asked. -/
def Told (c : Course) (start : Nat × Option Regulator) : Prop :=
  c.pipe.dues.delays = Regulator.askAll start c.asked

theorem Told.prompt {start : Nat × Option Regulator} (told : c.Told start)
    (fragments : List (List Chore)) : (c.prompt fragments).Told start := by
  have does : ∀ (chores : List Chore) (c : Course), c.Told start →
      (chores.foldl prompt.does c).Told start := by
    intro chores
    induction chores with
    | nil => exact fun c told => told
    | cons chore rest ih =>
      intro c told
      refine ih _ ?_
      cases chore with
      | look l =>
        show (l.run c.pipe).2.dues.delays = _
        rw [l.unaware.dues_eq]
        exact told
      | makeUp m => exact told
  induction fragments generalizing c with
  | nil => exact told
  | cons chores rest ih =>
    refine ih ?_
    have before := does chores c told
    show (chores.foldl prompt.does c).pipe.releaseFragment.2.dues.delays = _
    rw [Pipe.releaseFragment_snd]
    show (Dues.release _ _).delays = Regulator.askAll _ (_ ++ _)
    rw [Dues.delays_release, before, Regulator.askAll, Regulator.askAll, Regulator.askAll,
      List.foldl_append]

end Course

/-- A reader with nothing put off reads fragments and puts every release off, making up for some of
them in between, and for all of them in the end. It then is where it would be if it had released each
fragment when it ended: the pipe, the byte counts told, what was seen and the cells about which the
regulator was asked are the same; these are all that the regulator was asked. -/
theorem postponed_eq_prompt {p : Pipe} (empty : p.consumer.deferred = [])
    (fragments : List (List Chore)) (last : List MakeUp) :
    (last.foldl Course.makeUp ((Course.start p).postponed fragments)).makeUp .all =
        (Course.start p).prompt fragments ∧
      ((Course.start p).prompt fragments).Told (p.consumer.delay, p.consumer.regulator) := by
  have nothing : (Course.start p).makeUp .all = Course.start p := by
    have still := Pipe.releaseAllDeferred_nil empty
    simp only [Course.makeUp, Course.start, still, empty, Dues.asks, List.append_nil]
  have told : (Course.start p).Told p.dues.delays := rfl
  refine ⟨?_, told.prompt fragments⟩
  exact (Course.makeUp_all_makeUps _ last).trans (Course.makeUp_postponed fragments nothing)

/-- Reads a message, and releases the oldest that is put off before its last field. -/
def lookSample : List Chore :=
  [.look .hasContent, .look .takeMessage, .look (.take .optionalInt), .makeUp .oldest,
    .look (.take .bytes), .look (.confirmRead 5)]

/-- Two messages are read, the first one is released while the second one is read, and that one in
the end. -/
theorem postponed_eq_prompt_sample :
    ∃ s, Session.perform (fun _ _ _ => True) (Session.start samplePipe) twoMessages = some s ∧
      ([MakeUp.oldest].foldl Course.makeUp
        ((Course.start s.pipe).postponed [lookSample, lookSample])).makeUp .all =
          (Course.start s.pipe).prompt [lookSample, lookSample] ∧
      ((Course.start s.pipe).prompt [lookSample, lookSample]).counts = [3, 2] ∧
      ((Course.start s.pipe).prompt [lookSample, lookSample]).asked = [8, 13] := by
  have evaluated :
      (Session.perform (fun _ _ _ => True) (Session.start samplePipe) twoMessages).any fun s =>
        s.pipe.consumer.deferred = [] ∧
          ((Course.start s.pipe).prompt [lookSample, lookSample]).counts = [3, 2] ∧
          ((Course.start s.pipe).prompt [lookSample, lookSample]).asked = [8, 13] := by
    decide +kernel
  obtain ⟨s, performed, checked⟩ := (Option.any_eq_true ..).mp evaluated
  obtain ⟨empty, counts, asked⟩ := of_decide_eq_true checked
  obtain ⟨same, -⟩ := postponed_eq_prompt empty [lookSample, lookSample] [.oldest]
  exact ⟨s, performed, same, counts, asked⟩

end FragmentPipe
