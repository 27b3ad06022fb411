import FragmentPipe.Proofs.Transfer.Session

/-!
All that a call can do to a session. `Session.WriterChange` and `Session.ReaderChange` list the ways
in which calls come out, each with what was checked and with the state that follows. Main
statements: `Session.change_of_step`, every call that the protocol allows is one of them, and what
either side leaves to the other, `WriterChange.sameReader` and `ReaderChange.sameWriter`.
-/

namespace FragmentPipe

/-! ## Checks -/

theorem le_cache_of_reaches {seen target current : Int}
    (reached : (reaches seen target current).answer = true) :
    target ≤ (reaches seen target current).cache := by
  unfold reaches at reached ⊢
  split at reached
  · next near =>
    rw [if_pos near]
    exact near
  · next far =>
    rw [if_neg far]
    exact of_decide_eq_true reached

namespace Pipe

/-- The released position that the writer may have seen last after it asked. -/
def SeesTail (p : Pipe) (seen : Int) : Prop :=
  seen = p.producer.room.tailSeen ∨ seen = p.store.slabTail

/-- What asking for room can change: the released position seen last, and the status. -/
def asked (p : Pipe) (seen : Int) (events : List Event) (cause : Option String) : Pipe :=
  { p with
    producer.room.tailSeen := seen
    store.events := events
    store.shutdownCause := cause }

/-- What looking for content can change: the published position seen last. -/
def looked (p : Pipe) (seen : Int) : Pipe := { p with consumer.content.headSeen := seen }

theorem hasRoom_snd (p : Pipe) (size : Int) :
    ∃ seen, p.SeesTail seen ∧
      ((p.hasRoom size).1 = true → p.producer.room.target + size ≤ seen) ∧
      (p.hasRoom size).2 = p.asked seen p.store.events p.store.shutdownCause :=
  ⟨_, cache_reaches _ _ _, fun free => le_cache_of_reaches free, rfl⟩

theorem hasContent_snd (p : Pipe) :
    ∃ seen, (seen = p.consumer.content.headSeen ∨ seen = p.store.slabHead) ∧
      ((p.hasContent).1 = true → p.consumer.content.confirmed + 1 ≤ seen) ∧
      p.hasContent.2 = p.looked seen :=
  ⟨_, cache_reaches _ _ _, fun found => le_cache_of_reaches found, rfl⟩

/-! ## Starting a message -/

/-- What starting a message can come to. -/
inductive Started (p : Pipe) (message : Int32) : Bool × Pipe → Prop where
  | begun {f : Fragment} {seen : Int} (fragment : p.schema.fragment? message = some f)
    (starts : f.startsMessage = true) (sees : p.SeesTail seen)
    (room : p.producer.slabHead + f.size - p.store.slab.size ≤ seen) :
    Started p message
      (true, (p.asked seen p.store.events p.store.shutdownCause).putMessageNumber message)
  | refused {seen : Int} {events : List Event} {cause : Option String} (sees : p.SeesTail seen) :
    Started p message (false, p.asked seen events cause)

theorem asked_same (p : Pipe) :
    p.asked p.producer.room.tailSeen p.store.events p.store.shutdownCause = p := rfl

theorem started_unchanged (p : Pipe) (message : Int32) : p.Started message (false, p) := by
  have still : p.Started message
      (false, p.asked p.producer.room.tailSeen p.store.events p.store.shutdownCause) :=
    .refused (.inl rfl)
  rwa [asked_same] at still

/-- A message may be started after a look at the released position as before it. -/
theorem Started.of_asked {p : Pipe} {message : Int32} {seen : Int} {result : Bool × Pipe}
    (sees : p.SeesTail seen)
    (h : (p.asked seen p.store.events p.store.shutdownCause).Started message result) :
    p.Started message result := by
  have back : ∀ {later : Int},
      (p.asked seen p.store.events p.store.shutdownCause).SeesTail later → p.SeesTail later := by
    intro later again
    rcases again with rfl | rfl
    · exact sees
    · exact .inr rfl
  cases h with
  | begun fragment starts again room => exact .begun fragment starts (back again) room
  | refused again => exact .refused (back again)

theorem messageSize_eq_ok {p : Pipe} {message : Int32} {size : Nat}
    (known : p.messageSize message = .ok size) :
    ∃ f, p.schema.fragment? message = some f ∧ f.startsMessage = true ∧ size = f.size := by
  unfold messageSize at known
  split at known
  · next starts =>
    unfold Schema.startsMessage at starts
    cases fragment : p.schema.fragment? message with
    | none => rw [fragment] at starts; cases starts
    | some f =>
      rw [fragment] at starts
      rw [p.schema.fragmentSize?_eq_of_startsMessage fragment] at known
      cases known
      exact ⟨f, rfl, starts, rfl⟩
  · cases known

theorem started_startMessage (p : Pipe) (message : Int32) :
    p.Started message ((p.startMessage message).1.isOk, (p.startMessage message).2) := by
  unfold startMessage
  cases known : p.messageSize message with
  | error e => exact p.started_unchanged message
  | ok size =>
    obtain ⟨f, fragment, starts, rfl⟩ := messageSize_eq_ok known
    have sees : p.SeesTail (reaches p.producer.room.tailSeen
        (p.producer.slabHead + f.size - p.store.slab.size) p.store.slabTail).cache :=
      cache_reaches _ _ _
    dsimp only
    split
    · next free => exact .begun fragment starts sees (le_cache_of_reaches free)
    · simp only [refuseFragment, report, Store.report, shutdown, Store.shutdown]
      split
      · exact .refused sees
      · exact .refused sees

theorem started_tryMessage (p : Pipe) (message : Int32) :
    p.Started message (Way.asking.start p message) := by
  unfold Way.start tryMessage
  cases known : p.messageSize message with
  | error e => exact p.started_unchanged message
  | ok size =>
    obtain ⟨seen, sees, -, asked⟩ := p.hasRoom_snd size
    dsimp only
    by_cases free : (p.hasRoom size).1 = true
    · have later := (p.hasRoom size).2.started_startMessage message
      rw [if_pos free]
      cases begun : (p.hasRoom size).2.startMessage message with
      | mk answer q =>
        rw [begun, asked] at later
        cases answer with
        | ok size => exact .of_asked sees later
        | error e => exact .of_asked sees later
    · rw [if_neg free, asked]
      exact .refused sees

theorem started_awaitMessage (p : Pipe) (message : Int32) :
    p.Started message (Way.waiting.start p message) := by
  unfold Way.start awaitMessage awaitRoom
  cases known : p.messageSize message with
  | error e => exact p.started_unchanged message
  | ok size =>
    obtain ⟨seen, sees, -, asked⟩ := p.hasRoom_snd size
    dsimp only
    by_cases free : (p.hasRoom size).1 = true
    · have later := (p.hasRoom size).2.started_startMessage message
      rw [if_pos free]
      dsimp only
      cases begun : (p.hasRoom size).2.startMessage message with
      | mk answer q =>
        rw [begun, asked] at later
        cases answer with
        | ok size => exact .of_asked sees later
        | error e => exact .of_asked sees later
    · rw [if_neg free]
      cases (p.hasRoom size).2.store.interruption with
      | none =>
        rw [asked]
        exact .refused sees
      | some e =>
        rw [asked]
        exact .refused sees

/-- Starting a message comes to one of the outcomes, in whichever way it is started. -/
theorem started_start (p : Pipe) (way : Way) (message : Int32) :
    p.Started message (way.start p message) := by
  cases way with
  | plain => exact p.started_startMessage message
  | asking => exact p.started_tryMessage message
  | waiting => exact p.started_awaitMessage message

/-! ## Publishing and releasing -/

/-- What publishing can change: the published heads, those that a batch holds back, and the state of
the batch. -/
def withHeads (p : Pipe) (visible held : Int × Int) (countdown : Int) (noted : Noted) (delay : Nat)
    (regulator : Option Regulator) : Pipe :=
  { p with
    store.slabHead := visible.1
    store.blobHead := visible.2
    store.noted := noted
    producer.heldSlab := held.1
    producer.heldBlob := held.2
    producer.countdown := countdown
    producer.delay := delay
    producer.regulator := regulator }

theorem publishBatched_of_complete {p : Pipe} (complete : p.producer.countdown - 1 ≤ 0) :
    p.publishBatched =
      { p with
        store.blobHead := p.producer.blobHead
        store.slabHead := p.producer.slabHead
        store.noted.slabHead := p.producer.slabHead
        store.noted.blobHead := p.producer.blobHead
        producer.countdown := p.producer.batch
        producer.delay := (Regulator.askOption p.producer.regulator p.producer.slabHead).1
        producer.regulator :=
          (Regulator.askOption p.producer.regulator p.producer.slabHead).2 } := by
  simp only [publishBatched, if_pos complete, Store.noteHead]

theorem publishBatched_of_partial {p : Pipe} (part : ¬p.producer.countdown - 1 ≤ 0) :
    p.publishBatched =
      { p with
        store.noted.slabHead := p.producer.slabHead
        store.noted.blobHead := p.producer.blobHead
        producer.countdown := p.producer.countdown - 1
        producer.heldBlob := p.producer.blobHead
        producer.heldSlab := p.producer.slabHead } := by
  simp only [publishBatched, if_neg part, Store.noteHead]

theorem publishBatched_eq (p : Pipe) :
    ∃ visible held countdown noted delay regulator,
      p.publishBatched = p.withHeads visible held countdown noted delay regulator := by
  by_cases complete : p.producer.countdown - 1 ≤ 0
  · exact ⟨(_, _), (_, _), _, _, _, _, publishBatched_of_complete complete⟩
  · exact ⟨(_, _), (_, _), _, _, _, _, publishBatched_of_partial complete⟩

theorem flushPublished_eq (p : Pipe) :
    ∃ visible countdown, p.flushPublished =
      p.withHeads visible (p.producer.heldSlab, p.producer.heldBlob) countdown p.store.noted
        p.producer.delay p.producer.regulator := by
  unfold flushPublished
  split
  · exact ⟨(_, _), _, rfl⟩
  · exact ⟨(_, _), _, rfl⟩

/-- What releasing can change: the published tails, those that a batch holds back, and the state of
the batch. -/
def withTails (p : Pipe) (given held : Int × Int) (countdown : Int) (noted : Noted) (delay : Nat)
    (regulator : Option Regulator) : Pipe :=
  { p with
    store.slabTail := given.1
    store.blobTail := given.2
    store.noted := noted
    consumer.heldSlab := held.1
    consumer.heldBlob := held.2
    consumer.countdown := countdown
    consumer.delay := delay
    consumer.regulator := regulator }

theorem releaseBatched_of_complete {p : Pipe} {slabTail blobTail : Int}
    (complete : p.consumer.countdown - 1 ≤ 0) :
    p.releaseBatched slabTail blobTail =
      { p with
        store.blobTail := blobTail
        store.slabTail := slabTail
        store.noted.slabTail := p.consumer.slabTail
        store.noted.blobTail := p.consumer.blobTail
        consumer.countdown := p.consumer.batch
        consumer.delay := (Regulator.askOption p.consumer.regulator slabTail).1
        consumer.regulator := (Regulator.askOption p.consumer.regulator slabTail).2 } := by
  simp only [releaseBatched, if_pos complete, noteTail, Store.noteTail]

theorem releaseBatched_of_partial {p : Pipe} {slabTail blobTail : Int}
    (part : ¬p.consumer.countdown - 1 ≤ 0) :
    p.releaseBatched slabTail blobTail =
      { p with
        store.noted.slabTail := p.consumer.slabTail
        store.noted.blobTail := p.consumer.blobTail
        consumer.countdown := p.consumer.countdown - 1
        consumer.heldBlob := blobTail
        consumer.heldSlab := slabTail } := by
  simp only [releaseBatched, if_neg part, noteTail, Store.noteTail]

theorem releaseBatched_eq (p : Pipe) (slabTail blobTail : Int) :
    ∃ given held countdown noted delay regulator,
      p.releaseBatched slabTail blobTail =
        p.withTails given held countdown noted delay regulator := by
  by_cases complete : p.consumer.countdown - 1 ≤ 0
  · exact ⟨(_, _), (_, _), _, _, _, _, releaseBatched_of_complete complete⟩
  · exact ⟨(_, _), (_, _), _, _, _, _, releaseBatched_of_partial complete⟩

theorem flushReleased_eq (p : Pipe) :
    ∃ given countdown, p.flushReleased =
      p.withTails given (p.consumer.heldSlab, p.consumer.heldBlob) countdown p.store.noted
        p.consumer.delay p.consumer.regulator := by
  unfold flushReleased
  split
  · exact ⟨(_, _), _, rfl⟩
  · exact ⟨(_, _), _, rfl⟩

/-! ## The end mark -/

/-- The pipe with the end mark written and published. -/
def ended (p : Pipe) : Pipe :=
  let stop := p.producer.slabHead + endMarkSize
  { p with
    store.slab := p.store.slab.setList p.producer.slabHead [-1, 0]
    store.blobHead := p.producer.blobHead
    store.slabHead := stop
    store.endPosition := p.producer.slabHead
    store.noted.slabHead := stop
    store.noted.blobHead := p.producer.blobHead
    store.events := p.store.events ++ [.endPublished p.store.id p.producer.slabHead]
    producer.slabHead := stop
    producer.room := p.producer.room.confirm endMarkSize
    producer.heldSlab := stop
    producer.heldBlob := p.producer.blobHead
    producer.countdown := p.producer.batch }

theorem publishEnd_eq (p : Pipe) :
    ((p.publishEnd.1.isOk = true ∧
      p.producer.slabHead + endMarkSize ≤ p.store.slabTail + p.store.slab.size ∧
      p.publishEnd = (.ok (), p.ended)) ∨
    ∃ e events cause, p.publishEnd =
      (.error e, p.asked p.producer.room.tailSeen events cause)) := by
  unfold publishEnd
  dsimp only
  split
  · refine .inr ?_
    simp only [shutdown, Store.shutdown, Store.report]
    split
    · exact ⟨_, _, _, rfl⟩
    · exact ⟨_, _, _, rfl⟩
  · exact .inl ⟨rfl, by omega, rfl⟩

end Pipe

/-! ## Calls -/

namespace Session

/-- How a call of the writer comes out. -/
inductive WriterChange (s : Session) : Action → Session → Prop where
  /-- The writer looked at the released position, at most. -/
  | asked {a : Action} {seen : Int} {events : List Event} {cause : Option String}
    (sees : s.pipe.SeesTail seen) :
    WriterChange s a { s with pipe := s.pipe.asked seen events cause }
  | begun {way : Way} {message : Int32} {f : Fragment} {seen : Int} (idle : s.draft = none)
    (fragment : s.pipe.schema.fragment? message = some f) (starts : f.startsMessage = true)
    (sees : s.pipe.SeesTail seen)
    (room : s.pipe.producer.slabHead + f.size - s.pipe.store.slab.size ≤ seen) :
    WriterChange s (.begin way message)
      { s with
        pipe := (s.pipe.asked seen s.pipe.store.events
          s.pipe.store.shutdownCause).putMessageNumber message
        draft := some ⟨f, ⟨some message, []⟩, false⟩ }
  | nested {index : Nat} {f : Fragment} {seen : Int} (idle : s.draft = none)
    (fragment : s.pipe.schema.fragments[index]? = some f) (inner : f.startsMessage = false)
    (sees : s.pipe.SeesTail seen) (room : s.pipe.producer.room.target + f.size ≤ seen) :
    WriterChange s (.nest index)
      { s with
        pipe := s.pipe.asked seen s.pipe.store.events s.pipe.store.shutdownCause
        draft := some ⟨f, ⟨none, []⟩, false⟩ }
  | put {w : Stroke} {e : Entry} {d : Draft} {blob : Ring UInt8} {isOpen : Bool}
    (draft : s.draft = some d) (unconfirmed : d.confirmed = false)
    (fits : d.content.filled + e.width < d.fragment.size) (stores : w.Stores s.pipe e blob) :
    WriterChange s (.put w)
      { s with
        pipe := s.pipe.withField
          (e.cells s.pipe.schema
            ((s.pipe.producer.blobHead - s.pipe.producer.writeBase) % blobSpan))
          blob (e.headAfter s.pipe.producer.blobHead) (w.averageAfter s.pipe) isOpen
          s.pipe.store.events s.pipe.store.shutdownCause
        draft := some { d with content := d.content.add e } }
  /-- No field is added: the call is denied, or goes on with a streamed field. -/
  | aside {w : Stroke} {blob : Ring UInt8} {average : Int} {isOpen : Bool} {events : List Event}
    {cause : Option String}
    (within : s.pipe.store.blob.SameOutside blob s.pipe.producer.blobHead (w.reach s.pipe))
    (moved : average = s.pipe.producer.average ∨ average = w.averageAfter s.pipe) :
    WriterChange s (.put w)
      { s with
        pipe := s.pipe.withField [] blob s.pipe.producer.blobHead average isOpen events cause }
  | confirmed {d : Draft} (draft : s.draft = some d) (unconfirmed : d.confirmed = false)
    (full : d.content.size = d.fragment.size) :
    WriterChange s .confirm
      { s with
        pipe := s.pipe.confirmWrite d.fragment.size
        draft := some { d with confirmed := true } }
  | published {d : Draft} (draft : s.draft = some d) (closed : d.confirmed = true) :
    WriterChange s .publish
      { s with
        pipe := s.pipe.putByteCount.publishBatched
        written := s.written ++ [d.content]
        draft := none }
  | flushed : WriterChange s .flush { s with pipe := s.pipe.flushPublished }
  | abandoned : WriterChange s .abandon s.abandonAll
  | finished (idle : s.draft = none)
    (room : s.pipe.producer.slabHead + endMarkSize ≤
      s.pipe.store.slabTail + s.pipe.store.slab.size) :
    WriterChange s .finish { s with pipe := s.pipe.ended, written := s.written ++ [.endMark] }

/-- How a call of the reader comes out. -/
inductive ReaderChange (s : Session) : Action → Session → Prop where
  /-- The reader looked at the published position, at most. -/
  | looked {a : Action} {seen : Int}
    (sees : seen = s.pipe.consumer.content.headSeen ∨ seen = s.pipe.store.slabHead) :
    ReaderChange s a { s with pipe := s.pipe.looked seen }
  | opened {w : Written} {seen : Int} (idle : s.reading = none) (next : s.next? = some w)
    (sees : seen = s.pipe.consumer.content.headSeen ∨ seen = s.pipe.store.slabHead)
    (content : s.pipe.consumer.content.confirmed + 1 ≤ seen) :
    ReaderChange s .receive ({ s with pipe := s.pipe.looked seen }.openNext w)
  | took {c : Reading} {w : Written} {e : Entry} {kind : FieldKind} (reading : s.reading = some c)
    (next : s.next? = some w) (entry : w.entries[c.fields.length]? = some e)
    (fits : e.fits kind = true) : ReaderChange s (.take kind) (s.takeNext c kind)
  | passed {c : Reading} {w : Written} (reading : s.reading = some c) (next : s.next? = some w)
    (unconfirmed : c.confirmed = false) (all : c.fields.length = w.entries.length) :
    ReaderChange s .pass
      { s with pipe := s.pipe.confirmRead w.size, reading := some { c with confirmed := true } }
  | released {c : Reading} (reading : s.reading = some c) (closed : c.confirmed = true) :
    ReaderChange s .release (s.releaseNext c)
  | flushedReleased : ReaderChange s .flushReleased { s with pipe := s.pipe.flushReleased }
  | releasedToHere (idle : s.reading = none) :
    ReaderChange s .releaseToHere { s with pipe := s.pipe.releaseToHere }

/-- How a call comes out. -/
def Change (s : Session) (a : Action) (t : Session) : Prop :=
  s.WriterChange a t ∨ s.ReaderChange a t

/-! ### Frames -/

/-- Nothing changes that concerns the reading side. -/
structure SameReader (s t : Session) : Prop where
  consumer : t.pipe.consumer = s.pipe.consumer
  config : t.pipe.store.config = s.pipe.store.config
  slabTail : t.pipe.store.slabTail = s.pipe.store.slabTail
  slabStart : t.slabStart = s.slabStart
  blobStart : t.blobStart = s.blobStart
  received : t.received = s.received
  reading : t.reading = s.reading

/-- Nothing changes that concerns the writing side, but the released position. -/
structure SameWriter (s t : Session) : Prop where
  producer : t.pipe.producer = s.pipe.producer
  config : t.pipe.store.config = s.pipe.store.config
  slab : t.pipe.store.slab = s.pipe.store.slab
  blob : t.pipe.store.blob = s.pipe.store.blob
  slabHead : t.pipe.store.slabHead = s.pipe.store.slabHead
  blobHead : t.pipe.store.blobHead = s.pipe.store.blobHead
  slabStart : t.slabStart = s.slabStart
  blobStart : t.blobStart = s.blobStart
  written : t.written = s.written
  draft : t.draft = s.draft

variable {s t : Session} {a : Action}

theorem SameReader.schema (side : s.SameReader t) : t.pipe.schema = s.pipe.schema :=
  congrArg Config.schema side.config

theorem SameWriter.schema (side : s.SameWriter t) : t.pipe.schema = s.pipe.schema :=
  congrArg Config.schema side.config

theorem WriterChange.sameReader (change : s.WriterChange a t) : s.SameReader t := by
  cases change with
  | published =>
    obtain ⟨_, _, _, _, _, _, moved⟩ := s.pipe.putByteCount.publishBatched_eq
    rw [moved]
    exact ⟨rfl, rfl, rfl, rfl, rfl, rfl, rfl⟩
  | flushed =>
    obtain ⟨_, _, moved⟩ := s.pipe.flushPublished_eq
    rw [moved]
    exact ⟨rfl, rfl, rfl, rfl, rfl, rfl, rfl⟩
  | _ => exact ⟨rfl, rfl, rfl, rfl, rfl, rfl, rfl⟩

theorem ReaderChange.sameWriter (change : s.ReaderChange a t) : s.SameWriter t := by
  cases change with
  | opened =>
    unfold openNext
    split
    · exact ⟨rfl, rfl, rfl, rfl, rfl, rfl, rfl, rfl, rfl, rfl⟩
    · exact ⟨rfl, rfl, rfl, rfl, rfl, rfl, rfl, rfl, rfl, rfl⟩
  | @took c w e kind =>
    obtain ⟨_, _, moved⟩ := s.pipe.takeField_eq kind
    unfold takeNext
    dsimp only
    rw [moved]
    exact ⟨rfl, rfl, rfl, rfl, rfl, rfl, rfl, rfl, rfl, rfl⟩
  | @released c =>
    obtain ⟨_, _, _, _, _, _, moved⟩ := s.pipe.takeByteCount.2.releaseBatched_eq
      s.pipe.takeByteCount.2.consumer.slabTail s.pipe.takeByteCount.2.consumer.blobTail
    have released : (s.releaseNext c).pipe = _ := moved
    constructor
    all_goals first | rfl | (rw [released]; rfl)
  | flushedReleased =>
    obtain ⟨_, _, moved⟩ := s.pipe.flushReleased_eq
    rw [moved]
    exact ⟨rfl, rfl, rfl, rfl, rfl, rfl, rfl, rfl, rfl, rfl⟩
  | _ => exact ⟨rfl, rfl, rfl, rfl, rfl, rfl, rfl, rfl, rfl, rfl⟩

/-! ### Every call -/

theorem eq_of_idle (idle : s.draft = none) (p : Pipe) :
    { s with pipe := p, draft := none } = { s with pipe := p } := by
  rw [← idle]

theorem change_of_begin {way : Way} {message : Int32} (idle : s.draft = none) :
    s.WriterChange (.begin way message) (s.beginMessage way message) := by
  have outcome := s.pipe.started_start way message
  unfold beginMessage
  generalize way.start s.pipe message = result at outcome ⊢
  cases outcome with
  | begun fragment starts sees room =>
    simp only [if_true, fragment, Option.map_some]
    exact .begun idle fragment starts sees room
  | refused sees =>
    simp only [Bool.false_eq_true, if_false, eq_of_idle idle]
    exact .asked sees

theorem change_of_nest {index : Nat} {f : Fragment} (idle : s.draft = none)
    (fragment : s.pipe.schema.fragments[index]? = some f) (inner : f.startsMessage = false) :
    s.WriterChange (.nest index) (s.beginNested f) := by
  obtain ⟨seen, sees, room, asked⟩ := s.pipe.hasRoom_snd f.size
  unfold beginNested
  by_cases free : (s.pipe.hasRoom f.size).1 = true
  · simp only [free, if_true, asked]
    exact .nested idle fragment inner sees (room free)
  · simp only [free, Bool.false_eq_true, if_false, asked, eq_of_idle idle]
    exact .asked sees

theorem change_of_aside {w : Stroke}
    (nothing : w.field? s.pipe = none ∨ (w.run s.pipe).1.isOk = false) :
    s.WriterChange (.put w) { s with pipe := (w.run s.pipe).2 } := by
  obtain ⟨blob, average, isOpen, events, cause, within, moved, same⟩ := Stroke.run_aside nothing
  rw [same]
  exact .aside within moved

theorem change_of_put {d : Draft} {w : Stroke} {e : Entry} (draft : s.draft = some d)
    (told : w.Told) (field : w.field? s.pipe = some e) (unconfirmed : d.confirmed = false)
    (fits : d.content.filled + e.width < d.fragment.size) :
    s.WriterChange (.put w) (s.putField d w e) := by
  unfold putField
  cases outcome : w.run s.pipe with
  | mk answer p =>
    cases answer with
    | ok u =>
      obtain ⟨blob, isOpen, stores, rfl⟩ := Stroke.run_field told field outcome
      exact .put draft unconfirmed fits stores
    | error x =>
      have denied : (w.run s.pipe).1.isOk = false := by
        rw [outcome]
        rfl
      have aside := change_of_aside (.inr denied)
      rw [outcome] at aside
      exact aside

theorem change_of_finish (idle : s.draft = none) : s.WriterChange .finish s.finishAll := by
  unfold finishAll
  rcases s.pipe.publishEnd_eq with ⟨-, room, ended⟩ | ⟨e, events, cause, refused⟩
  · rw [ended]
    exact .finished idle room
  · rw [refused]
    exact .asked (.inl rfl)

theorem change_of_receive (call : s.step .receive = some t) : s.ReaderChange .receive t := by
  obtain ⟨seen, sees, content, looked⟩ := s.pipe.hasContent_snd
  simp only [step, looked] at call
  split at call
  · next found =>
    split at call
    · next w idle next =>
      cases call
      exact .opened idle next sees (content found)
    · cases call
  · split at call
    · cases call
      exact .looked sees
    · cases call

theorem release_of_step (call : s.step .release = some t) :
    ∃ c, s.reading = some c ∧ c.confirmed = true ∧ t = s.releaseNext c := by
  simp only [step] at call
  split at call
  · next c reading =>
    split at call
    · next closed =>
      cases call
      exact ⟨c, reading, closed, rfl⟩
    · cases call
  · cases call

theorem releaseToHere_of_step (call : s.step .releaseToHere = some t) :
    s.reading = none ∧ t = { s with pipe := s.pipe.releaseToHere } := by
  simp only [step] at call
  split at call
  · next idle =>
    cases call
    exact ⟨Option.isNone_iff_eq_none.mp idle, rfl⟩
  · cases call

/-- Every call that the protocol allows comes out in one of these ways. -/
theorem change_of_step (call : s.step a = some t) :
    s.Change a t := by
  cases a with
  | askRoom size =>
    obtain ⟨seen, sees, -, asked⟩ := s.pipe.hasRoom_snd size
    simp only [step, asked] at call
    cases call
    exact .inl (.asked sees)
  | begin way message =>
    simp only [step] at call
    split at call
    · next idle =>
      cases call
      exact .inl (change_of_begin (Option.isNone_iff_eq_none.mp idle))
    · cases call
  | nest index =>
    simp only [step] at call
    split at call
    · next f idle fragment =>
      split at call
      · cases call
      · next inner =>
        cases call
        exact .inl (change_of_nest idle fragment (Bool.eq_false_iff.mpr inner))
    · cases call
  | put w =>
    simp only [step] at call
    split at call
    · next nothing =>
      cases call
      exact .inl (change_of_aside (.inl nothing))
    · next e d field draft =>
      split at call
      · next writable =>
        cases call
        exact .inl (change_of_put draft writable.1 field writable.2.1 writable.2.2)
      · cases call
    · cases call
  | confirm =>
    simp only [step] at call
    split at call
    · next d draft =>
      split at call
      · next full =>
        cases call
        exact .inl (.confirmed draft full.1 full.2)
      · cases call
    · cases call
  | publish =>
    simp only [step] at call
    split at call
    · next d draft =>
      split at call
      · next closed =>
        cases call
        exact .inl (.published draft closed)
      · cases call
    · cases call
  | flush =>
    cases call
    exact .inl .flushed
  | abandon =>
    cases call
    exact .inl .abandoned
  | finish =>
    simp only [step] at call
    split at call
    · next idle =>
      cases call
      exact .inl (change_of_finish (Option.isNone_iff_eq_none.mp idle))
    · cases call
  | look =>
    obtain ⟨seen, sees, -, looked⟩ := s.pipe.hasContent_snd
    simp only [step, looked] at call
    cases call
    exact .inr (.looked sees)
  | receive => exact .inr (change_of_receive call)
  | take kind =>
    simp only [step] at call
    split at call
    · next c w reading next =>
      split at call
      · next fits =>
        cases call
        cases entry : w.entries[c.fields.length]? with
        | none => rw [entry] at fits; cases fits
        | some e =>
          rw [entry] at fits
          exact .inr (.took reading next entry fits)
      · cases call
    · cases call
  | pass =>
    simp only [step] at call
    split at call
    · next c w reading next =>
      split at call
      · next all =>
        cases call
        exact .inr (.passed reading next all.1 all.2)
      · cases call
    · cases call
  | release =>
    obtain ⟨c, reading, closed, rfl⟩ := release_of_step call
    exact .inr (.released reading closed)
  | flushReleased =>
    cases call
    exact .inr .flushedReleased
  | releaseToHere =>
    obtain ⟨idle, rfl⟩ := releaseToHere_of_step call
    exact .inr (.releasedToHere idle)

end Session

end FragmentPipe
