import FragmentPipe.Proofs.Stream.RoundTrip

/-!
What a session does not depend on. `Pipe.scribbled` changes cells, bytes, the moving average and
whether a stream is open; `Session.home` puts the heads back to the mark. Main statements:
`Faithful.scribbled`, of all these only the cells and bytes that are not given back matter to what is
recorded, and `Change.home`, calls that write nothing do the same wherever the heads stand.
-/

namespace FragmentPipe

/-- What fields that were taken back may leave behind. -/
def Pipe.scribbled (p : Pipe) (slab : Ring Int32) (blob : Ring UInt8) (average : Int)
    (isOpen : Bool) : Pipe :=
  { p with
    store.slab := slab
    store.blob := blob
    producer.average := average
    producer.fieldOpen := isOpen }

/-- The calls that may be made while fields are tried out: those of the reader, and those of the
writer that write nothing. -/
def Action.keepsAside : Action → Bool
  | .askRoom _ | .flush | .abandon => true
  | a => a.reads

namespace Session

/-- The session after its writer goes back to the mark. -/
def home (s : Session) : Session := { s with pipe := s.pipe.resetHead }

end Session

/-! ## What does not matter -/

namespace Session

variable {s t : Session}

/-- The cells of a fragment that is not given back lie before the slab head. -/
theorem cells_within {k : Nat} {w : Written} (aligned : s.Aligned)
    (found : s.written[k]? = some w) (behind : s.released ≤ k) :
    s.pipe.store.slabTail ≤ s.slabAt k ∧
      s.slabAt k + (w.cells s.pipe.schema).length ≤ s.pipe.producer.slabHead := by
  obtain ⟨inside, -⟩ := List.getElem?_eq_some_iff.mp found
  have ends := slabAt_succ found
  have later : s.slabAt (k + 1) ≤ s.slabAt s.written.length := s.slabAt_mono inside
  have head := aligned.1.head
  rw [Written.length_cells]
  exact ⟨aligned.tail_le_place behind, by omega⟩

/-- What is recorded does not depend on cells and bytes outside the fragments that are not given
back, on the moving average, nor on a stream being open. -/
theorem Faithful.scribbled {slab : Ring Int32} {blob : Ring UInt8} (f : s.Faithful)
    (average : Int) (isOpen : Bool) (slabSize : slab.size = s.pipe.store.slab.size)
    (blobSize : blob.size = s.pipe.store.blob.size)
    (cells : ∀ x, s.pipe.store.slabTail ≤ x → x < s.pipe.producer.slabHead →
      slab.get x = s.pipe.store.slab.get x)
    (bytes : ∀ x, s.blobAt s.released ≤ x → x < s.blobAt s.written.length + s.current.taken →
      blob.get x = s.pipe.store.blob.get x) :
    { s with pipe := s.pipe.scribbled slab blob average isOpen }.Faithful := by
  obtain ⟨⟨aligned, place, records, sound, base, size⟩, ⟨short, room⟩, intact, shown⟩ := f
  have openCells : s.slabAt s.written.length + (s.current.opening s.pipe.schema).length =
      s.pipe.producer.slabHead := by
    rw [Written.length_opening]
    exact aligned.1.head.symm
  refine ⟨⟨⟨{ aligned.1 with target := ?_, admitted := ?_ }, { aligned.2 with }⟩, { place with },
    ⟨?_, ?_⟩, { sound with }, ?_, blobSize.trans size⟩, ⟨{ short with }, ?_⟩, ⟨?_, ?_⟩,
    { shown with }⟩
  · show _ = _ - (slab.size : Int)
    rw [slabSize]
    exact aligned.1.target
  · show _ ≤ _ + (slab.size : Int)
    rw [slabSize]
    exact aligned.1.admitted
  · intro k w found behind
    obtain ⟨lower, upper⟩ := cells_within aligned found behind
    exact (records.records k w found behind).of_same fun x low high =>
      cells x (Int.le_trans lower low) (Int.lt_of_lt_of_le high upper)
  · exact records.opening.of_same fun x low high =>
      cells x (Int.le_trans (aligned.tail_le_place aligned.released_le) low) (openCells ▸ high)
  · show _ % (blob.size : Int) = _ % (blob.size : Int)
    rw [blobSize]
    exact base
  · show _ ≤ blob.size
    rw [blobSize]
    exact room
  · exact fun k w found behind => intact.kept short bytes found behind
  · exact intact.opened short aligned bytes

/-- A mark may be anywhere. -/
theorem Faithful.markHead (f : s.Faithful) : { s with pipe := s.pipe.markHead }.Faithful := by
  obtain ⟨⟨⟨writer, reader⟩, place, records, sound, base, size⟩, ⟨short, room⟩, intact, shown⟩ := f
  exact ⟨⟨⟨{ writer with }, { reader with }⟩, { place with }, { records with }, { sound with },
    base, size⟩, ⟨{ short with }, room⟩, { intact with }, { shown with }⟩

end Session

/-! ## Who does not notice -/

namespace Pipe

variable (p : Pipe)

theorem flushPublished_resetHead : p.resetHead.flushPublished = p.flushPublished.resetHead := by
  have visible : p.resetHead.store.slabHead = p.store.slabHead := rfl
  have held : p.resetHead.producer.heldSlab = p.producer.heldSlab := rfl
  unfold flushPublished
  rw [visible, held]
  split
  · rfl
  · rfl

theorem takeField_resetHead (kind : FieldKind) :
    p.resetHead.takeField kind = ((p.takeField kind).1, (p.takeField kind).2.resetHead) := by
  have same := p.takeField_beside p.resetHead.producer p.consumer.heldSlab kind
  obtain ⟨tail, events, moved⟩ := p.takeField_eq kind
  rw [moved] at same ⊢
  exact same

theorem releaseBatched_resetHead (slabTail blobTail : Int) :
    p.resetHead.releaseBatched slabTail blobTail =
      (p.releaseBatched slabTail blobTail).resetHead := by
  by_cases complete : p.consumer.countdown - 1 ≤ 0
  · rw [releaseBatched_of_complete complete,
      releaseBatched_of_complete (p := p.resetHead) complete]
    rfl
  · rw [releaseBatched_of_partial complete,
      releaseBatched_of_partial (p := p.resetHead) complete]
    rfl

theorem releaseFragment_resetHead :
    p.resetHead.releaseFragment = (p.releaseFragment.1, p.releaseFragment.2.resetHead) := by
  have released := p.takeByteCount.2.releaseBatched_resetHead
    p.takeByteCount.2.consumer.slabTail p.takeByteCount.2.consumer.blobTail
  exact Prod.ext rfl released

theorem flushReleased_resetHead : p.resetHead.flushReleased = p.flushReleased.resetHead := by
  have tail : p.resetHead.store.slabTail = p.store.slabTail := rfl
  have reader : p.resetHead.consumer = p.consumer := rfl
  unfold flushReleased
  rw [tail, reader]
  split
  · rfl
  · rfl

end Pipe

namespace Session

variable {s t : Session} {a : Action}

/-- A call that writes nothing does the same wherever the heads stand. -/
theorem Change.home (change : s.Change a t) (aside : a.keepsAside = true)
    (stays : a.abandons = false) : s.home.Change a t.home := by
  rcases change with writes | reads
  · cases writes with
    | asked sees => exact .inl (.asked sees)
    | flushed =>
      have moved := WriterChange.flushed (s := s.home)
      have same : s.home.pipe.flushPublished = s.pipe.flushPublished.resetHead :=
        s.pipe.flushPublished_resetHead
      rw [same] at moved
      exact .inl moved
    | abandoned => cases stays
    | _ => cases aside
  · refine .inr ?_
    cases reads with
    | looked sees => exact .looked sees
    | @opened w seen idle next sees content =>
      have moved := ReaderChange.opened (s := s.home) idle next sees content
      have same : ({ s.home with pipe := s.home.pipe.looked seen } : Session).openNext w =
          ({ s with pipe := s.pipe.looked seen }.openNext w).home := by
        unfold openNext
        split
        · rfl
        · rfl
      rw [same] at moved
      exact moved
    | @took c w e kind reading next entry fits =>
      have moved := ReaderChange.took (s := s.home) reading next entry fits
      have same : s.home.takeNext c kind = (s.takeNext c kind).home := by
        unfold takeNext Session.home
        rw [Pipe.takeField_resetHead]
      rw [same] at moved
      exact moved
    | passed reading next unconfirmed all => exact .passed reading next unconfirmed all
    | @released c reading closed =>
      have moved := ReaderChange.released (s := s.home) reading closed
      have same : s.home.releaseNext c = (s.releaseNext c).home := by
        unfold releaseNext Session.home
        rw [Pipe.releaseFragment_resetHead]
      rw [same] at moved
      exact moved
    | flushedReleased =>
      have moved := ReaderChange.flushedReleased (s := s.home)
      have same : s.home.pipe.flushReleased = s.pipe.flushReleased.resetHead :=
        s.pipe.flushReleased_resetHead
      rw [same] at moved
      exact moved
    | releasedToHere idle => exact .releasedToHere idle

/-- What calls leave alone that write nothing. -/
structure SameHeads (s t : Session) : Prop where
  slabHead : t.pipe.producer.slabHead = s.pipe.producer.slabHead
  blobHead : t.pipe.producer.blobHead = s.pipe.producer.blobHead
  markSlab : t.pipe.producer.markSlab = s.pipe.producer.markSlab
  written : t.written = s.written
  draft : t.draft = s.draft

theorem Change.sameHeads (change : s.Change a t) (aside : a.keepsAside = true)
    (stays : a.abandons = false) : s.SameHeads t := by
  rcases change with writes | reads
  · cases writes with
    | asked => exact ⟨rfl, rfl, rfl, rfl, rfl⟩
    | flushed =>
      obtain ⟨_, _, moved⟩ := s.pipe.flushPublished_eq
      rw [moved]
      exact ⟨rfl, rfl, rfl, rfl, rfl⟩
    | abandoned => cases stays
    | _ => cases aside
  · have side := reads.sameWriter
    exact ⟨congrArg _ side.producer, congrArg _ side.producer, congrArg _ side.producer,
      side.written, side.draft⟩

theorem lossless_of_aside (aside : a.keepsAside = true) : lossless s a := by
  cases a with
  | put w => cases aside
  | _ => trivial

end Session

end FragmentPipe
