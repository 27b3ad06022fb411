import FragmentPipe.Proofs.Transfer.SlabSafety

/-!
What lies in the slab, and where the bytes of the fragments begin. The blob positions of the writer
follow from the bytes of the fragments before them, the base of the reader follows them around the
blob, and every fragment that is not given back lies in the slab as it was written. Main statement:
`recorded_of_reaches`, this holds throughout every run.
-/

namespace FragmentPipe

/-! ## Cells and bytes of a fragment -/

namespace Entry

/-- The cells of fields stand behind those of the fields before them. -/
theorem lay_append (s : Schema) (offset : Nat) (front back : List Entry) :
    lay s offset (front ++ back) =
      lay s offset front ++ lay s (offset + (front.map taken).sum) back := by
  induction front generalizing offset with
  | nil => rfl
  | cons e front ih =>
    rw [List.cons_append, lay, lay, ih, List.append_assoc, List.map_cons, List.sum_cons,
      Nat.add_assoc]

@[simp] theorem length_lay (s : Schema) (offset : Nat) (es : List Entry) :
    (lay s offset es).length = (es.map width).sum := by
  induction es generalizing offset with
  | nil => rfl
  | cons first rest ih => simp [lay, ih]

theorem taken_eq_of_bytesIn {e : Entry} (empty : e.bytesIn = []) : e.taken = 0 := by
  rw [taken, empty]
  rfl

/-- The blob head moves by the bytes that a field takes. -/
theorem headAfter_eq {constants : Buffer} {e : Entry} (sound : e.Sound constants) {head : Int}
    (low : 0 ≤ head) (high : head < blobSpan) : e.headAfter head = (head + e.taken) % blobSpan := by
  have stays : ∀ e : Entry, e.bytesIn = [] → head = (head + e.taken) % blobSpan := by
    intro e empty
    rw [taken_eq_of_bytesIn empty, Int.natCast_zero, Int.add_zero, Int.emod_eq_of_lt low high]
  cases e with
  | scalar value => exact stays _ rfl
  | content value =>
    show value.headAfter head = _
    unfold Content.headAfter
    cases checked : value.checked? with
    | none => exact stays _ (sound.bare checked)
    | some length =>
      have told := sound.told length checked
      have same : ((Entry.content value).taken : Int) = length := by
        rw [told, Pipe.fieldLength, taken, Pipe.maxInt, bytesIn]
        omega
      rw [same]

end Entry

namespace Written

theorem taken_add (w : Written) (e : Entry) : (w.add e).taken = w.taken + e.taken := by
  simp [taken, add]

theorem opening_add (s : Schema) (w : Written) (e : Entry) :
    (w.add e).opening s = w.opening s ++ e.cells s ((w.taken : Int) % blobSpan) := by
  rw [opening, add, Entry.lay_append, ← List.append_assoc, Nat.zero_add, Entry.lay, Entry.lay,
    List.append_nil]
  rfl

@[simp] theorem length_opening (s : Schema) (w : Written) : (w.opening s).length = w.filled := by
  simp [opening, filled]

@[simp] theorem length_cells (s : Schema) (w : Written) : (w.cells s).length = w.size := by
  simp [cells, size]

end Written

namespace Session

/-- Where the bytes of a fragment begin, counted without end. -/
def blobAt (s : Session) (k : Nat) : Int :=
  s.blobStart + ((s.written.take k).map Written.taken).sum

theorem blobAt_succ {s : Session} {k : Nat} {w : Written} (h : s.written[k]? = some w) :
    s.blobAt (k + 1) = s.blobAt k + w.taken := by
  simp only [blobAt, List.take_add_one, h, Option.toList_some, List.map_append, List.map_cons,
    List.map_nil, List.sum_append, List.sum_cons, List.sum_nil]
  omega

theorem blobAt_eq_of_take {s t : Session} {k m : Nat} (start : t.blobStart = s.blobStart)
    (same : t.written.take m = s.written.take m) (h : k ≤ m) : t.blobAt k = s.blobAt k := by
  rw [blobAt, blobAt, start, take_eq_of_take same h]

theorem SameWriter.blobAt {s t : Session} (side : s.SameWriter t) (k : Nat) :
    t.blobAt k = s.blobAt k := by
  rw [Session.blobAt, Session.blobAt, side.blobStart, side.written]

/-- The bytes of a fragment that is finished lie behind those of the ones before it. -/
theorem blobAt_append {s t : Session} {w : Written} (start : t.blobStart = s.blobStart)
    (written : t.written = s.written ++ [w]) :
    (∀ k, k ≤ s.written.length → t.blobAt k = s.blobAt k) ∧
      t.blobAt t.written.length = s.blobAt s.written.length + w.taken := by
  have front := take_of_append written
  have place : ∀ k, k ≤ s.written.length → t.blobAt k = s.blobAt k :=
    fun k => blobAt_eq_of_take start front
  have last : t.written[s.written.length]? = some w := by simp [written]
  have length : t.written.length = s.written.length + 1 := by simp [written]
  refine ⟨place, ?_⟩
  rw [length, blobAt_succ last, place _ (Nat.le_refl _)]

/-! ## The writer's blob positions -/

/-- The blob positions of the writer are those of the fragments, on the circle of positions. -/
structure BlobAt (s : Session) : Prop where
  head : s.pipe.producer.blobHead =
    (s.blobAt s.written.length + s.current.taken) % blobSpan
  base : s.pipe.producer.writeBase = s.blobAt s.written.length % blobSpan
  counted : s.pipe.producer.counted = s.blobAt s.written.length % blobSpan
  visible : s.pipe.store.blobHead = s.blobAt s.published % blobSpan
  held : s.published < s.written.length →
    s.pipe.producer.heldBlob = s.blobAt s.written.length % blobSpan

variable {s t : Session}

theorem BlobAt.head_idle (b : s.BlobAt) (idle : s.draft = none) :
    s.pipe.producer.blobHead = s.blobAt s.written.length % blobSpan := by
  rw [b.head, current_of_idle idle]
  exact congrArg (· % blobSpan) (Int.add_zero _)

theorem BlobAt.bounds (b : s.BlobAt) :
    0 ≤ s.pipe.producer.blobHead ∧ s.pipe.producer.blobHead < blobSpan := by
  rw [b.head]
  exact ⟨Int.emod_nonneg _ (by decide), Int.emod_lt_of_pos _ (by decide)⟩

/-- What the writer measures from the base of its fragment. -/
theorem BlobAt.offset (b : s.BlobAt) :
    (s.pipe.producer.blobHead - s.pipe.producer.writeBase) % blobSpan =
      (s.current.taken : Int) % blobSpan := by
  rw [b.head, b.base, ← Int.sub_emod]
  congr 1
  omega

theorem BlobAt.uncounted (b : s.BlobAt) :
    s.pipe.uncountedBytes = (s.current.taken : Int) % blobSpan := by
  have same : s.pipe.producer.counted = s.pipe.producer.writeBase := b.counted.trans b.base.symm
  rw [Pipe.uncountedBytes, same]
  exact b.offset

/-- Between fragments all positions of the writer are behind the bytes of the last fragment, of
which a batch may hold some back. -/
theorem BlobAt.between {place : Int} (idle : t.draft = none)
    (last : t.blobAt t.written.length % blobSpan = place)
    (head : t.pipe.producer.blobHead = place) (base : t.pipe.producer.writeBase = place)
    (counted : t.pipe.producer.counted = place)
    (visible : t.pipe.store.blobHead = t.blobAt t.published % blobSpan)
    (held : t.published < t.written.length → t.pipe.producer.heldBlob = place) : t.BlobAt := by
  subst last
  refine ⟨?_, base, counted, visible, held⟩
  rw [head, current_of_idle idle]
  exact congrArg (· % blobSpan) (Int.add_zero _).symm

theorem BlobAt.append {w : Written} (b : s.BlobAt) (h : s.WriterAt s.published)
    (after : t.WriterAt t.published) (start : t.blobStart = s.blobStart)
    (slabStart : t.slabStart = s.slabStart) (written : t.written = s.written ++ [w])
    (closed : t.draft = none)
    (head : t.pipe.producer.blobHead = (s.blobAt s.written.length + w.taken) % blobSpan)
    (base : t.pipe.producer.writeBase = t.pipe.producer.blobHead)
    (counted : t.pipe.producer.counted = t.pipe.producer.blobHead)
    (moved :
      (t.pipe.store.slabHead = t.pipe.producer.slabHead ∧
        t.pipe.store.blobHead = t.pipe.producer.blobHead) ∨
      (t.pipe.store.slabHead = s.pipe.store.slabHead ∧
        t.pipe.store.blobHead = s.pipe.store.blobHead ∧
        t.pipe.producer.heldBlob = t.pipe.producer.blobHead)) : t.BlobAt := by
  obtain ⟨place, last⟩ := blobAt_append start written
  have inside := h.visible_le
  rw [← last] at head
  -- Either the batch is complete and all is published, or it holds this fragment back.
  rcases moved with ⟨slabHead, blobHead⟩ | ⟨slabHead, blobHead, held⟩
  · have all : t.published = t.written.length := after.published_of_head closed slabHead
    refine .between closed head.symm rfl base counted ?_ ?_
    · rw [blobHead, head, all]
    · intro short
      omega
  · have same : t.published = s.published := h.published_of_append slabStart written slabHead
    refine .between closed head.symm rfl base counted ?_ ?_
    · rw [blobHead, b.visible, same, place _ inside]
    · intro _
      exact held

theorem BlobAt.publish {d : Draft} (b : s.BlobAt) (h : s.WriterAt s.published)
    (draft : s.draft = some d)
    (after : { s with
      pipe := s.pipe.putByteCount.publishBatched
      written := s.written ++ [d.content]
      draft := none }.Aligned) :
    { s with
      pipe := s.pipe.putByteCount.publishBatched
      written := s.written ++ [d.content]
      draft := none }.BlobAt := by
  have head := b.head
  rw [current_of_draft draft] at head
  replace after := after.1
  by_cases complete : s.pipe.producer.countdown - 1 ≤ 0
  · rw [Pipe.publishBatched_of_complete (p := s.pipe.putByteCount) complete] at after ⊢
    exact b.append h after rfl rfl rfl rfl head rfl rfl (.inl ⟨rfl, rfl⟩)
  · rw [Pipe.publishBatched_of_partial (p := s.pipe.putByteCount) complete] at after ⊢
    exact b.append h after rfl rfl rfl rfl head rfl rfl (.inr ⟨rfl, rfl, rfl⟩)

theorem BlobAt.flush (b : s.BlobAt) (h : s.WriterAt s.published) :
    { s with pipe := s.pipe.flushPublished }.BlobAt := by
  have visible := h.visible
  have held_le := h.held_le
  have all := h.flush.published_eq
  unfold Pipe.flushPublished at all ⊢
  rcases Nat.lt_or_eq_of_le h.visible_le with part | same
  · have held := h.held part
    have far := slabAt_lt part (Nat.le_refl _)
    rw [if_pos (by omega)] at all ⊢
    refine { b with visible := ?_, held := ?_ }
    · rw [all]
      exact b.held part
    · intro short
      rw [all] at short
      exact absurd short (Nat.lt_irrefl _)
  · rw [same] at visible
    rw [if_neg (by omega)] at all ⊢
    exact { b with }

theorem BlobAt.abandon (b : s.BlobAt) (h : s.WriterAt s.published) : s.abandonAll.BlobAt := by
  have all : s.abandonAll.published = s.published := h.abandon.published_eq
  have length := h.length_abandonAll
  have place : s.abandonAll.blobAt s.published = s.blobAt s.published :=
    blobAt_eq_of_take rfl s.take_abandonAll (Nat.le_refl _)
  have last : s.abandonAll.blobAt s.abandonAll.written.length % blobSpan =
      s.pipe.store.blobHead := by
    rw [length, place, b.visible]
  refine .between rfl last rfl rfl rfl ?_ ?_
  · rw [all, place]
    exact b.visible
  · intro short
    omega

theorem BlobAt.finish (b : s.BlobAt) (h : s.WriterAt s.published) (idle : s.draft = none)
    (after : { s with pipe := s.pipe.ended, written := s.written ++ [Written.endMark] }.Aligned) :
    { s with pipe := s.pipe.ended, written := s.written ++ [Written.endMark] }.BlobAt := by
  have head := b.head_idle idle
  refine b.append h after.1 rfl rfl rfl idle ?_ ?_ ?_ (.inl ⟨rfl, rfl⟩)
  · exact head.trans (congrArg (· % blobSpan) (Int.add_zero _).symm)
  · exact b.base.trans head.symm
  · exact b.counted.trans head.symm

theorem BlobAt.change {a : Action} (b : s.BlobAt) (h : s.WriterAt s.published)
    (change : s.WriterChange a t) (after : t.Aligned) : t.BlobAt := by
  cases change with
  | asked => exact { b with }
  | begun idle =>
    have head := b.head_idle idle
    refine { b with head := ?_, base := head }
    exact head.trans (congrArg (· % blobSpan) (Int.add_zero _).symm)
  | nested idle =>
    refine { b with head := ?_ }
    exact (b.head_idle idle).trans (congrArg (· % blobSpan) (Int.add_zero _).symm)
  | @put w e d blob isOpen draft unconfirmed fits stores =>
    have head := b.head
    obtain ⟨low, high⟩ := b.bounds
    rw [current_of_draft draft] at head
    refine { b with head := ?_ }
    show e.headAfter s.pipe.producer.blobHead = (s.blobAt s.written.length +
      (d.content.add e).taken) % blobSpan
    rw [Entry.headAfter_eq stores.sound low high, head, Written.taken_add, Int.emod_add_emod]
    congr 1
    omega
  | aside =>
    rw [Pipe.withField_nil]
    exact { b with }
  | confirmed draft =>
    have head := b.head
    rw [current_of_draft draft] at head
    exact { b with head := head }
  | published draft => exact b.publish h draft after
  | flushed => exact b.flush h
  | abandoned => exact b.abandon h
  | finished idle => exact b.finish h idle after

theorem BlobAt.of_read (b : s.BlobAt) (side : s.SameWriter t) : t.BlobAt := by
  constructor
  · rw [side.producer, side.written, side.blobAt, side.current]
    exact b.head
  · rw [side.producer, side.written, side.blobAt]
    exact b.base
  · rw [side.producer, side.written, side.blobAt]
    exact b.counted
  · rw [side.blobHead, side.published, side.blobAt]
    exact b.visible
  · rw [side.producer, side.published, side.written, side.blobAt]
    exact b.held

/-! ## The cells in the slab -/

/-- What is not given back lies in the slab as it was written. -/
structure RecordsAt (s : Session) : Prop where
  records : ∀ k w, s.written[k]? = some w → s.released ≤ k →
    s.pipe.store.slab.Holds (s.slabAt k) (w.cells s.pipe.schema)
  opening : s.pipe.store.slab.Holds (s.slabAt s.written.length) (s.current.opening s.pipe.schema)

theorem Aligned.tail_le_place (aligned : s.Aligned) {k : Nat} (behind : s.released ≤ k) :
    s.pipe.store.slabTail ≤ s.slabAt k := by
  rw [aligned.2.given]
  exact s.slabAt_mono behind

theorem Aligned.released_le (aligned : s.Aligned) : s.released ≤ s.written.length := by
  have := aligned.2.given_le
  have := aligned.2.received_le
  have := aligned.1.visible_le
  omega

/-- The open fragment is no larger than the slab. -/
theorem Aligned.reserved_le (aligned : s.Aligned) : s.reserved ≤ s.pipe.store.slab.size := by
  have admitted := aligned.1.admitted
  have tail := aligned.tail_le_place aligned.released_le
  omega

/-- No call of the writer touches the fragments that are not given back. -/
theorem RecordsAt.kept {a : Action} (v : s.RecordsAt) (aligned : s.Aligned)
    (change : s.WriterChange a t) {k : Nat} {w : Written} (found : s.written[k]? = some w)
    (behind : s.released ≤ k) :
    t.pipe.store.slab.Holds (s.slabAt k) (w.cells s.pipe.schema) := by
  obtain ⟨cells, same, within⟩ := change.stores aligned
  obtain ⟨inside, -⟩ := List.getElem?_eq_some_iff.mp found
  have ends := slabAt_succ found
  have later : s.slabAt (k + 1) ≤ s.slabAt s.written.length := s.slabAt_mono inside
  have head := aligned.1.head
  have tail := aligned.tail_le_place behind
  rw [same]
  refine (v.records k w found behind).setList_of_before ?_ ?_
  · rw [Written.length_cells]
    omega
  · omega

/-- Cells that are stored behind the working head make the open fragment longer. -/
theorem RecordsAt.extend (v : s.RecordsAt) (aligned : s.Aligned) (cells : List Int32)
    (fits : s.current.filled + cells.length ≤ s.pipe.store.slab.size) :
    (s.pipe.store.slab.setList s.pipe.producer.slabHead cells).Holds
      (s.slabAt s.written.length) (s.current.opening s.pipe.schema ++ cells) := by
  have head : s.pipe.producer.slabHead =
      s.slabAt s.written.length + (s.current.opening s.pipe.schema).length := by
    rw [Written.length_opening]
    exact aligned.1.head
  rw [head]
  exact v.opening.setList_append (by rwa [Written.length_opening])

/-- A finished fragment lies in the slab behind the ones before it. -/
theorem RecordsAt.append {a : Action} {w : Written} (v : s.RecordsAt) (aligned : s.Aligned)
    (change : s.WriterChange a t) (written : t.written = s.written ++ [w])
    (closed : t.draft = none)
    (last : t.pipe.store.slab.Holds (s.slabAt s.written.length) (w.cells s.pipe.schema)) :
    t.RecordsAt := by
  have side := change.sameReader
  obtain ⟨place, -⟩ := slabAt_append side.slabStart written
  have grows := (aligned.change (.inl change)).2
  constructor
  · intro k x found behind
    rw [side.schema]
    rw [written] at found
    rcases getElem?_append_singleton found with ⟨inside, before⟩ | ⟨rfl, rfl⟩
    · rw [place k (Nat.le_of_lt inside)]
      exact v.kept aligned change before (Nat.le_trans grows behind)
    · rw [place _ (Nat.le_refl _)]
      exact last
  · rw [current_of_idle closed]
    exact Ring.holds_nil _ _

theorem RecordsAt.change {a : Action} (v : s.RecordsAt) (b : s.BlobAt) (aligned : s.Aligned)
    (change : s.WriterChange a t) : t.RecordsAt := by
  have grows := (aligned.change (.inl change)).2
  have reserved_le := aligned.reserved_le
  have kept : ∀ k w, s.written[k]? = some w → t.released ≤ k →
      t.pipe.store.slab.Holds (s.slabAt k) (w.cells s.pipe.schema) :=
    fun k w found behind => v.kept aligned change found (Nat.le_trans grows behind)
  have whole := change
  cases change with
  | asked => exact ⟨kept, v.opening⟩
  | @begun way message f seen idle fragment starts sees room =>
    have fits : s.current.filled + [message].length ≤ s.pipe.store.slab.size := by
      have positive := s.pipe.store.slab.size_pos
      rw [current_of_idle idle]
      exact positive
    have longer := v.extend aligned _ fits
    rw [current_of_idle idle] at longer
    exact ⟨kept, longer⟩
  | nested idle =>
    have opening := v.opening
    rw [current_of_idle idle] at opening
    exact ⟨kept, opening⟩
  | @put w e d blob isOpen draft unconfirmed fits stores =>
    have reserved := reserved_of_draft draft
    have longer := v.extend aligned
      (e.cells s.pipe.schema ((s.pipe.producer.blobHead - s.pipe.producer.writeBase) % blobSpan))
      (by
        rw [Entry.length_cells, current_of_draft draft]
        omega)
    refine ⟨kept, ?_⟩
    have opening := d.content.opening_add s.pipe.schema e
    have offset := b.offset
    rw [current_of_draft draft] at longer offset
    rw [← offset] at opening
    show Ring.Holds _ _ ((d.content.add e).opening s.pipe.schema)
    rw [opening]
    exact longer
  | aside =>
    rw [Pipe.withField_nil] at kept ⊢
    exact ⟨kept, v.opening⟩
  | confirmed draft =>
    have opening := v.opening
    rw [current_of_draft draft] at opening
    exact ⟨kept, opening⟩
  | @published d draft closed =>
    have reserved := reserved_of_draft draft
    have full := aligned.1.full d draft closed
    have longer := v.extend aligned [Int32.ofInt s.pipe.uncountedBytes] (by
      rw [current_of_draft draft]
      unfold Written.size at full
      simp only [List.length_cons, List.length_nil]
      omega)
    have stored : s.pipe.putByteCount.publishBatched.store.slab =
        s.pipe.store.slab.setList s.pipe.producer.slabHead [Int32.ofInt s.pipe.uncountedBytes] := by
      obtain ⟨_, _, _, _, _, _, moved⟩ := s.pipe.putByteCount.publishBatched_eq
      rw [moved]
      rfl
    have counted := b.uncounted
    rw [current_of_draft draft] at longer counted
    refine v.append aligned whole rfl rfl ?_
    show Ring.Holds s.pipe.putByteCount.publishBatched.store.slab _ _
    rw [stored, Written.cells, ← counted]
    exact longer
  | flushed =>
    obtain ⟨_, _, moved⟩ := s.pipe.flushPublished_eq
    rw [moved] at kept ⊢
    exact ⟨kept, v.opening⟩
  | abandoned =>
    refine ⟨?_, Ring.holds_nil _ _⟩
    intro k w found behind
    obtain ⟨inside, before⟩ := getElem?_abandonAll found
    have place : s.abandonAll.slabAt k = s.slabAt k :=
      slabAt_eq_of_take rfl s.take_abandonAll (Nat.le_of_lt inside)
    rw [place]
    exact kept k w before behind
  | finished idle room =>
    have tail := aligned.tail_le_place aligned.released_le
    have head := aligned.1.head
    have longer := v.extend aligned [-1, 0] (by
      unfold endMarkSize at room
      simp only [List.length_cons, List.length_nil]
      omega)
    rw [current_of_idle idle] at longer
    exact v.append aligned whole rfl idle longer

theorem RecordsAt.of_read (v : s.RecordsAt) (side : s.SameWriter t)
    (grows : s.released ≤ t.released) : t.RecordsAt := by
  constructor
  · intro k w found behind
    rw [side.slab, side.slabAt, side.schema]
    rw [side.written] at found
    exact v.records k w found (Nat.le_trans grows behind)
  · rw [side.slab, side.slabAt, side.schema, side.written, side.current]
    exact v.opening

/-! ## The fields that are written -/

/-- Every field that is written and not given up has a property. -/
structure Every (s : Session) (property : Entry → Prop) : Prop where
  written : ∀ w ∈ s.written, ∀ e ∈ w.entries, property e
  current : ∀ e ∈ s.current.entries, property e

variable {property : Entry → Prop}

theorem Every.append {w : Written} (f : s.Every property) (written : t.written = s.written ++ [w])
    (closed : t.draft = none) (last : ∀ e ∈ w.entries, property e) : t.Every property := by
  constructor
  · intro w' member e inside
    rw [written, List.mem_append, List.mem_singleton] at member
    rcases member with member | rfl
    · exact f.written w' member e inside
    · exact last e inside
  · intro e inside
    rw [current_of_idle closed] at inside
    cases inside

/-- A property of all fields stays with them if every field that is accepted has it. -/
theorem Every.change {a : Action} (f : s.Every property) (change : s.WriterChange a t)
    (accepted : ∀ w e blob, a = .put w → w.Stores s.pipe e blob → property e) :
    t.Every property := by
  cases change with
  | asked => exact { f with }
  | begun => exact ⟨f.written, fun e inside => by cases inside⟩
  | nested => exact ⟨f.written, fun e inside => by cases inside⟩
  | @put w e d blob isOpen draft unconfirmed fits stores =>
    have before := f.current
    rw [current_of_draft draft] at before
    refine ⟨f.written, ?_⟩
    intro e' inside
    rcases List.mem_append.mp inside with inside | inside
    · exact before e' inside
    · rw [List.mem_singleton] at inside
      subst inside
      exact accepted w _ blob rfl stores
  | aside => exact { f with }
  | confirmed draft =>
    have before := f.current
    rw [current_of_draft draft] at before
    exact ⟨f.written, before⟩
  | published draft =>
    have before := f.current
    rw [current_of_draft draft] at before
    exact f.append rfl rfl before
  | flushed => exact { f with }
  | abandoned =>
    refine ⟨?_, fun e inside => by cases inside⟩
    intro w member
    exact f.written w (List.mem_of_mem_take member)
  | finished idle => exact f.append rfl idle fun e inside => by cases inside

theorem Every.of_read (f : s.Every property) (side : s.SameWriter t) : t.Every property := by
  constructor
  · rw [side.written]
    exact f.written
  · rw [side.current]
    exact f.current

/-! ## The base of the reader -/

/-- Between fragments the reader's base is where the bytes of its fragment begin, on the circle of
the blob. -/
def BaseAt (s : Session) : Prop :=
  s.pipe.consumer.readBase % (s.pipe.store.blob.size : Int) =
    s.blobAt s.received.length % (s.pipe.store.blob.size : Int)

theorem toInt_count (n : Nat) :
    (Int32.ofInt ((n : Int) % blobSpan)).toInt = (n : Int) % blobSpan := by
  have low := Int.emod_nonneg (n : Int) (b := blobSpan) (by decide)
  have high := Int.emod_lt_of_pos (n : Int) (b := blobSpan) (by decide)
  unfold blobSpan at low high ⊢
  exact Int32.toInt_ofInt_of_le (by omega) (by omega)

/-- The count that the reader finds at the end of a fragment is the number of its bytes. -/
theorem takeByteCount_fst {c : Reading} (v : s.RecordsAt) (aligned : s.Aligned)
    (reading : s.reading = some c) (closed : c.confirmed = true) :
    ∃ w, s.next? = some w ∧ c.fields.length = w.entries.length ∧
      s.pipe.takeByteCount.1 = (w.taken : Int) % blobSpan := by
  obtain ⟨w, next, all, tail, -⟩ := aligned.2.before_release aligned.1 reading closed
  have held := v.records _ w next aligned.2.given_le
  have ends := slabAt_succ next
  have place : s.pipe.consumer.slabTail =
      s.slabAt s.received.length + (w.opening s.pipe.schema).length := by
    rw [Written.length_opening]
    unfold Written.size at ends
    omega
  rw [Written.cells, Ring.holds_append, ← place] at held
  refine ⟨w, next, all, ?_⟩
  show (s.pipe.takeInt.1).toInt = _
  rw [Pipe.takeInt_fst held.2, toInt_count]

theorem BaseAt.release {c : Reading} (base : s.BaseAt) (v : s.RecordsAt) (aligned : s.Aligned)
    (turn : (s.pipe.store.blob.size : Int) ∣ blobSpan) (reading : s.reading = some c)
    (closed : c.confirmed = true) : (s.releaseNext c).BaseAt := by
  obtain ⟨w, next, -, count⟩ := takeByteCount_fst v aligned reading closed
  have length : (s.releaseNext c).received.length = s.received.length + 1 := by simp [releaseNext]
  have place : ∀ k, (s.releaseNext c).blobAt k = s.blobAt k := fun _ => rfl
  obtain ⟨_, _, _, _, _, _, moved⟩ := s.pipe.takeByteCount.2.releaseBatched_eq
    s.pipe.takeByteCount.2.consumer.slabTail s.pipe.takeByteCount.2.consumer.blobTail
  have released : (s.releaseNext c).pipe = _ := moved
  unfold BaseAt at base ⊢
  rw [length, place, blobAt_succ next, released]
  show (s.pipe.consumer.readBase + s.pipe.takeByteCount.1) % (s.pipe.store.blob.size : Int) %
    (s.pipe.store.blob.size : Int) = (_ + _) % (s.pipe.store.blob.size : Int)
  rw [count, Int.emod_emod, Int.add_emod, base, Int.emod_emod_of_dvd _ turn, ← Int.add_emod]

theorem BaseAt.change {a : Action} (base : s.BaseAt) (v : s.RecordsAt) (aligned : s.Aligned)
    (turn : (s.pipe.store.blob.size : Int) ∣ blobSpan) (change : s.Change a t) : t.BaseAt := by
  rcases change with writes | reads
  · have size := (Change.sameCapacity (.inl writes)).blob
    obtain ⟨m', grows, writer, same⟩ := aligned.1.change writes
    have side := writes.sameReader
    unfold BaseAt at base ⊢
    rw [side.consumer, side.received, size,
      blobAt_eq_of_take side.blobStart same aligned.2.received_le]
    exact base
  · cases reads with
    | looked => exact base
    | opened =>
      unfold openNext
      split
      · exact base
      · exact base
    | @took c w e kind =>
      obtain ⟨_, _, moved⟩ := s.pipe.takeField_eq kind
      unfold takeNext
      dsimp only
      rw [moved]
      exact base
    | passed => exact base
    | released reading closed => exact base.release v aligned turn reading closed
    | flushedReleased =>
      obtain ⟨_, _, moved⟩ := s.pipe.flushReleased_eq
      rw [moved]
      exact base
    | releasedToHere => exact base

/-! ## Runs -/

/-- The positions, the cells and the fields of a pipe are those of what was written. -/
structure Recorded (s : Session) : Prop where
  aligned : s.Aligned
  blob : s.BlobAt
  records : s.RecordsAt
  sound : s.Every (Entry.Sound s.pipe.store.config.constants)
  base : s.BaseAt
  size : s.pipe.store.blob.size = s.pipe.store.config.blobSize

theorem Recorded.turn (h : s.Recorded) : (s.pipe.store.blob.size : Int) ∣ blobSpan := by
  have whole : blobSpan = ((2 ^ 31 : Nat) : Int) := by decide
  have small := s.pipe.store.config.blobBits_le
  unfold maxBits at small
  rw [h.size, Config.blobSize, whole, Nat.one_shiftLeft]
  exact Int.natCast_dvd_natCast.mpr (Nat.pow_dvd_pow 2 (by omega))

theorem Recorded.change {a : Action} (h : s.Recorded) (change : s.Change a t) : t.Recorded := by
  obtain ⟨aligned', grows⟩ := h.aligned.change change
  have base := h.base.change h.records h.aligned h.turn change
  have config := change.sameCapacity.config
  have size : t.pipe.store.blob.size = t.pipe.store.config.blobSize := by
    rw [change.sameCapacity.blob, config]
    exact h.size
  rcases change with writes | reads
  · have sound := h.sound.change writes fun _ _ _ _ stores => stores.sound
    exact ⟨aligned', h.blob.change h.aligned.1 writes aligned',
      h.records.change h.blob h.aligned writes, config ▸ sound, base, size⟩
  · have side := reads.sameWriter
    exact ⟨aligned', h.blob.of_read side, h.records.of_read side grows,
      config ▸ h.sound.of_read side, base, size⟩

theorem recorded_start {store : Store} (same : store.slabTail = store.slabHead)
    (sameBlob : store.blobTail = store.blobHead) (low : 0 ≤ store.blobHead)
    (high : store.blobHead < blobSpan) (size : store.blob.size = store.config.blobSize) :
    (Session.start (.start store)).Recorded := by
  have first : (Session.start (.start store)).blobAt 0 = store.blobHead := Int.add_zero _
  have here : (Session.start (.start store)).blobAt 0 % blobSpan = store.blobHead := by
    rw [first, Int.emod_eq_of_lt low high]
  have aligned := aligned_start same
  refine ⟨aligned, .between rfl here rfl rfl rfl here.symm ?_, ⟨?_, Ring.holds_nil _ _⟩,
    ⟨nofun, nofun⟩, ?_, size⟩
  · intro short
    exact absurd short (Nat.lt_irrefl 0)
  · intro k w found
    cases found
  · show store.blobTail % (store.blob.size : Int) =
      (Session.start (.start store)).blobAt 0 % (store.blob.size : Int)
    rw [first, sameBlob]

theorem recorded_of_reaches {rule : Session → Action → Prop} (first : s.Recorded)
    (run : Reaches rule s t) : t.Recorded :=
  run.invariant first fun _ _ _ recorded _ call => recorded.change (change_of_step call)

theorem recorded_of_open? {registry : Registry} {config : Config} {slab blob : Int} {p : Pipe}
    (opened : registry.open? config slab blob = some p) : (Session.start p).Recorded := by
  rw [Registry.eq_of_open? opened]
  refine recorded_start rfl rfl ?_ ?_ ?_
  · exact Int.emod_nonneg _ (by decide)
  · exact Int.emod_lt_of_pos _ (by decide)
  · exact Ring.size_filled _ _

end Session

end FragmentPipe
