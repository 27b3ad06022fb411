import FragmentPipe.Proofs.Layout.CellCounts
import FragmentPipe.Proofs.Transfer.BlobPosition

/-!
How far looks move the blob position. A look that reads a field passes its bytes; one that only
takes the descriptor, or compares the bytes, passes none. `ReadsOnce` says that looks read each of
the fields that they come by, in any order. Main statements: `blobTail_lookAll` for any looks, and
`LooksAt.all`, looks that take the fields of a fragment come by what was written of it.
-/

namespace FragmentPipe

/-- Whether reading the field moves the blob position. -/
def Descriptor.isMoving (d : Descriptor) : Bool := decide (0 < d.moves)

theorem Descriptor.sum_moves_filter (ds : List Descriptor) :
    ((ds.filter isMoving).map moves).sum = (ds.map moves).sum := by
  induction ds with
  | nil => rfl
  | cons d ds ih =>
    rw [List.filter_cons, List.map_cons, List.sum_cons, ← ih]
    split
    · rfl
    · next still =>
      have unmoved : d.moves = 0 := by simpa [isMoving] using still
      rw [unmoved, Nat.zero_add]

variable {p q : Pipe} {α : Type} {l : Look α} {kind : FieldKind} {kinds : List FieldKind}
  {looks : List (Sigma Look)}

namespace Look

/-- The fields that a look reads. What is added to a view is taken to lie in the blob like the view.
-/
def reads {α : Type} (l : Look α) (p : Pipe) : List Descriptor :=
  match l with
  | take kind => if kind.isVariable then [p.takeDescriptor.1] else []
  | writeFieldTo _ | view => [p.takeDescriptor.1]
  | addToView v =>
    if v.length ≤ 0 then [p.takeDescriptor.1]
    else [⟨.blob p.takeDescriptor.1.origin.offset, p.takeDescriptor.1.length⟩]
  | locate offset length => [⟨.blob offset, length⟩]
  | readBytes d | readLowBytes d | readUtf8 d => [d]
  | readOptionalBytes d | readOptionalLowBytes d | readOptionalUtf8 d => [d]
  | _ => []

/-- The fields of variable length that a look comes by. -/
def meets {α : Type} (l : Look α) (p : Pipe) : List Descriptor :=
  match l with
  | take kind => if kind.isVariable then [p.takeDescriptor.1] else []
  | takeDescriptor | writeFieldTo _ | view | addToView _ => [p.takeDescriptor.1]
  | _ => []

theorem meets_of_takes (takes : l.takes kind = true) (p : Pipe) :
    l.meets p = if kind.isVariable then [p.takeDescriptor.1] else [] := by
  cases l with
  | take other =>
    obtain rfl : other = kind := of_decide_eq_true takes
    rfl
  | takeDescriptor | writeFieldTo | view | addToView => exact (if_pos takes).symm
  | _ => cases takes

theorem meets_of_takesNothing (nothing : l.takesNothing = true) (p : Pipe) : l.meets p = [] := by
  cases l with
  | takeMessage | take | takeDescriptor | writeFieldTo | view | addToView => cases nothing
  | _ => rfl

end Look

/-! ## How far the blob position moves -/

namespace Pipe

theorem writeFieldTo_blobTail (p : Pipe) (sink : Sink) :
    (p.writeFieldTo sink).2.2.consumer.blobTail % (p.store.blob.size : Int) =
      (p.consumer.blobTail + p.takeDescriptor.1.moves) % (p.store.blob.size : Int) := by
  unfold writeFieldTo
  dsimp only
  split
  · next absent => exact blobTail_of_absent (p := p.takeDescriptor.2) absent
  · split
    · exact p.takeDescriptor.2.passField_blobTail p.takeDescriptor.1
    · exact p.takeDescriptor.2.passField_blobTail p.takeDescriptor.1

theorem openField_blobTail (p : Pipe) :
    (FieldView.openField p).2.2.consumer.blobTail % (p.store.blob.size : Int) =
      (p.consumer.blobTail + p.takeDescriptor.1.moves) % (p.store.blob.size : Int) := by
  have passed := p.takeDescriptor.2.passField_blobTail p.takeDescriptor.1
  unfold passField at passed
  unfold FieldView.openField
  dsimp only
  cases origin : p.takeDescriptor.1.origin with
  | constants =>
    rw [origin] at passed
    exact passed
  | blob =>
    rw [origin] at passed
    exact passed

theorem addField_blobTail (v : FieldView) (more : ¬v.length ≤ 0) (p : Pipe) :
    (v.addField p).2.2.consumer.blobTail % (p.store.blob.size : Int) =
      (p.consumer.blobTail +
        Descriptor.moves ⟨.blob p.takeDescriptor.1.origin.offset, p.takeDescriptor.1.length⟩) %
        (p.store.blob.size : Int) := by
  unfold FieldView.addField
  rw [if_neg more]
  dsimp only
  split
  · exact p.takeDescriptor.2.locate_blobTail _ _
  · next absent =>
    exact blobTail_of_absent (p := p.takeDescriptor.2)
      (d := ⟨.blob p.takeDescriptor.1.origin.offset, _⟩) (Int.not_lt.mp absent)

theorem awaitContent_blobTail (p : Pipe) :
    p.awaitContent.2.consumer.blobTail = p.consumer.blobTail := by
  unfold awaitContent
  dsimp only
  split
  · rfl
  · split
    · rfl
    · rfl

end Pipe

/-- A look moves the blob position by the bytes of what it reads. -/
theorem Look.blobTail_run (l : Look α) (p : Pipe) :
    (l.run p).2.consumer.blobTail % (p.store.blob.size : Int) =
      (p.consumer.blobTail + ((l.reads p).map Descriptor.moves).sum) %
        (p.store.blob.size : Int) := by
  have still {tail : Int} (same : tail = p.consumer.blobTail) :
      tail % (p.store.blob.size : Int) =
        (p.consumer.blobTail + ((0 : Nat) : Int)) % (p.store.blob.size : Int) := by
    rw [same, Int.natCast_zero, Int.add_zero]
  cases l with
  | take kind =>
    by_cases isVariable : kind.isVariable = true
    · have read : (take kind).reads p = [p.takeDescriptor.1] := if_pos isVariable
      rw [read]
      exact Pipe.takeField_blobTail_variable isVariable
    · have read : (take kind).reads p = [] := if_neg isVariable
      rw [read]
      refine still ?_
      cases kind <;> first | rfl | exact absurd rfl isVariable
  | locate offset length => exact p.locate_blobTail offset length
  | awaitContent => exact still p.awaitContent_blobTail
  | readBytes d => exact p.readBytes_blobTail d
  | readLowBytes d => exact p.readLowBytes_blobTail d
  | readUtf8 d => exact p.readUtf8_blobTail d
  | readOptionalBytes d => exact Pipe.readPresent_blobTail Pipe.readBytes_blobTail p d
  | readOptionalLowBytes d => exact Pipe.readPresent_blobTail Pipe.readLowBytes_blobTail p d
  | readOptionalUtf8 d => exact Pipe.readPresent_blobTail Pipe.readUtf8_blobTail p d
  | writeFieldTo sink => exact p.writeFieldTo_blobTail sink
  | view => exact p.openField_blobTail
  | addToView v =>
    by_cases nothing : v.length ≤ 0
    · have read : (addToView v).reads p = [p.takeDescriptor.1] := if_pos nothing
      have opened : v.addField p = FieldView.openField p := if_pos nothing
      rw [read]
      show (v.addField p).2.2.consumer.blobTail % _ = _
      rw [opened]
      exact p.openField_blobTail
    · have read : (addToView v).reads p =
          [⟨.blob p.takeDescriptor.1.origin.offset, p.takeDescriptor.1.length⟩] := if_neg nothing
      rw [read]
      exact p.addField_blobTail v nothing
  | _ => exact still rfl

namespace Pipe

/-- The fields that looks read one after the other. -/
def readsAlong (p : Pipe) : List (Sigma Look) → List Descriptor
  | [] => []
  | l :: rest => l.2.reads p ++ (l.2.run p).2.readsAlong rest

/-- The fields of variable length that looks come by. -/
def meetsAlong (p : Pipe) : List (Sigma Look) → List Descriptor
  | [] => []
  | l :: rest => l.2.meets p ++ (l.2.run p).2.meetsAlong rest

/-- Of the fields in the blob that looks come by, each is read once, in any order. -/
def ReadsOnce (p : Pipe) (looks : List (Sigma Look)) : Prop :=
  ((p.readsAlong looks).filter Descriptor.isMoving).Perm
    ((p.meetsAlong looks).filter Descriptor.isMoving)

instance (p : Pipe) (looks : List (Sigma Look)) : Decidable (p.ReadsOnce looks) :=
  inferInstanceAs (Decidable (List.Perm _ _))

theorem LooksOn.blob {width : Nat} (on : p.LooksOn width q) : q.store.blob = p.store.blob := by
  obtain ⟨_, _, _, _, rfl⟩ := on
  rfl

theorem LooksOn.readBase {width : Nat} (on : p.LooksOn width q) :
    q.consumer.readBase = p.consumer.readBase := by
  obtain ⟨_, _, _, _, rfl⟩ := on
  rfl

theorem looksOn_lookAll (p : Pipe) (looks : List (Sigma Look)) :
    ∃ width, p.LooksOn width (p.lookAll looks) := by
  induction looks generalizing p with
  | nil => exact ⟨0, p.looksOn_refl⟩
  | cons l rest ih =>
    obtain ⟨width, later⟩ := ih (l.2.run p).2
    exact ⟨_, (l.2.looksOn p).trans later⟩

theorem blobTail_lookAll (p : Pipe) (looks : List (Sigma Look)) :
    (p.lookAll looks).consumer.blobTail % (p.store.blob.size : Int) =
      (p.consumer.blobTail + ((p.readsAlong looks).map Descriptor.moves).sum) %
        (p.store.blob.size : Int) := by
  induction looks generalizing p with
  | nil => exact congrArg (· % _) (Int.add_zero _).symm
  | cons l rest ih =>
    have one := l.2.blobTail_run p
    have later := ih (l.2.run p).2
    rw [(l.2.looksOn p).blob] at later
    rw [lookAll, later, readsAlong, List.map_append, List.sum_append, Int.natCast_add,
      ← Int.add_assoc]
    exact Int.add_emod_eq_add_emod_right _ one

/-- Reading each field once is as far as all of them are. -/
theorem ReadsOnce.sum_moves (once : p.ReadsOnce looks) :
    ((p.readsAlong looks).map Descriptor.moves).sum =
      ((p.meetsAlong looks).map Descriptor.moves).sum := by
  rw [← Descriptor.sum_moves_filter, ← Descriptor.sum_moves_filter (p.meetsAlong looks)]
  exact (once.map Descriptor.moves).sum_nat

theorem endFragment_fst (p : Pipe) (ending : Ending) :
    (p.endFragment ending).1 = p.takeByteCount.1 := by
  cases ending with
  | release | defer => rfl

/-- At the end of a fragment the blob position is where the byte count leads to. -/
theorem endFragment_blobTail (p : Pipe) (ending : Ending) :
    (p.endFragment ending).2.consumer.blobTail = p.takeByteCount.2.consumer.blobTail := by
  cases ending with
  | release => exact (p.takeByteCount.2.keeps_releaseBatched _ _).blobTail
  | defer => rfl

/-! ## What looks come by -/

/-- A pipe whose reader stands at fields that were written, with other cells behind them. -/
structure LooksAt (p : Pipe) (offset : Nat) (es : List Entry) (rest : List Int32) : Prop where
  cells : p.store.slab.Holds p.consumer.slabTail (Entry.lay p.schema offset es ++ rest)
  sound : ∀ e ∈ es, e.Sound p.store.config.constants

/-- A look that passes no cells leaves the reader before the same fields. -/
theorem LooksAt.aside {offset : Nat} {es : List Entry} {rest : List Int32}
    (stands : p.LooksAt offset es rest) (on : p.LooksOn 0 q) : q.LooksAt offset es rest := by
  obtain ⟨tail, _, _, _, rfl⟩ := on
  refine ⟨?_, stands.sound⟩
  have same : p.consumer.slabTail + ((0 : Nat) : Int) = p.consumer.slabTail := Int.add_zero _
  show p.store.slab.Holds (p.consumer.slabTail + ((0 : Nat) : Int)) _
  rw [same]
  exact stands.cells

/-- A look that takes a field leaves the reader before the next one. -/
theorem LooksAt.next {offset : Nat} {e : Entry} {es : List Entry} {rest : List Int32}
    (stands : p.LooksAt offset (e :: es) rest) (on : p.LooksOn e.width q) :
    q.LooksAt (offset + e.taken) es rest := by
  obtain ⟨cells, sound⟩ := stands
  rw [Entry.lay, List.append_assoc, Ring.holds_append, Entry.length_cells] at cells
  obtain ⟨tail, _, _, _, rfl⟩ := on
  exact ⟨cells.2, fun e' inside => sound e' (List.mem_cons_of_mem _ inside)⟩

/-- The field that a look takes moves the blob position by the bytes that were written of it. -/
theorem LooksAt.moves_meets {offset : Nat} {e : Entry} {es : List Entry} {rest : List Int32}
    (stands : p.LooksAt offset (e :: es) rest) (fits : e.fits kind = true)
    (takes : l.takes kind = true) : ((l.meets p).map Descriptor.moves).sum = e.taken := by
  rw [Look.meets_of_takes takes]
  cases e with
  | scalar value =>
    have fixed : ¬kind.isVariable = true := by
      cases value <;> cases kind <;> first | exact Bool.false_ne_true | cases fits
    rw [if_neg fixed]
    rfl
  | content c =>
    have isVariable : kind.isVariable = true := fits
    have cells := stands.cells
    rw [Entry.lay, List.append_assoc, Ring.holds_append] at cells
    rw [if_pos isVariable]
    exact moves_takeDescriptor cells.1 (stands.sound _ List.mem_cons_self)

/-- Looks that take fields come by the bytes that were written of them, and end before what follows
them. -/
theorem LooksAt.all {offset : Nat} {es : List Entry} {rest : List Int32}
    (stands : p.LooksAt offset es rest) (taken : Look.Takes kinds looks)
    (fits : List.Forall₂ (fun e kind => e.fits kind = true) es kinds) :
    ((p.meetsAlong looks).map Descriptor.moves).sum = (es.map Entry.taken).sum ∧
      (p.lookAll looks).store.slab.Holds (p.lookAll looks).consumer.slabTail rest := by
  induction taken generalizing p offset es with
  | nil =>
    cases fits
    exact ⟨rfl, stands.cells⟩
  | @field kind kinds α l looks first _ ih =>
    obtain ⟨e, es, fit, later, rfl⟩ := List.forall₂_cons_right_iff.mp fits
    have width : l.width = e.width :=
      (Look.width_of_takes first).trans (Entry.width_eq_of_fits fit).symm
    obtain ⟨moves, ended⟩ := ih (stands.next (width ▸ l.looksOn p)) later
    refine ⟨?_, ended⟩
    rw [meetsAlong, List.map_append, List.sum_append, moves, stands.moves_meets fit first]
    rfl
  | @aside kinds α l looks nothing _ ih =>
    have width := Look.width_of_takesNothing nothing
    obtain ⟨later, ended⟩ := ih (stands.aside (width ▸ l.looksOn p)) fits
    refine ⟨?_, ended⟩
    rw [meetsAlong, Look.meets_of_takesNothing nothing, List.nil_append]
    exact later

end Pipe

end FragmentPipe
