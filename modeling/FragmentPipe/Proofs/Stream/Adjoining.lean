import FragmentPipe.Proofs.Stream.Gathering
import FragmentPipe.Proofs.Transfer.BlobPosition

/-!
Fields of the blob that adjoin. The writer describes every field from the base of its fragment and
lays its bytes behind those of the field before, so fields that follow each other in the slab lie one
behind the other in the blob, whatever they are written with. Main statement: `adjoining_gathered`, a
reader that stands before such fields gathers them as one stream, after a writer has laid them and in
every run; where no unreleased byte is overwritten, the stream is what was written.
-/

namespace FragmentPipe

/-! ## The cells of a row -/

/-- The cells of fields of the blob that have these lengths and lie one behind the other, the first
one `offset` bytes behind the base. -/
def Descriptor.row (offset : Int) : List Int → List Int32
  | [] => []
  | n :: ns => Descriptor.cells ⟨.blob (offset % blobSpan), n⟩ ++ row (offset + n.toNat) ns

theorem Descriptor.length_row (offset : Int) (ns : List Int) :
    (row offset ns).length = 2 * ns.length := by
  induction ns generalizing offset with
  | nil => rfl
  | cons n ns ih =>
    rw [row, List.length_append, ih, List.length_cons]
    show 2 + _ = _
    omega

/-- A row is the same at offsets that are the same on the circle of blob positions. -/
theorem Descriptor.row_congr {i j : Int} (same : i % blobSpan = j % blobSpan) (ns : List Int) :
    row i ns = row j ns := by
  induction ns generalizing i j with
  | nil => rfl
  | cons n ns ih => rw [row, row, same, ih (Int.add_emod_eq_add_emod_right _ same)]

namespace Part

theorem neg_one_le_length (part : Part) : -1 ≤ part.length := by
  cases part with
  | none => exact Int.le_refl _
  | some data => exact Int.le_trans (by decide) (Int.natCast_nonneg _)

/-- Whatever a ring has from a place on is fields of any lengths, one behind the other. -/
theorem exists_of_ring (r : Ring UInt8) (place : Int) {ns : List Int} (present : ∀ n ∈ ns, -1 ≤ n) :
    ∃ parts : List Part, parts.map length = ns ∧ r.Holds place (join parts) := by
  induction ns generalizing place with
  | nil => exact ⟨[], rfl, Ring.holds_nil _ _⟩
  | cons n ns ih =>
    obtain ⟨first, rest⟩ := List.forall_mem_cons.mp present
    obtain ⟨parts, lengths, bytes⟩ := ih (place + n.toNat) rest
    by_cases absent : n < 0
    · have zero : n.toNat = 0 := Int.toNat_eq_zero.mpr (Int.le_of_lt absent)
      have here : place + (n.toNat : Int) = place := by omega
      have length : length none = n := by
        show (-1 : Int) = n
        omega
      rw [here] at bytes
      exact ⟨none :: parts, congrArg₂ List.cons length lengths, bytes⟩
    · have size := ByteStore.length_getList r place n.toNat
      have length : length (some (ByteStore.getList r place n.toNat)) = n := by
        show ((ByteStore.getList r place n.toNat).length : Int) = n
        omega
      refine ⟨some (ByteStore.getList r place n.toNat) :: parts,
        congrArg₂ List.cons length lengths, ?_⟩
      rw [join_cons, Ring.holds_append]
      refine ⟨r.holds_getList place n.toNat, ?_⟩
      show r.Holds (place + (ByteStore.getList r place n.toNat).length) _
      rw [size]
      exact bytes

end Part

/-- Where the cells describe a row and the blob has the bytes, the parts lie in a row. -/
theorem Store.row_of_cells {s : Store} {base tail place offset : Int} {parts : List Part}
    (turn : (s.blob.size : Int) ∣ blobSpan) (short : ∀ part ∈ parts, part.length ≤ Pipe.maxInt)
    (cells : s.slab.Holds tail (Descriptor.row offset (parts.map Part.length)))
    (here : (base + offset) % (s.blob.size : Int) = place % (s.blob.size : Int))
    (bytes : s.blob.Holds place (Part.join parts)) : s.Row base tail place parts := by
  induction parts generalizing tail place offset with
  | nil => exact .nil _ _
  | cons part parts ih =>
    obtain ⟨first, rest⟩ := List.forall_mem_cons.mp short
    rw [List.map_cons, Descriptor.row, Ring.holds_append] at cells
    rw [Part.join_cons, Ring.holds_append] at bytes
    have size := part.toNat_length
    have low := part.neg_one_le_length
    have told : Descriptor.ofCells (s.slab.get tail) (s.slab.get (tail + 1)) =
        ⟨.blob (offset % blobSpan), part.length⟩ := by
      obtain ⟨origin, length⟩ := Ring.holds_cons.mp cells.1
      have back : (Int32.ofInt part.length).toInt = part.length := by
        unfold Pipe.maxInt at first
        exact Int32.toInt_ofInt_of_le (by omega) (by omega)
      rw [origin, (Ring.holds_cons.mp length).1, Descriptor.ofCells, back,
        Origin.ofCell_toCell_blob (Int.emod_nonneg _ (by decide)) (Int.emod_lt_of_pos _ (by decide))]
    refine .cons told ?_ bytes.1 (ih rest cells.2 ?_ bytes.2)
    · rw [Int.add_emod, Int.emod_emod_of_dvd _ turn, ← Int.add_emod, here]
    · rw [size, ← Int.add_assoc]
      exact Int.add_emod_eq_add_emod_right _ here

/-! ## What the writer lays -/

namespace Content

/-- Whether the bytes of the field lie in the blob, if it has any. -/
def inBlob : Content → Bool
  | constant _ _ => false
  | _ => true

/-- The field by itself. -/
def part (c : Content) : Part := if c.length < 0 then none else some c.bytesIn

variable {c : Content}

theorem descriptor_of_inBlob (blob : c.inBlob = true) (offset : Int) :
    c.descriptor offset = ⟨.blob offset, c.length⟩ := by
  cases c with
  | constant start count => cases blob
  | _ => rfl

theorem taken_of_inBlob {constants : Buffer} (sound : c.Sound constants) (blob : c.inBlob = true) :
    (Entry.content c).taken = c.length.toNat := by
  rw [← moves_descriptor sound 0, descriptor_of_inBlob blob]
  rfl

/-- A field of the blob is absent, or it tells how many bytes it has. -/
theorem neg_one_le_length {constants : Buffer} (sound : c.Sound constants) (blob : c.inBlob = true) :
    -1 ≤ c.length := by
  cases checked : c.checked? with
  | some length =>
    rw [length_eq_of_checked checked, sound.told length checked]
    unfold Pipe.fieldLength Pipe.maxInt
    omega
  | none =>
    cases c with
    | constant start count => cases blob
    | _ =>
      simp only [length, checked, Option.getD_none]
      decide

theorem length_part {constants : Buffer} (sound : c.Sound constants) (blob : c.inBlob = true)
    (short : (c.bytesIn.length : Int) ≤ Pipe.maxInt) : c.part.length = c.length := by
  have low := neg_one_le_length sound blob
  unfold part
  split
  · show (-1 : Int) = c.length
    omega
  · next present =>
    show (c.bytesIn.length : Int) = c.length
    have held := length_heldBytes sound short (Int.not_lt.mp present)
    have same : c.heldBytes constants = c.bytesIn := by
      cases c with
      | constant start count => cases blob
      | _ => rfl
    rw [same] at held
    omega

theorem data_part {constants : Buffer} (sound : c.Sound constants) (blob : c.inBlob = true) :
    c.part.data = c.bytesIn := by
  unfold part
  split
  · next absent =>
    have untaken : (Entry.content c).taken = 0 :=
      (taken_of_inBlob sound blob).trans (Int.toNat_eq_zero.mpr (Int.le_of_lt absent))
    have size : min c.bytesIn.length 0x7FFFFFFF = 0 := untaken
    exact (List.length_eq_zero_iff.mp (by omega)).symm
  · rfl

end Content

/-- Between two states of a pipe a field of the blob is written whose descriptor tells this length. -/
structure Pipe.Lays (p : Pipe) (n : Int) (q : Pipe) : Prop where
  slab : q.store.slab = p.store.slab.setList p.producer.slabHead
    (Descriptor.cells ⟨.blob ((p.producer.blobHead - p.producer.writeBase) % blobSpan), n⟩)
  slabHead : q.producer.slabHead = p.producer.slabHead + 2
  blobHead : q.producer.blobHead % blobSpan = (p.producer.blobHead + n.toNat) % blobSpan
  writeBase : q.producer.writeBase = p.producer.writeBase
  present : -1 ≤ n

/-- What is committed is laid. -/
theorem Pipe.Commits.lays {p q : Pipe} {length : Nat} (committed : p.Commits length q) :
    p.Lays length q := by
  obtain ⟨blob, average, isOpen, rfl⟩ := committed
  rw [commitField_eq]
  refine ⟨rfl, rfl, ?_, rfl, Int.le_trans (by decide) (Int.natCast_nonneg _)⟩
  show (p.producer.blobHead + (length : Int)) % blobSpan % blobSpan = _
  rw [Int.emod_emod, Int.toNat_natCast]

theorem Content.lays {c : Content} {p q : Pipe} (accepted : c.put p = (.ok (), q))
    (blob : c.inBlob = true) : p.Lays c.length q := by
  have outcome := c.outcome p
  rw [accepted] at outcome
  cases outcome with
  | accepted allowed sound =>
    rw [descriptor_of_inBlob blob]
    refine ⟨rfl, rfl, ?_, rfl, neg_one_le_length sound blob⟩
    show c.headAfter p.producer.blobHead % blobSpan = _
    have taken := taken_of_inBlob sound blob
    unfold headAfter
    cases checked : c.checked? with
    | none =>
      have untaken := Entry.taken_eq_of_bytesIn (e := .content c) (sound.bare checked)
      rw [← taken, untaken]
      exact congrArg (· % _) (Int.add_zero _).symm
    | some length =>
      have size : (c.length.toNat : Int) = length := by
        rw [length_eq_of_checked checked, sound.told length checked]
        unfold Pipe.fieldLength Pipe.maxInt
        omega
      rw [size, Int.emod_emod]

namespace Offer

/-- Whether the bytes of the field lie in the blob, if it has any. -/
def inBlob : Offer → Bool
  | field c => c.inBlob
  | _ => true

/-- The length of the field. -/
def length (o : Offer) (p : Pipe) : Int :=
  match o with
  | field c => c.length
  | _ => o.size p

/-- Every field of the blob that is accepted, in whichever way it is offered, is laid. -/
theorem lays {o : Offer} {p q : Pipe} {x : Option FieldView} (accepted : o.run p = (.ok (), x, q))
    (blob : o.inBlob = true) : p.Lays (o.length p) q := by
  obtain ⟨c, rfl, written⟩ | ⟨other, committed⟩ := o.written_or_commits accepted
  · exact c.lays written blob
  · cases o with
    | field c => exact absurd rfl (other c)
    | _ => exact committed.lays

end Offer

namespace Pipe

/-- Writes fields of the blob one after the other, each in the way it is offered, as long as they are
accepted; the answer has their lengths. -/
def layAll (p : Pipe) : List Offer → Option (List Int × Pipe)
  | [] => some ([], p)
  | o :: os =>
    match o.run p with
    | (.error _, _, _) => none
    | (.ok _, _, q) =>
      if o.inBlob = true ∧ o.length p ≤ maxInt then
        (q.layAll os).map fun laid => (o.length p :: laid.1, laid.2)
      else none

variable {p q r : Pipe} {n : Int} {ns : List Int} {os : List Offer}

theorem exists_of_layAll {o : Offer} (laid : p.layAll (o :: os) = some (ns, r)) :
    ∃ q ms, p.Lays (o.length p) q ∧ o.length p ≤ maxInt ∧ q.layAll os = some (ms, r) ∧
      ns = o.length p :: ms := by
  rw [layAll] at laid
  split at laid
  · cases laid
  · next u x q accepted =>
    split at laid
    · next good =>
      obtain ⟨⟨ms, r'⟩, later, same⟩ := Option.map_eq_some_iff.mp laid
      cases same
      exact ⟨q, ms, Offer.lays accepted good.1, good.2, later, rfl⟩
    · cases laid

theorem Lays.offset (h : p.Lays n q) :
    (q.producer.blobHead - q.producer.writeBase) % blobSpan =
      (p.producer.blobHead - p.producer.writeBase + n.toNat) % blobSpan := by
  rw [h.writeBase, Int.sub_emod, h.blobHead, ← Int.sub_emod]
  congr 1
  omega

/-- What is laid is a row of cells behind the slab head. -/
theorem slab_of_layAll (laid : p.layAll os = some (ns, q)) :
    q.store.slab = p.store.slab.setList p.producer.slabHead
      (Descriptor.row (p.producer.blobHead - p.producer.writeBase) ns) := by
  induction os generalizing p ns with
  | nil =>
    cases laid
    rfl
  | cons o os ih =>
    obtain ⟨r, ms, first, -, later, rfl⟩ := exists_of_layAll laid
    rw [ih later, first.slab, first.slabHead, Descriptor.row, Ring.setList_append,
      Descriptor.row_congr first.offset]
    rfl

theorem bounds_of_layAll (laid : p.layAll os = some (ns, q)) : ∀ n ∈ ns, -1 ≤ n ∧ n ≤ maxInt := by
  induction os generalizing p ns with
  | nil =>
    cases laid
    exact nofun
  | cons o os ih =>
    obtain ⟨r, ms, first, short, later, rfl⟩ := exists_of_layAll laid
    exact List.forall_mem_cons.mpr ⟨⟨first.present, short⟩, ih later⟩

/-- A reader stands where fields were laid between two states of a pipe, and their cells are still
there: it counts from the base of the writer, and its blob position is where the fields begin, on the
circle of the blob. -/
structure StandsBefore (r p q : Pipe) (count : Nat) : Prop where
  apart : 2 * count ≤ p.store.slab.size
  cells : ∀ i < 2 * count, r.store.slab.get (r.consumer.slabTail + (i : Nat)) =
    q.store.slab.get (p.producer.slabHead + (i : Nat))
  small : r.store.blob.bits ≤ maxBits
  base : r.consumer.readBase % (r.store.blob.size : Int) =
    p.producer.writeBase % (r.store.blob.size : Int)
  here : r.consumer.blobTail % (r.store.blob.size : Int) =
    p.producer.blobHead % (r.store.blob.size : Int)

/-- A reader gathers what was laid where it stands. -/
theorem StandsBefore.gathers (stands : r.StandsBefore p q ns.length)
    (laid : p.layAll os = some (ns, q)) :
    (r.nextParts ns.length).map Part.length = ns ∧
      r.Gathers (r.StillHas p.producer.blobHead (r.nextParts ns.length)) p.producer.blobHead
        (r.nextParts ns.length) := by
  have turn := Ring.size_dvd_blobSpan stands.small
  have bounds := bounds_of_layAll laid
  have cells : r.store.slab.Holds r.consumer.slabTail
      (Descriptor.row (p.producer.blobHead - p.producer.writeBase) ns) := by
    have size := Descriptor.length_row (p.producer.blobHead - p.producer.writeBase) ns
    have held := p.store.slab.holds_setList p.producer.slabHead _ (size ▸ stands.apart)
    rw [← slab_of_layAll laid] at held
    intro i inside
    exact (stands.cells i (size ▸ inside)).trans (held i inside)
  have start : (r.consumer.readBase + (p.producer.blobHead - p.producer.writeBase)) %
      (r.store.blob.size : Int) = p.producer.blobHead % (r.store.blob.size : Int) := by
    rw [Int.add_emod, stands.base, ← Int.add_emod]
    congr 1
    omega
  obtain ⟨parts, rfl, bytes⟩ := Part.exists_of_ring r.store.blob p.producer.blobHead
    fun n inside => (bounds n inside).1
  have short : ∀ part ∈ parts, part.length ≤ maxInt :=
    fun part inside => (bounds _ (List.mem_map_of_mem inside)).2
  have row := Store.row_of_cells turn short cells start bytes
  rw [List.length_map, row.nextParts_eq turn]
  exact ⟨rfl, row.gathers turn stands.here⟩

end Pipe

/-! ## Rows in a run -/

namespace Entry

/-- The fields of the blob at the front, up to the first other field. -/
def blobFields : List Entry → List Content
  | .content c :: rest => if c.inBlob then c :: blobFields rest else []
  | _ => []

theorem inBlob_of_mem_blobFields {es : List Entry} {c : Content} (inside : c ∈ blobFields es) :
    c.inBlob = true := by
  induction es with
  | nil => cases inside
  | cons e es ih =>
    cases e with
    | scalar value => cases inside
    | content x =>
      rw [blobFields] at inside
      split at inside
      · next blob =>
        rcases List.mem_cons.mp inside with rfl | later
        · exact blob
        · exact ih later
      · cases inside

theorem blobFields_split (es : List Entry) : ∃ rest, es = (blobFields es).map content ++ rest := by
  induction es with
  | nil => exact ⟨[], rfl⟩
  | cons e es ih =>
    cases e with
    | scalar value => exact ⟨scalar value :: es, rfl⟩
    | content x =>
      rw [blobFields]
      split
      · obtain ⟨rest, split⟩ := ih
        exact ⟨rest, congrArg (content x :: ·) split⟩
      · exact ⟨content x :: es, rfl⟩

/-- The cells of fields of the blob are a row. -/
theorem lay_contents {constants : Buffer} (s : Schema) (offset : Nat) {cs : List Content}
    (sound : ∀ c ∈ cs, c.Sound constants) (blob : ∀ c ∈ cs, c.inBlob = true) :
    lay s offset (cs.map content) = Descriptor.row offset (cs.map Content.length) := by
  induction cs generalizing offset with
  | nil => rfl
  | cons c cs ih =>
    obtain ⟨sound, sounds⟩ := List.forall_mem_cons.mp sound
    obtain ⟨blob, blobs⟩ := List.forall_mem_cons.mp blob
    have taken := Content.taken_of_inBlob sound blob
    have cells : cells s ((offset : Int) % blobSpan) (content c) =
        (c.descriptor ((offset : Int) % blobSpan)).cells := rfl
    rw [List.map_cons, lay, ih _ sounds blobs, cells, Content.descriptor_of_inBlob blob, taken,
      Int.natCast_add]
    rfl

end Entry

/-- A call of the writer with which no byte is lost. -/
def writing (s : Session) (a : Action) : Prop := lossless s a ∧ a.reads = false

instance (s : Session) (a : Action) : Decidable (writing s a) := inferInstanceAs (Decidable (_ ∧ _))

namespace Session

/-- The fields of the blob that the reader stands before, and the fields before them in their
fragment. -/
def row? (s : Session) : Option (List Entry × List Content) :=
  match s.reading, s.next? with
  | some c, some w =>
    some (w.entries.take c.fields.length, Entry.blobFields (w.entries.drop c.fields.length))
  | _, _ => none

variable {s t : Session} {a : Action} {before : List Entry} {cs : List Content}

theorem exists_of_row? (row : s.row? = some (before, cs)) :
    ∃ c w rest, s.reading = some c ∧ s.next? = some w ∧ before = w.entries.take c.fields.length ∧
      w.entries.drop c.fields.length = cs.map Entry.content ++ rest ∧
      ∀ c ∈ cs, c.inBlob = true := by
  unfold row? at row
  split at row
  · next c w reading next =>
    cases row
    obtain ⟨rest, split⟩ := Entry.blobFields_split (w.entries.drop c.fields.length)
    exact ⟨c, w, rest, reading, next, rfl, split, fun c => Entry.inBlob_of_mem_blobFields⟩
  · cases row

/-- Fields that the reader stands before are sound. -/
theorem Recorded.sound_of_row (h : s.Recorded) (row : s.row? = some (before, cs)) :
    ∀ c ∈ cs, c.Sound s.pipe.store.config.constants := by
  obtain ⟨c, w, rest, -, next, -, behind, -⟩ := exists_of_row? row
  intro x inside
  have ahead : Entry.content x ∈ w.entries.drop c.fields.length := by
    rw [behind]
    exact List.mem_append_left _ (List.mem_map_of_mem inside)
  exact h.sound.written w (List.mem_of_getElem? next) _ (List.mem_of_mem_drop ahead)

/-- The cells of the fields that the reader stands before lie there as they were written. -/
theorem Recorded.cells_of_row (h : s.Recorded) (row : s.row? = some (before, cs)) :
    s.pipe.store.slab.Holds s.pipe.consumer.slabTail
      (Descriptor.row ((before.map Entry.taken).sum : Nat) (cs.map Content.length)) := by
  have sound := h.sound_of_row row
  obtain ⟨c, w, rest, reading, next, rfl, behind, blob⟩ := exists_of_row? row
  have cells := h.lay_of_reading reading next
  rw [behind, Entry.lay_append, Entry.lay_contents _ _ sound blob, Ring.holds_append] at cells
  exact cells.1

/-- Where the blob has the bytes of parts as long as the fields, the parts lie in a row before the
reader. -/
theorem Recorded.storeRow {parts : List Part} (h : s.Recorded) (row : s.row? = some (before, cs))
    (lengths : parts.map Part.length = cs.map Content.length)
    (bytes : s.pipe.store.blob.Holds (s.place s.received.length before) (Part.join parts)) :
    s.pipe.store.Row s.pipe.consumer.readBase s.pipe.consumer.slabTail
      (s.place s.received.length before) parts := by
  have sound := h.sound_of_row row
  refine Store.row_of_cells h.turn ?_ (lengths ▸ h.cells_of_row row)
    (Int.add_emod_eq_add_emod_right _ h.base) bytes
  intro part inside
  have told := List.mem_map_of_mem (f := Part.length) inside
  rw [lengths] at told
  obtain ⟨c, member, same⟩ := List.mem_map.mp told
  rw [← same]
  exact (sound c member).length_bounds.2

/-- The blob position of the reader is where the fields begin. -/
theorem Passing.of_row (h : s.Passing) (row : s.row? = some (before, cs)) :
    s.pipe.consumer.blobTail % (s.pipe.store.blob.size : Int) =
      s.place s.received.length before % (s.pipe.store.blob.size : Int) := by
  obtain ⟨c, w, rest, reading, next, front, -⟩ := exists_of_row? row
  rw [Passing, passedBytes_of_reading reading next, ← front] at h
  exact h

/-- In every run the reader gathers the fields that it stands before. -/
theorem Reached.gathers (h : s.Reached) (row : s.row? = some (before, cs)) :
    (s.pipe.nextParts cs.length).map Part.length = cs.map Content.length ∧
      s.pipe.Gathers
        (s.pipe.StillHas (s.place s.received.length before) (s.pipe.nextParts cs.length))
        (s.place s.received.length before) (s.pipe.nextParts cs.length) := by
  have recorded := h.recorded
  have passing : s.Passing := by
    obtain ⟨registry, config, slab, blob, p, opened, run⟩ := h
    exact passing_of_reaches (recorded_of_open? opened) (passing_of_open? opened) run
  have sound := recorded.sound_of_row row
  obtain ⟨-, -, -, -, -, -, -, blob⟩ := exists_of_row? row
  have present : ∀ n ∈ cs.map Content.length, -1 ≤ n := by
    intro n inside
    obtain ⟨c, member, rfl⟩ := List.mem_map.mp inside
    exact Content.neg_one_le_length (sound c member) (blob c member)
  obtain ⟨parts, lengths, bytes⟩ :=
    Part.exists_of_ring s.pipe.store.blob (s.place s.received.length before) present
  have lies := recorded.storeRow row lengths bytes
  have count : cs.length = parts.length := by
    rw [← List.length_map (f := Content.length), ← lengths, List.length_map]
  rw [count, lies.nextParts_eq recorded.turn]
  exact ⟨lengths, lies.gathers recorded.turn (passing.of_row row)⟩

/-! ### Rows whose bytes are not overwritten -/

/-- As long as no byte is lost, the fields lie before the reader as they were written. -/
theorem Faithful.storeRow (f : s.Faithful) (row : s.row? = some (before, cs)) :
    s.pipe.store.Row s.pipe.consumer.readBase s.pipe.consumer.slabTail
      (s.place s.received.length before) (cs.map Content.part) := by
  obtain ⟨h, y, i, -⟩ := f
  have sound := h.sound_of_row row
  obtain ⟨c, w, rest, reading, next, taken, behind, blob⟩ := exists_of_row? row
  have short := y.short.written w (List.mem_of_getElem? next)
  have entries := List.take_append_drop c.fields.length w.entries
  rw [← taken, behind] at entries
  rw [← entries] at short
  have small : (1 <<< maxBits : Nat) ≤ Pipe.maxInt := by decide
  have lengths : (cs.map Content.part).map Part.length = cs.map Content.length := by
    rw [List.map_map]
    refine List.map_congr_left fun x inside => ?_
    have one : x.bytesIn.length ≤ 1 <<< maxBits := short (.content x)
      (List.mem_append_right _ (List.mem_append_left _ (List.mem_map_of_mem inside)))
    exact Content.length_part (sound x inside) (blob x inside) (by omega)
  have joined : (cs.map Entry.content).flatMap Entry.bytesIn = Part.join (cs.map Content.part) := by
    rw [Part.join, List.flatMap_map, List.flatMap_map]
    rw [List.flatMap_def, List.flatMap_def]
    exact congrArg List.flatten (List.map_congr_left fun x inside =>
      (Content.data_part (sound x inside) (blob x inside)).symm)
  have bytes := i.records _ w next h.aligned.2.given_le
  have front : ((before.flatMap Entry.bytesIn).length : Int) = (before.map Entry.taken).sum := by
    rw [Entry.sum_taken_eq fun e inside => short e (List.mem_append_left _ inside),
      List.length_flatMap]
  rw [Written.bytes, ← entries, List.flatMap_append, List.flatMap_append, joined, Ring.holds_append,
    Ring.holds_append, front] at bytes
  exact h.storeRow row lengths bytes.2.1

/-- The reader has not moved in its fragment. -/
structure Waits (s t : Session) : Prop where
  received : t.received = s.received
  reading : t.reading = s.reading
  next : t.next? = s.next?
  place : t.blobAt s.received.length = s.blobAt s.received.length
  base : t.pipe.consumer.readBase = s.pipe.consumer.readBase
  cells : t.pipe.consumer.slabTail = s.pipe.consumer.slabTail
  size : t.pipe.store.blob.size = s.pipe.store.blob.size

theorem Waits.trans {u : Session} (left : s.Waits t) (right : t.Waits u) : s.Waits u := by
  refine ⟨right.received.trans left.received, right.reading.trans left.reading,
    right.next.trans left.next, ?_, right.base.trans left.base, right.cells.trans left.cells,
    right.size.trans left.size⟩
  rw [← left.place, ← left.received]
  exact right.place

/-- No call of the writer moves the reader, nor the fragment that it is in. -/
theorem Change.waits (change : s.Change a t) (aligned : s.Aligned) (writes : a.reads = false)
    (reading : s.reading.isSome = true) : s.Waits t := by
  have size := change.sameCapacity.blob
  rcases change with written | read
  · have side := written.sameReader
    have same := (aligned.front (.inl written)).2
    refine ⟨side.received, side.reading, ?_, ?_, congrArg _ side.consumer, congrArg _ side.consumer,
      size⟩
    · rw [next?, next?, side.received]
      exact getElem?_eq_of_take same (aligned.2.received_lt reading)
    · exact blobAt_eq_of_take side.blobStart same aligned.2.received_le
  · cases read with
    | looked => exact ⟨rfl, rfl, rfl, rfl, rfl, rfl, rfl⟩
    | _ => cases writes

theorem waits_of_reaches (f : s.Faithful) (reading : s.reading.isSome = true)
    (run : Reaches writing s t) : t.Faithful ∧ s.Waits t := by
  induction run with
  | refl => exact ⟨f, ⟨rfl, rfl, rfl, rfl, rfl, rfl, rfl⟩⟩
  | step run kept call ih =>
    obtain ⟨faithful, waits⟩ := ih
    obtain ⟨safe, writes⟩ := kept
    have change := change_of_step call
    have here := waits.reading ▸ reading
    exact ⟨faithful.change change safe,
      waits.trans (change.waits faithful.recorded.aligned writes here)⟩

/-- While the writer goes on, the reader still has the fields before it as they were written. -/
theorem Faithful.stillHas (f : s.Faithful) (row : s.row? = some (before, cs))
    (later : Reaches writing s t) :
    s.pipe.StillHas (s.place s.received.length before) (cs.map Content.part) t.pipe.store := by
  obtain ⟨c, w, rest, reading, -⟩ := exists_of_row? row
  obtain ⟨faithful, waits⟩ := waits_of_reaches f (by rw [reading]; rfl) later
  have row' : t.row? = some (before, cs) := by
    rw [row?, waits.reading, waits.next]
    exact row
  have lies := faithful.storeRow row'
  rw [waits.base, waits.cells, waits.received, place, waits.place] at lies
  exact ⟨waits.size, lies⟩

theorem Faithful.nextParts_eq (f : s.Faithful) (row : s.row? = some (before, cs)) :
    s.pipe.nextParts cs.length = cs.map Content.part := by
  have found := (f.storeRow row).nextParts_eq f.recorded.turn
  rwa [List.length_map] at found

end Session

/-- Fields of the blob that adjoin are gathered as one stream. Of fields that were accepted, in
whichever way each was offered, a reader that stands where they begin gathers what lies there, and
each tells its length; so does the reader in any run, with the fields of the blob that it stands
before. In a run that loses no bytes these are the fields that were written, also while the writer
goes on. -/
theorem adjoining_gathered :
    (∀ {p q r : Pipe} {os : List Offer} {ns : List Int}, p.layAll os = some (ns, q) →
      r.StandsBefore p q ns.length →
      (r.nextParts ns.length).map Part.length = ns ∧
        r.Gathers (r.StillHas p.producer.blobHead (r.nextParts ns.length)) p.producer.blobHead
          (r.nextParts ns.length)) ∧
    (∀ {s : Session} {before : List Entry} {cs : List Content}, s.Reached →
      s.row? = some (before, cs) →
        (s.pipe.nextParts cs.length).map Part.length = cs.map Content.length ∧
        s.pipe.Gathers
          (s.pipe.StillHas (s.place s.received.length before) (s.pipe.nextParts cs.length))
          (s.place s.received.length before) (s.pipe.nextParts cs.length)) ∧
    (∀ {registry : Registry} {config : Config} {slab blob : Int} {p : Pipe} {s : Session}
      {before : List Entry} {cs : List Content}, registry.open? config slab blob = some p →
      Reaches lossless (Session.start p) s → s.row? = some (before, cs) →
        s.pipe.nextParts cs.length = cs.map Content.part ∧
        s.pipe.Gathers (fun x => ∃ t, Reaches writing s t ∧ t.pipe.store = x)
          (s.place s.received.length before) (cs.map Content.part)) := by
  refine ⟨?_, ?_, ?_⟩
  · intro p q r os ns laid stands
    exact stands.gathers laid
  · intro s before cs reached row
    exact reached.gathers row
  · intro registry config slab blob p s before cs opened run row
    have first := Session.faithful_start (Session.recorded_of_open? opened)
    have faithful := Session.faithful_of_reaches first run
    have reached : s.Reached :=
      ⟨registry, config, slab, blob, p, opened, run.mono fun _ _ _ => trivial⟩
    have same := faithful.nextParts_eq row
    have gathers := (reached.gathers row).2
    rw [same] at gathers
    refine ⟨same, gathers.mono ?_⟩
    rintro x ⟨t, later, rfl⟩
    exact faithful.stillHas row later

/-- Messages of an integer that may be absent and four fields of variable length. -/
def rowSchema : Schema where
  name := "Row"
  fragments := [⟨"Row", [.optionalInt, .bytes, .ascii, .utf8, .bytes], true⟩]
  absentInt := Schema.defaultAbsentInt
  absentLong := Schema.defaultAbsentLong
  hasMessage := rfl

/-- Rings of 32 cells and 32 bytes, and no batches. -/
def rowConfig : Config :=
  { sampleConfig with schema := rowSchema, publishBatch := 1, releaseBatch := 1 }

/-- The pipe of such messages, with the blob at byte 30. -/
def rowPipe : Pipe := .start ((Store.empty 0 rowConfig false).moveTo 3 30)

/-- A message with an absent field, three bytes around the end of the blob, an empty field and two
bytes; the reader is before the absent field. -/
def rowSample : List Action :=
  [.begin .waiting 0, .put (.entry (.scalar (.optionalInt (some 7)))),
    .put (.entry (.content .null)), .put (.entry (.content (.bytes [1, 2, 3]))),
    .put (.entry (.content (.bytes []))), .put (.entry (.content (.bytes [4, 5]))), .confirm,
    .publish, .receive, .take .optionalInt]

/-- A number written as text, an absent field and two bytes are gathered by a reader where they
begin, and the fields of a message with a gap at the front and one in the middle by the reader in a
run. -/
theorem adjoining_gathered_sample :
    (∃ q : Pipe, rowPipe.layAll [.decimalText 1 7, .field .null, .field (.bytes [1, 2])] =
        some ([3, -1, 2], q) ∧
      q.StandsBefore rowPipe q 3 ∧ (q.nextParts 3).map Part.length = [3, -1, 2] ∧
      q.Gathers (q.StillHas rowPipe.producer.blobHead (q.nextParts 3)) rowPipe.producer.blobHead
        (q.nextParts 3)) ∧
    ∃ s before cs, play lossless (Session.start rowPipe) rowSample = some s ∧
      s.row? = some (before, cs) ∧
      s.pipe.nextParts 4 = [none, some [1, 2, 3], some [], some [4, 5]] ∧
      s.pipe.Gathers (fun x => ∃ t, Reaches writing s t ∧ t.pipe.store = x)
        (s.place s.received.length before) [none, some [1, 2, 3], some [], some [4, 5]] := by
  obtain ⟨offered, -, runs⟩ := @adjoining_gathered
  constructor
  · have evaluated : (rowPipe.layAll
        [.decimalText 1 7, .field .null, .field (.bytes [1, 2])]).any fun laid =>
          laid.1 = [3, -1, 2] ∧ 6 ≤ rowPipe.store.slab.size ∧ laid.2.store.blob.bits ≤ maxBits ∧
            laid.2.consumer.slabTail = rowPipe.producer.slabHead ∧
            laid.2.consumer.readBase = rowPipe.producer.writeBase ∧
            laid.2.consumer.blobTail = rowPipe.producer.blobHead := by decide +kernel
    obtain ⟨⟨ns, q⟩, laid, checked⟩ := (Option.any_eq_true ..).mp evaluated
    obtain ⟨rfl, apart, small, cells, base, here⟩ := of_decide_eq_true checked
    have stands : q.StandsBefore rowPipe q 3 :=
      ⟨apart, fun i _ => by rw [cells], small, by rw [base], by rw [here]⟩
    obtain ⟨lengths, gathers⟩ := offered laid stands
    exact ⟨q, laid, stands, lengths, gathers⟩
  · have evaluated : (play lossless (Session.start rowPipe) rowSample).any fun s =>
        s.row?.any fun row =>
          row.2.map Content.part = [none, some [1, 2, 3], some [], some [4, 5]] := by
      decide +kernel
    obtain ⟨s, played, checked⟩ := (Option.any_eq_true ..).mp evaluated
    obtain ⟨⟨before, cs⟩, row, checked⟩ := (Option.any_eq_true ..).mp checked
    have same := of_decide_eq_true checked
    have opened : Registry.empty.open? rowConfig 3 30 = some rowPipe := rfl
    obtain ⟨found, gathers⟩ := runs opened (Reaches.of_play played) row
    dsimp only at same
    have count : cs.length = 4 := by
      rw [← List.length_map (f := Content.part), same]
      rfl
    rw [count, same] at found
    rw [same] at gathers
    exact ⟨s, before, cs, played, row, found, gathers⟩

end FragmentPipe
