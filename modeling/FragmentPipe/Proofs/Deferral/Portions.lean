import Mathlib.Algebra.Order.BigOperators.Group.List
import Mathlib.Algebra.Order.Ring.Int
import Mathlib.Data.List.DropRight
import FragmentPipe.Proofs.Deferral.Tails

/-!
Giving back by bytes what was put off. A count covers the longest part at the front of the queue that
has no more bytes (`Deferred.coveredBy`); `Pipe.giveBack` releases the fragments of that part through
the batches and passes what is left of the count over the bytes of the next one. The loop that does it
stops as soon as the count is used up, and an empty fragment that follows then stays. Main statement:
`releaseBytes_exact_iff`, the loop gives back exactly that, and no fragment in the end, unless empty
fragments end what is covered.
-/

namespace FragmentPipe

namespace Deferred

/-- The bytes of the fragments that are still to release. -/
def total (queue : List Deferred) : Int := (queue.map Deferred.length).sum

/-- The longest part at the front of a queue that has at most so many bytes. -/
def coveredBy (count : Int) : List Deferred → List Deferred
  | [] => []
  | e :: rest => if e.length ≤ count then e :: coveredBy (count - e.length) rest else []

/-- The fragments that the loop over the queue releases: it ends when the count is used up. -/
def takenBy (count : Int) : List Deferred → List Deferred
  | [] => []
  | e :: rest =>
    if count ≤ 0 then []
    else if e.length ≤ count then e :: takenBy (count - e.length) rest else []

/-- Whether a fragment has no bytes to release. -/
def isEmpty (e : Deferred) : Bool := decide (e.length = 0)

/-- The fragments without bytes at the end of a queue. -/
def emptyEnd (queue : List Deferred) : List Deferred := queue.rtakeWhile isEmpty

/-- No fragment has fewer than no bytes. -/
def Counted (queue : List Deferred) : Prop := ∀ e ∈ queue, 0 ≤ e.length

instance (queue : List Deferred) : Decidable (Counted queue) :=
  inferInstanceAs (Decidable (∀ e ∈ queue, 0 ≤ e.length))

/-- A queue does not end with a fragment that has no bytes. -/
def Solid (queue : List Deferred) : Prop := ∀ e ∈ queue.getLast?, 0 < e.length

variable {e : Deferred} {count : Int} {queue front rest : List Deferred}

theorem isEmpty_iff : e.isEmpty = true ↔ e.length = 0 := decide_eq_true_iff

@[simp] theorem total_nil : total [] = 0 := rfl

@[simp] theorem total_cons : total (e :: rest) = e.length + total rest := List.sum_cons

@[simp] theorem total_append : total (front ++ rest) = total front + total rest := by
  simp [total, List.sum_append]

theorem Counted.head (counted : Counted (e :: rest)) : 0 ≤ e.length := counted e List.mem_cons_self

theorem Counted.tail (counted : Counted (e :: rest)) : Counted rest :=
  fun x member => counted x (List.mem_cons_of_mem _ member)

theorem Counted.total_nonneg (counted : Counted queue) : 0 ≤ total queue := by
  refine List.sum_nonneg fun bytes found => ?_
  obtain ⟨e, member, rfl⟩ := List.mem_map.mp found
  exact counted e member

theorem solid_nil : Solid [] := nofun

theorem Solid.tail (solid : Solid (e :: rest)) : Solid rest := by
  cases rest with
  | nil => exact solid_nil
  | cons next rest =>
    intro last member
    refine solid last ?_
    rwa [List.getLast?_cons_cons]

theorem solid_cons (solid : Solid rest) (last : rest = [] → 0 < e.length) :
    Solid (e :: rest) := by
  intro x member
  cases rest with
  | nil =>
    cases member
    exact last rfl
  | cons next rest =>
    rw [List.getLast?_cons_cons] at member
    exact solid x member

/-- A queue that does not end with an empty fragment has bytes, unless it is empty. -/
theorem Solid.eq_nil (solid : Solid queue) (counted : Counted queue) (nothing : total queue ≤ 0) :
    queue = [] := by
  induction queue with
  | nil => rfl
  | cons e rest ih =>
    have first := counted.head
    have others := counted.tail.total_nonneg
    rw [total_cons] at nothing
    cases ih solid.tail counted.tail (by omega)
    have positive := solid e rfl
    omega

/-! ## Empty fragments at the end -/

theorem length_of_mem_emptyEnd (member : e ∈ emptyEnd queue) : e.length = 0 :=
  isEmpty_iff.mp (List.mem_rtakeWhile_imp member)

theorem total_of_empty (empty : ∀ e ∈ queue, e.length = 0) : total queue = 0 := by
  refine List.sum_eq_zero fun bytes found => ?_
  obtain ⟨e, member, rfl⟩ := List.mem_map.mp found
  exact empty e member

/-- Every queue is one that does not end with an empty fragment, and empty fragments. -/
theorem exists_solid_append (counted : Counted queue) :
    ∃ core, queue = core ++ emptyEnd queue ∧ Solid core ∧ Counted core := by
  have apart := List.rdropWhile_append_rtakeWhile (p := isEmpty) (l := queue)
  have within : Counted (queue.rdropWhile isEmpty) :=
    fun e member => counted e ((List.rdropWhile_prefix _ _).mem member)
  refine ⟨_, apart.symm, ?_, within⟩
  intro e last
  obtain ⟨nonempty, rfl⟩ := List.mem_getLast?_eq_getLast last
  have full := mt isEmpty_iff.mpr (List.rdropWhile_last_not _ _ nonempty)
  have bytes := within _ (List.getLast_mem nonempty)
  omega

theorem emptyEnd_append (solid : Solid front) (empty : ∀ e ∈ rest, e.length = 0) :
    emptyEnd (front ++ rest) = rest := by
  induction rest using List.reverseRecOn with
  | nil =>
    rw [List.append_nil]
    refine List.rtakeWhile_eq_nil_iff.mpr fun some empty => ?_
    have positive := solid _ (List.getLast?_eq_getLast_of_ne_nil some)
    exact absurd (isEmpty_iff.mp empty) (Int.ne_of_gt positive)
  | append_singleton rest e ih =>
    have last := empty e (by simp)
    rw [← List.append_assoc, emptyEnd, List.rtakeWhile_concat_pos _ _ _ (isEmpty_iff.mpr last)]
    exact congrArg (· ++ [e]) (ih fun x member => empty x (List.mem_append_left _ member))

/-! ## What a count covers -/

/-- What a count covers is the longest such part. -/
theorem total_le_iff (counted : Counted queue) (enough : 0 ≤ count) (begins : front <+: queue) :
    total front ≤ count ↔ front <+: coveredBy count queue := by
  induction queue generalizing count front with
  | nil =>
    cases List.prefix_nil.mp begins
    exact ⟨fun _ => List.nil_prefix, fun _ => enough⟩
  | cons e rest ih =>
    cases front with
    | nil => exact ⟨fun _ => List.nil_prefix, fun _ => enough⟩
    | cons x front =>
      obtain ⟨rfl, behind⟩ := List.cons_prefix_cons.mp begins
      have later := counted.tail
      rw [total_cons, coveredBy]
      by_cases fits : x.length ≤ count
      · have more : 0 ≤ count - x.length := by omega
        have next := ih later more behind
        rw [if_pos fits, List.cons_prefix_cons]
        constructor
        · intro low
          exact ⟨rfl, next.mp (by omega)⟩
        · intro covered
          have low := next.mpr covered.2
          omega
      · have bytes : 0 ≤ total front :=
          Counted.total_nonneg fun e member => later e (behind.mem member)
        rw [if_neg fits, List.prefix_nil]
        constructor
        · intro low
          omega
        · exact nofun

theorem begins_coveredBy : coveredBy count queue <+: queue := by
  induction queue generalizing count with
  | nil => exact List.nil_prefix
  | cons e rest ih =>
    rw [coveredBy]
    split
    · exact List.cons_prefix_cons.mpr ⟨rfl, ih⟩
    · exact List.nil_prefix

/-- A count of nothing covers the empty fragments at the front. -/
theorem coveredBy_zero (counted : Counted queue) :
    coveredBy 0 queue = queue.takeWhile isEmpty := by
  induction queue with
  | nil => rfl
  | cons e rest ih =>
    have first := counted.head
    rw [coveredBy]
    by_cases empty : e.length = 0
    · rw [if_pos (by omega), List.takeWhile_cons_of_pos (isEmpty_iff.mpr empty), empty]
      exact congrArg (e :: ·) (ih counted.tail)
    · rw [if_neg (by omega), List.takeWhile_cons_of_neg (mt isEmpty_iff.mp empty)]

/-- The loop leaves those fragments of the covered part that are empty and follow where the count is
used up. -/
theorem coveredBy_eq (counted : Counted queue) (enough : 0 ≤ count) :
    ∃ left, coveredBy count queue = takenBy count queue ++ left ∧ (∀ e ∈ left, e.length = 0) ∧
      (total (takenBy count queue) < count → left = []) := by
  induction queue generalizing count with
  | nil => exact ⟨[], rfl, nofun, fun _ => rfl⟩
  | cons e rest ih =>
    have first := counted.head
    by_cases used : count ≤ 0
    · cases Int.le_antisymm used enough
      refine ⟨(e :: rest).takeWhile isEmpty, coveredBy_zero counted, ?_,
        fun less => absurd less (Int.lt_irrefl _)⟩
      intro x member
      exact isEmpty_iff.mp (List.mem_takeWhile_imp member)
    · rw [coveredBy, takenBy, if_neg used]
      by_cases fits : e.length ≤ count
      · have more : 0 ≤ count - e.length := by omega
        obtain ⟨left, apart, empty, short⟩ := ih counted.tail more
        rw [if_pos fits, if_pos fits]
        refine ⟨left, congrArg (e :: ·) apart, empty, ?_⟩
        rw [total_cons]
        intro less
        exact short (by omega)
      · rw [if_neg fits, if_neg fits]
        exact ⟨[], rfl, nofun, fun _ => rfl⟩

theorem total_takenBy_le (enough : 0 ≤ count) : total (takenBy count queue) ≤ count := by
  induction queue generalizing count with
  | nil => exact enough
  | cons e rest ih =>
    rw [takenBy]
    split
    · exact enough
    · split
      · have more : 0 ≤ count - e.length := by omega
        have later := ih more
        rw [total_cons]
        omega
      · exact enough

/-- Where what the loop releases uses the count up, its last fragment has bytes. -/
theorem solid_takenBy (all : total (takenBy count queue) = count) : Solid (takenBy count queue) := by
  induction queue generalizing count with
  | nil => exact solid_nil
  | cons e rest ih =>
    rw [takenBy] at all ⊢
    by_cases used : count ≤ 0
    · rw [if_pos used]
      exact solid_nil
    · rw [if_neg used] at all ⊢
      by_cases fits : e.length ≤ count
      · rw [if_pos fits] at all ⊢
        rw [total_cons] at all
        have others : total (takenBy (count - e.length) rest) = count - e.length := by omega
        refine solid_cons (ih others) fun alone => ?_
        -- Nothing is released after it, so it alone uses up a count that is not zero.
        rw [alone, total_nil] at others
        omega
      · rw [if_neg fits]
        exact solid_nil

end Deferred

namespace Pipe

open Deferred

variable {p : Pipe} {count : Int} {queue core : List Deferred}

/-- Passes so many bytes of the oldest fragment that is put off: the blob tail is published that many
bytes after the first of its bytes, and it stays in the queue with fewer of them. -/
def passBytes (p : Pipe) (count : Int) : Pipe :=
  match p.consumer.deferred with
  | [] => p
  | e :: rest =>
    if 0 < count then
      let blobTail := (e.blobTail - e.length + count) % p.store.blob.size
      { p with
        store.blobTail := blobTail
        consumer.heldBlob := blobTail
        consumer.deferred := { e with length := e.length - count } :: rest }
    else p

/-- The pipe with another queue. -/
def withDeferred (p : Pipe) (queue : List Deferred) : Pipe := { p with consumer.deferred := queue }

/-- Releases some fragments at the front of the queue in order, and passes bytes of the next one. -/
def giveFront (p : Pipe) (front : List Deferred) (count : Int) : Pipe :=
  ((p.releaseEntries front).withDeferred (p.consumer.deferred.drop front.length)).passBytes count

/-- Gives back as many bytes as a count says: releases what the count covers, and passes what is left
of it over the next fragment. -/
def giveBack (p : Pipe) (count : Int) : Pipe :=
  let covered := coveredBy count p.consumer.deferred
  p.giveFront covered (count - total covered)

/-! ## One portion -/

theorem passBytes_of_nonpos (nothing : count ≤ 0) : p.passBytes count = p := by
  unfold passBytes
  split
  · rfl
  · exact if_neg (Int.not_lt.mpr nothing)

/-- The loop releases what it takes from the front, and passes bytes of the next fragment. -/
theorem releaseBytes_eq (p : Pipe) (count : Int) (queue : List Deferred) :
    p.releaseBytes count queue =
      ((p.releaseEntries (takenBy count queue)).withDeferred
        (queue.drop (takenBy count queue).length)).passBytes
          (count - total (takenBy count queue)) := by
  induction queue generalizing p count with
  | nil => rfl
  | cons e rest ih =>
    rw [releaseBytes, takenBy]
    by_cases used : count ≤ 0
    · rw [if_pos used, if_pos used, total_nil, Int.sub_zero, passBytes_of_nonpos used]
      rfl
    · rw [if_neg used, if_neg used]
      by_cases fits : e.length ≤ count
      · rw [if_pos fits, if_pos fits, ih, total_cons, ← Int.sub_sub]
        rfl
      · have place : e.blobTail - (e.length - count) = e.blobTail - e.length + count := by omega
        have passed : (p.withDeferred (e :: rest)).passBytes count =
            { p with
              store.blobTail := (e.blobTail - e.length + count) % p.store.blob.size
              consumer.heldBlob := (e.blobTail - e.length + count) % p.store.blob.size
              consumer.deferred := { e with length := e.length - count } :: rest } :=
          if_pos (Int.not_le.mp used)
        rw [if_neg fits, if_neg fits, total_nil, Int.sub_zero]
        simp only [place]
        exact passed.symm

theorem length_deferred_passBytes (p : Pipe) (count : Int) :
    (p.passBytes count).consumer.deferred.length = p.consumer.deferred.length := by
  unfold passBytes
  split
  · rfl
  · next e rest queue =>
    split
    · rw [queue]
      rfl
    · rfl

theorem length_deferred_giveFront (p : Pipe) (front : List Deferred) (count : Int) :
    (p.giveFront front count).consumer.deferred.length =
      p.consumer.deferred.length - front.length := by
  rw [giveFront, length_deferred_passBytes]
  exact List.length_drop

/-- A count is given back in full, unless it is used up where empty fragments end what it covers. -/
theorem releaseDeferredBytes_eq_iff (counted : Counted p.consumer.deferred) (enough : 0 ≤ count) :
    p.releaseDeferredBytes count = p.giveBack count ↔
      total (coveredBy count p.consumer.deferred) < count ∨
        emptyEnd (coveredBy count p.consumer.deferred) = [] := by
  obtain ⟨left, apart, empty, short⟩ := coveredBy_eq counted enough
  have released : p.releaseDeferredBytes count =
      p.giveFront (takenBy count p.consumer.deferred)
        (count - total (takenBy count p.consumer.deferred)) := p.releaseBytes_eq count _
  have same : total (coveredBy count p.consumer.deferred) =
      total (takenBy count p.consumer.deferred) := by
    rw [apart, total_append, total_of_empty empty, Int.add_zero]
  by_cases used : total (takenBy count p.consumer.deferred) < count
  · rw [short used, List.append_nil] at apart
    refine ⟨fun _ => .inl (by rwa [same]), fun _ => ?_⟩
    rw [released, giveBack, apart]
  · have all := Int.le_antisymm (total_takenBy_le enough) (Int.not_lt.mp used)
    have ends : emptyEnd (coveredBy count p.consumer.deferred) = left := by
      rw [apart]
      exact emptyEnd_append (solid_takenBy all) empty
    rw [same, ends]
    constructor
    · intro equal
      right
      -- A fragment that is left makes one queue longer than the other.
      have lengths := congrArg (·.consumer.deferred.length) (released.symm.trans equal)
      have begins : coveredBy count p.consumer.deferred <+: p.consumer.deferred := begins_coveredBy
      have within := begins.length_le
      simp only [giveBack, length_deferred_giveFront, apart, List.length_append] at lengths within
      exact List.length_eq_zero_iff.mp (by omega)
    · rintro (less | nothing)
      · exact absurd less used
      · rw [released, giveBack, same, apart, nothing, List.append_nil]

/-! ## Several portions -/

/-- Bytes that the front of a queue has are taken from there, and what follows it stays. The front is
then left without an empty fragment at its end, as it was before. -/
theorem deferred_releaseBytes {others : List Deferred} (solid : Solid core) (counted : Counted core)
    (enough : 0 ≤ count) (within : count ≤ total core) :
    ∃ left, (p.releaseBytes count (core ++ others)).consumer.deferred = left ++ others ∧
      Solid left ∧ Counted left ∧ total left = total core - count := by
  induction core generalizing p count with
  | nil =>
    cases Int.le_antisymm within enough
    refine ⟨[], ?_, solid_nil, nofun, rfl⟩
    cases others with
    | nil => rfl
    | cons e rest => rfl
  | cons e rest ih =>
    rw [total_cons] at within
    rw [List.cons_append, releaseBytes]
    by_cases used : count ≤ 0
    · rw [if_pos used]
      exact ⟨e :: rest, rfl, solid, counted, by omega⟩
    · rw [if_neg used]
      by_cases fits : e.length ≤ count
      · rw [if_pos fits]
        have more : 0 ≤ count - e.length := by omega
        obtain ⟨left, queue, solid, counted, bytes⟩ :=
          ih (p := p.releaseBatched e.slabTail e.blobTail) solid.tail counted.tail more (by omega)
        refine ⟨left, queue, solid, counted, ?_⟩
        rw [bytes, total_cons]
        omega
      · rw [if_neg fits]
        refine ⟨{ e with length := e.length - count } :: rest, rfl, ?_, ?_, ?_⟩
        · refine solid_cons solid.tail fun _ => ?_
          show 0 < e.length - count
          omega
        · intro x member
          rcases List.mem_cons.mp member with rfl | later
          · show 0 ≤ e.length - count
            omega
          · exact counted.tail x later
        · show e.length - count + total rest = total (e :: rest) - count
          rw [total_cons]
          omega

/-- Gives back several counts one after the other. -/
def givePortions (p : Pipe) (portions : List Int) : Pipe := portions.foldl releaseDeferredBytes p

/-- In whichever portions all bytes are given back, the empty fragments at the end of the queue
stay, and no others. -/
theorem deferred_givePortions {others : List Deferred} {portions : List Int}
    (queue : p.consumer.deferred = core ++ others) (solid : Solid core) (counted : Counted core)
    (enough : ∀ c ∈ portions, 0 ≤ c) (all : portions.sum = total core) :
    (p.givePortions portions).consumer.deferred = others := by
  induction portions generalizing p core with
  | nil =>
    have empty := solid.eq_nil counted (Int.le_of_eq all.symm)
    rwa [empty] at queue
  | cons c rest ih =>
    have first := enough c List.mem_cons_self
    have later : ∀ c ∈ rest, 0 ≤ c := fun x member => enough x (List.mem_cons_of_mem _ member)
    have more : 0 ≤ rest.sum := List.sum_nonneg later
    rw [List.sum_cons] at all
    have part : c ≤ total core := by omega
    obtain ⟨left, step, solid, counted, bytes⟩ :=
      deferred_releaseBytes solid counted first part (p := p)
    rw [← queue] at step
    exact ih (p := p.releaseDeferredBytes c) step solid counted later (by omega)

/-- A fragment whose release is put off adds the bytes to the queue that the call tells. -/
theorem total_deferRelease (p : Pipe) :
    total p.deferRelease.2.consumer.deferred = total p.consumer.deferred + p.deferRelease.1 := by
  show total (p.consumer.deferred ++ [_]) = _
  rw [total_append, total_cons, total_nil, Int.add_zero]
  rfl

end Pipe

open Deferred in
/-- A count of bytes is given back as it should be, the longest part at the front of the queue that
has no more bytes released and what is left passed over the next fragment, exactly if something is
left or what is released does not end with an empty fragment. In whichever portions the bytes of the
queue are given back, the empty fragments at its end stay in it and no others do; the bytes of the
queue are those that the calls tell which put fragments off. -/
theorem releaseBytes_exact_iff {p : Pipe} (counted : Counted p.consumer.deferred) :
    (∀ count, 0 ≤ count →
      coveredBy count p.consumer.deferred <+: p.consumer.deferred ∧
      (∀ front, front <+: p.consumer.deferred →
        (total front ≤ count ↔ front <+: coveredBy count p.consumer.deferred)) ∧
      (p.releaseDeferredBytes count = p.giveBack count ↔
        total (coveredBy count p.consumer.deferred) < count ∨
          emptyEnd (coveredBy count p.consumer.deferred) = [])) ∧
    (∀ portions : List Int, (∀ c ∈ portions, 0 ≤ c) → portions.sum = total p.consumer.deferred →
      (p.givePortions portions).consumer.deferred = emptyEnd p.consumer.deferred) ∧
    total p.deferRelease.2.consumer.deferred = total p.consumer.deferred + p.deferRelease.1 := by
  refine ⟨fun count enough => ⟨begins_coveredBy, fun front begins => ?_, ?_⟩, ?_, ?_⟩
  · exact total_le_iff counted enough begins
  · exact Pipe.releaseDeferredBytes_eq_iff counted enough
  · intro portions enough all
    obtain ⟨core, queue, solid, within⟩ := exists_solid_append counted
    have empty : total (emptyEnd p.consumer.deferred) = 0 :=
      total_of_empty fun e member => length_of_mem_emptyEnd member
    refine Pipe.deferred_givePortions queue solid within enough ?_
    rw [all, queue, total_append]
    exact (congrArg (total core + ·) empty).trans (Int.add_zero _)
  · exact p.total_deferRelease

/-- Of two fragments with three and two bytes, four bytes are the first and half of the second; three
portions empty the queue. -/
theorem releaseBytes_exact_iff_sample :
    ∃ s, Session.perform inTurn (Session.start samplePipe)
        (twoMessages ++ deferSample ++ deferSample) = some s ∧
      s.pipe.consumer.deferred = [⟨8, 1, 3⟩, ⟨13, 3, 2⟩] ∧
      s.pipe.releaseDeferredBytes 4 = s.pipe.giveBack 4 ∧
      (s.pipe.givePortions [1, 0, 4]).consumer.deferred = [] := by
  have evaluated : (Session.perform inTurn (Session.start samplePipe)
      (twoMessages ++ deferSample ++ deferSample)).any fun s =>
        s.pipe.consumer.deferred = [⟨8, 1, 3⟩, ⟨13, 3, 2⟩] := by
    decide +kernel
  obtain ⟨s, performed, checked⟩ := (Option.any_eq_true ..).mp evaluated
  have queue := of_decide_eq_true checked
  obtain ⟨portion, portions, -⟩ := releaseBytes_exact_iff (p := s.pipe) (by
    rw [queue]
    decide)
  rw [queue] at portion portions
  obtain ⟨-, -, exact⟩ := portion 4 (by decide)
  exact ⟨s, performed, queue, exact.mpr (by decide), portions [1, 0, 4] (by decide) (by decide)⟩

/-- Bytes are not always given back exactly. Of two fragments the second one has no bytes; three
bytes cover both of them, and the second one stays put off with its cells. -/
theorem empty_fragment_stays :
    let calls : List Call :=
      (writeSample (some 7) [1, 2, 3] ++ writeSample none []).map .plain ++
        [.plain .flush, .setReleaseBatch 1] ++ deferSample ++ deferSample
    let seen (s : Session) : Int × List Deferred :=
      (s.pipe.store.slabTail, s.pipe.consumer.deferred)
    (Session.perform inTurn (Session.start samplePipe) calls).map seen =
      some (3, [⟨8, 1, 3⟩, ⟨13, 1, 0⟩]) ∧
    Deferred.total [⟨8, 1, 3⟩, ⟨13, 1, 0⟩] = 3 ∧
    (Session.perform inTurn (Session.start samplePipe)
      (calls ++ [.releaseBytes 3])).map seen = some (8, [⟨13, 1, 0⟩]) := by
  decide +kernel

end FragmentPipe
