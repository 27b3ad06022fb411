import Mathlib.Algebra.BigOperators.Group.List.Basic
import Mathlib.Algebra.Ring.Int.Defs
import FragmentPipe.Produce.Field
import FragmentPipe.Proofs.Capacity.Sizing

/-!
What the moving average of lengths lets pass. The mean of a length and the average before it, rounded
down, is the next average, and the length is accepted unless that exceeds the limit. `LengthGuard` is
this rule for any limit; a pipe keeps to it with the limit of its capacity. Main statement:
`lengths_bounded`, accepted lengths come to at most one more than the limit each and the limit once
more, and any number of lengths can come to as much as that.
-/

namespace FragmentPipe

/-- A limit for the moving average of lengths, and the average so far. -/
structure LengthGuard where
  limit : Nat
  average : Int
  deriving DecidableEq

namespace LengthGuard

/-- Before the first length. -/
def start (limit : Nat) : LengthGuard := ⟨limit, 0⟩

/-- The average after a length. -/
def next (g : LengthGuard) (length : Int) : Int := Pipe.clampInt (length + g.average) / 2

/-- Takes a length in, unless the average would exceed the limit. -/
def take? (g : LengthGuard) (length : Int) : Option LengthGuard :=
  if g.limit < g.next length then none else some { g with average := g.next length }

/-- Takes lengths in, one after the other. -/
def takeAll? (g : LengthGuard) : List Int → Option LengthGuard
  | [] => some g
  | length :: rest => (g.take? length).bind fun h => h.takeAll? rest

variable {g h : LengthGuard} {length : Int} {lengths : List Int}

/-! ## One length -/

theorem take?_eq_some_iff : g.take? length = some h ↔
    g.next length ≤ g.limit ∧ h = { g with average := g.next length } := by
  unfold take?
  split
  · simp only [reduceCtorEq, false_iff]
    omega
  · rw [Option.some.injEq, eq_comm, and_iff_right (by omega)]

theorem isSome_take?_iff : (g.take? length).isSome ↔ g.next length ≤ g.limit := by
  rw [Option.isSome_iff_exists]
  simp only [take?_eq_some_iff, exists_and_left, exists_eq, and_true]

/-- An average that there can be: not below zero, and not above the limit. -/
structure Bounded (g : LengthGuard) : Prop where
  low : 0 ≤ g.average
  high : g.average ≤ g.limit

/-- A length that a descriptor of the largest blob can tell. -/
def Fits (length : Int) : Prop := 0 ≤ length ∧ length < 0x40000000

instance (length : Int) : Decidable (Fits length) := inferInstanceAs (Decidable (_ ∧ _))

/-- Up to the largest blob a length and an average are too small for their sum to be cut off. -/
theorem next_eq (b : g.Bounded) (small : g.limit ≤ 0x40000000) (fits : Fits length) :
    g.next length = (length + g.average) / 2 := by
  obtain ⟨least, most⟩ := b
  obtain ⟨low, high⟩ := fits
  unfold next Pipe.clampInt Pipe.maxInt
  omega

/-- The length is paid for by a limit and one more, and by what the average rises. -/
theorem Bounded.take (b : g.Bounded) (small : g.limit ≤ 0x40000000) (fits : Fits length)
    (taken : g.take? length = some h) :
    h.Bounded ∧ h.limit = g.limit ∧ length + g.average ≤ g.limit + 1 + h.average := by
  obtain ⟨allowed, rfl⟩ := take?_eq_some_iff.mp taken
  have mean := next_eq b small fits
  obtain ⟨least, most⟩ := b
  obtain ⟨low, high⟩ := fits
  exact ⟨⟨by dsimp only; omega, allowed⟩, rfl, by dsimp only; omega⟩

/-! ## Many lengths -/

theorem takeAll?_append (g : LengthGuard) (front rest : List Int) :
    g.takeAll? (front ++ rest) = (g.takeAll? front).bind fun h => h.takeAll? rest := by
  induction front generalizing g with
  | nil => rfl
  | cons length front ih =>
    rw [List.cons_append, takeAll?, takeAll?, Option.bind_assoc]
    simp only [ih]

/-- What is accepted of lengths is accepted of those that come first. -/
theorem takeAll?_take (accepted : g.takeAll? lengths = some h) (n : Nat) :
    ∃ k, g.takeAll? (lengths.take n) = some k := by
  rw [← List.take_append_drop n lengths, takeAll?_append, Option.bind_eq_some_iff] at accepted
  obtain ⟨k, before, -⟩ := accepted
  exact ⟨k, before⟩

/-- Over many lengths the rises of the average add up to no more than the average. -/
theorem Bounded.takeAll (b : g.Bounded) (small : g.limit ≤ 0x40000000)
    (fits : ∀ length ∈ lengths, Fits length) (accepted : g.takeAll? lengths = some h) :
    h.Bounded ∧ h.limit = g.limit ∧
      lengths.sum + g.average ≤ lengths.length * (g.limit + 1) + h.average := by
  induction lengths generalizing g with
  | nil =>
    cases accepted
    simpa using b
  | cons length rest ih =>
    rw [List.forall_mem_cons] at fits
    obtain ⟨k, taken, later⟩ := Option.bind_eq_some_iff.mp accepted
    obtain ⟨between, same, first⟩ := b.take small fits.1 taken
    obtain ⟨last, still, others⟩ := ih between (same ▸ small) fits.2 later
    refine ⟨last, still.trans same, ?_⟩
    rw [same] at others
    rw [List.sum_cons, List.length_cons, Int.natCast_add, Int.add_mul]
    omega

theorem bounded_start (limit : Nat) : (start limit).Bounded :=
  ⟨Int.le_refl 0, Int.natCast_nonneg limit⟩

/-- A guard whose average is at its limit takes in one more than that, again and again. -/
theorem takeAll?_replicate {limit : Nat} (small : limit ≤ 0x40000000)
    (fits : Fits (limit + 1)) (n : Nat) :
    (⟨limit, limit⟩ : LengthGuard).takeAll? (List.replicate n (limit + 1)) =
      some ⟨limit, limit⟩ := by
  have mean : (⟨limit, limit⟩ : LengthGuard).next (limit + 1) = limit := by
    rw [next_eq ⟨Int.natCast_nonneg limit, Int.le_refl _⟩ small fits]
    dsimp only
    omega
  induction n with
  | zero => rfl
  | succ n ih =>
    have taken : (⟨limit, limit⟩ : LengthGuard).take? (limit + 1) = some ⟨limit, limit⟩ :=
      take?_eq_some_iff.mpr ⟨Int.le_of_eq mean, by rw [mean]⟩
    rw [List.replicate_succ, takeAll?, taken, Option.bind_some, ih]

/-- The most that any number of lengths can come to: the first one brings the average to the limit,
and the others keep it there. -/
def worst (limit : Nat) : Nat → List Int
  | 0 => []
  | n + 1 => (2 * limit + 1) :: List.replicate n (limit + 1)

theorem takeAll?_worst {limit n : Nat} (fits : Fits (2 * limit + 1)) :
    ((start limit).takeAll? (worst limit n)).isSome ∧ (worst limit n).length = n ∧
      (∀ length ∈ worst limit n, Fits length) ∧
      (0 < n → (worst limit n).sum = n * (limit + 1) + limit) := by
  cases n with
  | zero => exact ⟨rfl, rfl, nofun, fun positive => absurd positive (Nat.lt_irrefl 0)⟩
  | succ n =>
    obtain ⟨low, high⟩ := fits
    have small : limit ≤ 0x40000000 := by omega
    have more : Fits (limit + 1) := ⟨by omega, by omega⟩
    have mean : (start limit).next (2 * limit + 1) = limit := by
      rw [next_eq (bounded_start limit) small ⟨low, high⟩]
      show (2 * (limit : Int) + 1 + 0) / 2 = limit
      omega
    have taken : (start limit).take? (2 * limit + 1) = some ⟨limit, limit⟩ :=
      take?_eq_some_iff.mpr ⟨Int.le_of_eq mean, by rw [mean]; rfl⟩
    refine ⟨?_, ?_, ?_, fun _ => ?_⟩
    · rw [worst, takeAll?, taken, Option.bind_some, takeAll?_replicate small more]
      rfl
    · rw [worst, List.length_cons, List.length_replicate]
    · rw [worst, List.forall_mem_cons]
      exact ⟨⟨low, high⟩, fun length inside => List.eq_of_mem_replicate inside ▸ more⟩
    · rw [worst, List.sum_cons, List.sum_replicate, Int.nsmul_eq_mul, Int.natCast_add, Int.add_mul]
      omega

end LengthGuard

/-! ## The guard of a pipe -/

namespace Pipe

/-- The guard of the lengths of a pipe. -/
def lengthGuard (p : Pipe) : LengthGuard := ⟨p.store.config.maxAverage, p.producer.average⟩

/-- Checks lengths one after the other, as long as none is refused. -/
def checkLengths (p : Pipe) : List Int → Option Pipe
  | [] => some p
  | length :: rest =>
    match p.checkLength length with
    | (.ok _, p) => p.checkLengths rest
    | (.error _, _) => none

/-- A length is checked by taking it in; one that is refused leaves the average alone. -/
theorem checkLength_eq (p : Pipe) (length : Int) :
    p.checkLength length =
      match p.lengthGuard.take? length with
      | some g => (.ok (), { p with producer.average := g.average })
      | none => (.error (p.refuseField length).1, (p.refuseField length).2) := by
  have mean : p.lengthGuard.next length = p.nextAverage length := rfl
  have limit : p.lengthGuard.limit = p.store.config.maxAverage := rfl
  unfold checkLength LengthGuard.take?
  rw [mean, limit]
  by_cases tooLong : p.store.config.maxAverage < p.nextAverage length
  · rw [if_pos tooLong, if_pos tooLong]
  · rw [if_neg tooLong, if_neg tooLong]

/-- A pipe checks lengths as its guard takes them in. -/
theorem checkLengths_eq (p : Pipe) (lengths : List Int) :
    (p.checkLengths lengths).map lengthGuard = p.lengthGuard.takeAll? lengths := by
  induction lengths generalizing p with
  | nil => rfl
  | cons length rest ih =>
    rw [checkLengths, LengthGuard.takeAll?, checkLength_eq]
    cases taken : p.lengthGuard.take? length with
    | none => rfl
    | some g =>
      obtain ⟨-, rfl⟩ := LengthGuard.take?_eq_some_iff.mp taken
      exact ih _

end Pipe

/-- What the moving average of lengths bounds. For every limit up to the size of the largest blob, and
lengths below that size that are accepted one after the other: each average on the way is not below
zero and not above the limit, and a length is accepted after it exactly if their mean, rounded down,
is not above the limit; and the lengths come to at most one more than the limit each and the limit
once more. Any number of lengths can come to just that, as far as the first of them is a length. A
pipe checks lengths in this way, with a limit that is no larger. -/
theorem lengths_bounded {limit : Nat} {lengths : List Int} {g : LengthGuard}
    (small : limit ≤ 0x40000000) (fits : ∀ length ∈ lengths, LengthGuard.Fits length)
    (accepted : (LengthGuard.start limit).takeAll? lengths = some g) :
    (∀ n, ∃ h, (LengthGuard.start limit).takeAll? (lengths.take n) = some h ∧
      0 ≤ h.average ∧ h.average ≤ limit ∧
      ∀ length, LengthGuard.Fits length →
        ((h.take? length).isSome ↔ (length + h.average) / 2 ≤ limit)) ∧
    lengths.sum ≤ lengths.length * (limit + 1) + limit ∧
    (∀ n, 0 < n → LengthGuard.Fits (2 * limit + 1) →
      ∃ worst : List Int, worst.length = n ∧ (∀ length ∈ worst, LengthGuard.Fits length) ∧
        ((LengthGuard.start limit).takeAll? worst).isSome ∧
        worst.sum = n * (limit + 1) + limit) ∧
    ∀ (p : Pipe) (checked : List Int),
      (p.checkLengths checked).map Pipe.lengthGuard = p.lengthGuard.takeAll? checked ∧
        p.lengthGuard.limit ≤ 0x40000000 := by
  have first := LengthGuard.bounded_start limit
  refine ⟨fun n => ?_, ?_, fun n positive most => ?_, fun p checked => ⟨p.checkLengths_eq checked, ?_⟩⟩
  · obtain ⟨h, before⟩ := LengthGuard.takeAll?_take accepted n
    obtain ⟨bounded, same, -⟩ :=
      first.takeAll small (fun l inside => fits l (List.mem_of_mem_take inside)) before
    have high := bounded.high
    have limits : h.limit = limit := same
    rw [limits] at high
    refine ⟨h, before, bounded.low, high, fun length next => ?_⟩
    rw [LengthGuard.isSome_take?_iff, LengthGuard.next_eq bounded (limits ▸ small) next, limits]
  · obtain ⟨bounded, same, total⟩ := first.takeAll small fits accepted
    have high := bounded.high
    rw [same] at high
    change lengths.sum + 0 ≤ lengths.length * (limit + 1) + g.average at total
    change g.average ≤ limit at high
    omega
  · obtain ⟨taken, length, all, sum⟩ := LengthGuard.takeAll?_worst (n := n) most
    exact ⟨LengthGuard.worst limit n, length, all, taken, sum positive⟩
  · exact Nat.le_trans p.store.config.maxAverage_le p.store.config.blobSize_le

/-- With the limit four, nine and twice five are accepted: as much as three lengths can come to. -/
theorem lengths_bounded_sample :
    (LengthGuard.start 4).takeAll? [9, 5, 5] = some ⟨4, 4⟩ ∧
      ([9, 5, 5] : List Int).sum ≤ 3 * (4 + 1) + 4 ∧
      ((⟨4, 4⟩ : LengthGuard).take? 6).isSome = false := by
  obtain ⟨each, total, -⟩ :=
    @lengths_bounded 4 [9, 5, 5] ⟨4, 4⟩ (by decide) (by decide) (by decide)
  obtain ⟨h, before, -, -, next⟩ := each 3
  have same : h = ⟨4, 4⟩ := by
    rw [show (LengthGuard.start 4).takeAll? ([9, 5, 5].take 3) = some ⟨4, 4⟩ by decide] at before
    exact (Option.some.inj before).symm
  refine ⟨by decide, total, ?_⟩
  rw [Bool.eq_false_iff, ← same, ne_eq, next 6 (by decide), same]
  decide

end FragmentPipe
