import FragmentPipe.Layout.Field
import FragmentPipe.Number.Binary64
import FragmentPipe.Pipe.Error

/-!
A schema: the fragments a pipe carries. A fragment takes one cell per scalar part, two per variable
length field, one for the count of its bytes and, when it starts a message, one for its number.
Main statements: `Fragment.size_pos`, and `Schema.size_le_maxFragmentSize`, no fragment is larger
than the schema says.
-/

namespace FragmentPipe

/-- The cells of the end mark: the number `-1` and an empty byte count. -/
def endMarkSize : Nat := 2

/-- One kind of fragment. -/
structure Fragment where
  name : String
  fields : List FieldKind
  /-- Whether it starts a message; otherwise it is nested in one. -/
  startsMessage : Bool
  deriving DecidableEq, Repr

namespace Fragment

/-- The cells of all fields. -/
def bodySize (f : Fragment) : Nat := f.fields.foldr (fun k cells => k.width + cells) 0

/-- The cells of the whole fragment, with its number and its byte count. -/
def size (f : Fragment) : Nat := f.bodySize + 1 + (if f.startsMessage then 1 else 0)

/-- The number of variable length fields. -/
def varFields (f : Fragment) : Nat := f.fields.countP FieldKind.isVariable

theorem size_pos (f : Fragment) : 0 < f.size := by unfold size; omega

end Fragment

/-- A share of variable length fields among cells. -/
structure Density where
  fields : Nat
  cells : Nat
  deriving DecidableEq, Repr

namespace Density

/-- The denser of two. -/
def max (a b : Density) : Density := if a.fields * b.cells < b.fields * a.cells then b else a

/-- How many variable length fields `window` cells can hold, rounded up. -/
def inWindow (d : Density) (window : Nat) : Nat := (window * d.fields + d.cells - 1) / d.cells

end Density

/-- The fragments of a pipe, numbered from zero, and the values that mean absence. -/
structure Schema where
  name : String
  fragments : List Fragment
  absentInt : Int32
  absentLong : Int64
  hasMessage : fragments.any Fragment.startsMessage = true

namespace Schema

/-- The reserved integer unless a schema chooses one. -/
def defaultAbsentInt : Int32 := 2147483647

/-- The reserved long unless a schema chooses one. -/
def defaultAbsentLong : Int64 := 9223372036854775807

/-- A schema needs a fragment, and among its fragments one that starts a message. -/
def build (name : String) (fragments : List Fragment) (absentInt : Int32) (absentLong : Int64) :
    Except PipeError Schema :=
  if fragments.isEmpty then .error (.invalidConfig (.noFragments name))
  else if h : fragments.any Fragment.startsMessage = true then
    .ok ⟨name, fragments, absentInt, absentLong, h⟩
  else .error (.invalidConfig .noMessages)

/-- The fragment of a number. -/
def fragment? (s : Schema) (message : Int32) : Option Fragment :=
  if message.toInt < 0 then none else s.fragments[message.toInt.toNat]?

/-- The size of the fragment of a number; `-1` stands for the end mark. -/
def fragmentSize? (s : Schema) (message : Int32) : Option Nat :=
  if message = -1 then some endMarkSize else (s.fragment? message).map Fragment.size

/-- Whether a number starts a message. -/
def startsMessage (s : Schema) (message : Int32) : Bool :=
  (s.fragment? message).any Fragment.startsMessage

/-- The size of the largest fragment. -/
def maxFragmentSize (s : Schema) : Nat := ((s.fragments.map Fragment.size).max?).getD endMarkSize

/-- The size of the smallest fragment. -/
def minFragmentSize (s : Schema) : Nat := ((s.fragments.map Fragment.size).min?).getD endMarkSize

/-- The largest share of variable length fields in any fragment. -/
def density (s : Schema) : Density :=
  s.fragments.foldl (fun d f => d.max ⟨f.varFields, f.size⟩) ⟨0, 1⟩

/-- Whether any fragment has a variable length field. -/
def hasVarFields (s : Schema) : Bool := 0 < s.density.fields

/-- The density in binary64. -/
def densityBits (s : Schema) : Nat := (Binary64.ofQuotient s.density.fields s.density.cells).toBits

/-- How many units of the density `count` stand for, computed in binary64 and rounded up. -/
def densityTimes (s : Schema) (count : Nat) : Nat :=
  ((Binary64.ofNat count).mul (Binary64.ofQuotient s.density.fields s.density.cells)).ceil

/-- How many variable length fields `window` cells can hold at once, at least one. The product is
taken in binary64, so a window that is no power of two can gain one by rounding. -/
def varFieldsInWindow (s : Schema) (window : Nat) : Nat := Nat.max (s.densityTimes window) 1

/-- How many variable length fields a slab of `1 <<< bits` cells can hold at once, at least one. A
power of two scales a binary64 number exactly, so here the count is exact. -/
def varFieldsInSlab (s : Schema) (bits : Nat) : Nat := Nat.max (s.density.inWindow (1 <<< bits)) 1

theorem varFieldsInSlab_pos (s : Schema) (bits : Nat) : 0 < s.varFieldsInSlab bits :=
  Nat.lt_of_lt_of_le Nat.zero_lt_one (Nat.le_max_right _ _)

theorem size_le_maxFragmentSize (s : Schema) {f : Fragment} (h : f ∈ s.fragments) :
    f.size ≤ s.maxFragmentSize := by
  have member : f.size ∈ s.fragments.map Fragment.size := List.mem_map_of_mem h
  cases found : (s.fragments.map Fragment.size).max? with
  | none => simp_all
  | some top =>
    have bound := (List.max?_eq_some_iff.mp found).2 _ member
    simpa [maxFragmentSize, found] using bound

theorem fragmentSize?_eq_of_startsMessage (s : Schema) {message : Int32} {f : Fragment}
    (h : s.fragment? message = some f) : s.fragmentSize? message = some f.size := by
  have nonneg : message ≠ -1 := by
    rintro rfl
    simp [fragment?] at h
  simp [fragmentSize?, nonneg, h]

end Schema

end FragmentPipe
