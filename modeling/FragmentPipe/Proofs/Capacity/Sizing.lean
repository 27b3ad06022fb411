import FragmentPipe.Capacity.Config

/-!
What the widths chosen for a load are worth. The density of a schema bounds the variable length
fields of every fragment by its cells, and so those of any window; the blob has room for the largest
field in each of these places. Main statements: `Schema.varFields_le`, `Density.le_inWindow` and
`Config.le_maxAverage_of_forCapacity`.
-/

namespace FragmentPipe

/-! ## Density -/

namespace Density

/-- One density is no larger than another. -/
def Below (a b : Density) : Prop := a.fields * b.cells ≤ b.fields * a.cells

theorem below_trans {a b c : Density} (positive : 0 < b.cells) (left : a.Below b)
    (right : b.Below c) : a.Below c := by
  unfold Below at left right ⊢
  refine Nat.le_of_mul_le_mul_right ?_ positive
  calc a.fields * c.cells * b.cells
      = a.fields * b.cells * c.cells := Nat.mul_right_comm _ _ _
    _ ≤ b.fields * a.cells * c.cells := Nat.mul_le_mul_right _ left
    _ = b.fields * c.cells * a.cells := Nat.mul_right_comm _ _ _
    _ ≤ c.fields * b.cells * a.cells := Nat.mul_le_mul_right _ right
    _ = c.fields * a.cells * b.cells := Nat.mul_right_comm _ _ _

theorem below_max (a b : Density) : a.Below (a.max b) ∧ b.Below (a.max b) := by
  unfold Density.max
  split
  · next denser => exact ⟨Nat.le_of_lt denser, Nat.le_refl _⟩
  · next other => exact ⟨Nat.le_refl _, Nat.le_of_not_lt other⟩

theorem max_cells_pos {a b : Density} (left : 0 < a.cells) (right : 0 < b.cells) :
    0 < (a.max b).cells := by
  unfold Density.max
  split
  · exact right
  · exact left

/-- As many fields as a density allows in a window are no more than the window is said to hold. -/
theorem le_inWindow {d : Density} {count window : Nat} (positive : 0 < d.cells)
    (dense : count * d.cells ≤ d.fields * window) : count ≤ d.inWindow window := by
  unfold inWindow
  rw [Nat.le_div_iff_mul_le positive, Nat.mul_comm window]
  omega

/-- The density of a list of fragments is above that of each of them. -/
theorem below_foldl (fragments : List Fragment) (d : Density) (positive : 0 < d.cells) :
    let all := fragments.foldl (fun d f => d.max ⟨f.varFields, f.size⟩) d
    0 < all.cells ∧ d.Below all ∧
      ∀ f ∈ fragments, Density.Below ⟨f.varFields, f.size⟩ all := by
  induction fragments generalizing d with
  | nil => exact ⟨positive, Nat.le_refl _, nofun⟩
  | cons f rest ih =>
    have next : 0 < (d.max ⟨f.varFields, f.size⟩).cells := max_cells_pos positive f.size_pos
    obtain ⟨cells, before, others⟩ := ih _ next
    have both := below_max d ⟨f.varFields, f.size⟩
    refine ⟨cells, below_trans next both.1 before, ?_⟩
    intro g member
    rcases List.mem_cons.mp member with rfl | member
    · exact below_trans next both.2 before
    · exact others g member

end Density

namespace Schema

theorem density_cells_pos (s : Schema) : 0 < s.density.cells :=
  (Density.below_foldl s.fragments ⟨0, 1⟩ Nat.one_pos).1

/-- No fragment has more variable length fields for its cells than the density of the schema says.
-/
theorem varFields_le (s : Schema) {f : Fragment} (member : f ∈ s.fragments) :
    f.varFields * s.density.cells ≤ s.density.fields * f.size :=
  (Density.below_foldl s.fragments ⟨0, 1⟩ Nat.one_pos).2.2 f member

/-- A message takes a cell for its number and one for its byte count. -/
theorem two_le_maxFragmentSize (s : Schema) : 2 ≤ s.maxFragmentSize := by
  obtain ⟨f, member, starts⟩ := List.any_eq_true.mp s.hasMessage
  have size : 2 ≤ f.size := by
    rw [Fragment.size, starts, if_pos rfl]
    omega
  exact Nat.le_trans size (s.size_le_maxFragmentSize member)

end Schema

/-! ## Widths -/

namespace Config

theorem ceilLog2_ne_zero {n : Nat} (h : 2 ≤ n) : ceilLog2 n ≠ 0 := by
  unfold ceilLog2
  rw [if_neg (by omega)]
  exact Nat.succ_ne_zero _

theorem maxAverage_le (c : Config) : c.maxAverage ≤ c.blobSize := by
  unfold maxAverage
  split
  · exact Nat.zero_le _
  · exact Nat.div_le_self _ _

variable {schema : Schema} {minFragments maxVarLen : Nat} {c : Config}

theorem eq_of_forCapacity (made : forCapacity schema minFragments maxVarLen = .ok c) :
    c.schema = schema ∧ c.slabBits = slabBitsFor schema minFragments ∧
      c.blobBits = blobBitsFor schema c.slabBits maxVarLen := by
  unfold forCapacity ofBits at made
  dsimp only at made
  split at made
  · cases made
    exact ⟨rfl, rfl, rfl⟩
  · cases made

/-- The slab holds as many fragments of any kind as were asked for. -/
theorem le_slabSize_of_forCapacity (made : forCapacity schema minFragments maxVarLen = .ok c) :
    max minFragments 1 * schema.maxFragmentSize ≤ c.slabSize := by
  obtain ⟨-, slabBits, -⟩ := eq_of_forCapacity made
  rw [slabSize, slabBits]
  exact le_one_shiftLeft_ceilLog2 _

theorem slabBits_ne_zero_of_forCapacity
    (made : forCapacity schema minFragments maxVarLen = .ok c) : c.slabBits ≠ 0 := by
  obtain ⟨-, slabBits, -⟩ := eq_of_forCapacity made
  have large := schema.two_le_maxFragmentSize
  have cells : 2 ≤ max minFragments 1 * schema.maxFragmentSize := by
    calc 2 ≤ 1 * schema.maxFragmentSize := by omega
      _ ≤ max minFragments 1 * schema.maxFragmentSize :=
        Nat.mul_le_mul_right _ (Nat.le_max_right _ _)
  rw [slabBits]
  exact ceilLog2_ne_zero cells

/-- The blob has room for the largest field in every place of the slab. The product that gives its
width did not stop at the largest number, for then the width would have been refused. -/
theorem le_blobSize_of_forCapacity (made : forCapacity schema minFragments maxVarLen = .ok c)
    (var : schema.hasVarFields = true) (positive : 1 ≤ maxVarLen) :
    schema.varFieldsInSlab c.slabBits * maxVarLen ≤ c.blobSize := by
  obtain ⟨-, -, blobBits⟩ := eq_of_forCapacity made
  have small := c.slabBits_le
  have bound := c.blobSize_le
  have loaded : ¬(maxVarLen = 0 ∨ schema.hasVarFields = false) := by
    rw [var]
    simp
    omega
  rw [blobBitsFor, if_neg loaded, Nat.min_eq_left small] at blobBits
  have enough := le_one_shiftLeft_ceilLog2
    (min (schema.varFieldsInSlab c.slabBits * maxVarLen) 0xFFFFFFFFFFFFFFFF)
  rw [← blobBits] at enough
  have limit : (1 <<< maxBits) < 0xFFFFFFFFFFFFFFFF := by decide
  unfold blobSize at bound ⊢
  omega

/-- The moving average may reach every length that the load allows. -/
theorem le_maxAverage_of_forCapacity (made : forCapacity schema minFragments maxVarLen = .ok c)
    (var : schema.hasVarFields = true) (positive : 1 ≤ maxVarLen) : maxVarLen ≤ c.maxAverage := by
  obtain ⟨same, -, -⟩ := eq_of_forCapacity made
  have enough := le_blobSize_of_forCapacity made var positive
  have loaded : ¬(c.schema.hasVarFields = false ∨ c.slabBits = 0) := by
    rw [same, var]
    simp
    exact slabBits_ne_zero_of_forCapacity made
  rw [maxAverage, if_neg loaded, same, Nat.le_div_iff_mul_le (schema.varFieldsInSlab_pos _),
    Nat.mul_comm]
  exact enough

end Config

end FragmentPipe
