/-!
Rings: `1 <<< bits` cells addressed by integer positions. A position names the cell of its residue, so
positions may grow without bound, or be negative, while the storage stays fixed. Main statements:
`get_set_self` and `get_set_of_ne`, a store changes the cell of its residue and no other.
-/

namespace FragmentPipe

/-- A fixed circle of cells whose number is a power of two. -/
structure Ring (α : Type) where
  bits : Nat
  cells : Array α
  size_cells : cells.size = 1 <<< bits

namespace Ring

variable {α : Type}

/-- The number of cells. -/
def size (r : Ring α) : Nat := r.cells.size

theorem size_eq (r : Ring α) : r.size = 1 <<< r.bits := r.size_cells

theorem size_pos (r : Ring α) : 0 < r.size := by
  rw [size_eq, Nat.one_shiftLeft]
  exact Nat.two_pow_pos _

/-- A ring that holds one value everywhere. -/
def filled (bits : Nat) (a : α) : Ring α := ⟨bits, Array.replicate (1 <<< bits) a, by simp⟩

/-- The cell that a position names. -/
def index (r : Ring α) (position : Int) : Nat := (position % (r.size : Int)).toNat

theorem natCast_index (r : Ring α) (position : Int) : (r.index position : Int) = position % r.size :=
  Int.toNat_of_nonneg
    (Int.emod_nonneg _ (Int.ne_of_gt (Int.natCast_pos.mpr r.size_pos)))

theorem index_lt (r : Ring α) (position : Int) : r.index position < r.cells.size := by
  have place := r.natCast_index position
  have upper := Int.emod_lt_of_pos position (Int.natCast_pos.mpr r.size_pos)
  show r.index position < r.size
  omega

/-- The value at a position. -/
def get (r : Ring α) (position : Int) : α :=
  have := r.index_lt position
  r.cells[r.index position]

/-- Stores a value at a position. -/
def set (r : Ring α) (position : Int) (a : α) : Ring α :=
  { bits := r.bits
    cells := r.cells.set (r.index position) a (r.index_lt position)
    size_cells := by simp [r.size_cells] }

@[simp] theorem bits_set (r : Ring α) (position : Int) (a : α) :
    (r.set position a).bits = r.bits := rfl

@[simp] theorem size_set (r : Ring α) (position : Int) (a : α) :
    (r.set position a).size = r.size := by
  simp [size, set]

@[simp] theorem index_set (r : Ring α) (p q : Int) (a : α) :
    (r.set p a).index q = r.index q := by
  simp [index]

@[simp] theorem size_filled (bits : Nat) (a : α) : (filled bits a).size = 1 <<< bits := by
  simp [size, filled]

theorem get_filled (bits : Nat) (a : α) (position : Int) : (filled bits a).get position = a := by
  simp [get, filled]

theorem get_congr (r : Ring α) {p q : Int} (h : r.index p = r.index q) : r.get p = r.get q := by
  simp [get, h]

theorem get_set_self (r : Ring α) {p q : Int} (a : α) (h : r.index p = r.index q) :
    (r.set p a).get q = a := by
  simp only [get, index_set]
  simp [set, h]

theorem get_set_of_ne (r : Ring α) {p q : Int} (a : α) (h : r.index p ≠ r.index q) :
    (r.set p a).get q = r.get q := by
  simp only [get, index_set]
  exact Array.getElem_set_ne (r.index_lt p) (r.index_lt q) h

end Ring

end FragmentPipe
