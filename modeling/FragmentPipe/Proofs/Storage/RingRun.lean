import FragmentPipe.Storage.Bytes

/-!
Runs of consecutive positions of a ring. `Ring.setList` stores a list from a position on and
`Ring.Holds` says that a list lies there. A run is lost only where a later one goes around the
ring and reaches its cells: `Holds.setList_of_before` keeps every run inside one turn before the end
of what is stored, and `Holds.setList_append` makes a run longer. `Ring.SameOutside` says where a change
ends, and `SameOutside.get_of_before` that it leaves the positions before it alone.
-/

namespace FragmentPipe.Ring

variable {α : Type}

/-- Stores values at consecutive positions, the first one first. -/
def setList (r : Ring α) (p : Int) : List α → Ring α
  | [] => r
  | a :: l => (r.set p a).setList (p + 1) l

/-- The values at `p` and after it are those of a list. -/
def Holds (r : Ring α) (p : Int) (l : List α) : Prop :=
  ∀ (i : Nat) (h : i < l.length), r.get (p + i) = l[i]

theorem putList_eq_setList (r : Ring UInt8) (p : Int) (l : List UInt8) :
    ByteStore.putList r p l = r.setList p l := by
  induction l generalizing r p with
  | nil => rfl
  | cons a l ih => exact ih _ _

@[simp] theorem size_setList (r : Ring α) (p : Int) (l : List α) :
    (r.setList p l).size = r.size := by
  induction l generalizing r p with
  | nil => rfl
  | cons a l ih => rw [setList, ih, size_set]

@[simp] theorem setList_nil (r : Ring α) (p : Int) : r.setList p [] = r := rfl

theorem setList_append (r : Ring α) (p : Int) (l m : List α) :
    r.setList p (l ++ m) = (r.setList p l).setList (p + l.length) m := by
  induction l generalizing r p with
  | nil => simp
  | cons a l ih =>
    have next : p + 1 + (l.length : Int) = p + ((a :: l).length : Int) := by
      simp only [List.length_cons]
      omega
    rw [List.cons_append, setList, ih, next, setList]

/-! ## Cells -/

/-- A ring of at most `2 ^ bits` cells divides that many positions. -/
theorem size_dvd {r : Ring α} {bits : Nat} (small : r.bits ≤ bits) :
    (r.size : Int) ∣ ((1 <<< bits : Nat) : Int) := by
  rw [r.size_eq, Nat.one_shiftLeft, Nat.one_shiftLeft]
  exact_mod_cast Nat.pow_dvd_pow 2 small

theorem index_eq_iff (r : Ring α) {p q : Int} :
    r.index p = r.index q ↔ p % (r.size : Int) = q % (r.size : Int) := by
  have positive : (0 : Int) < r.size := by exact_mod_cast r.size_pos
  have lower := Int.emod_nonneg p (Int.ne_of_gt positive)
  have lower' := Int.emod_nonneg q (Int.ne_of_gt positive)
  unfold index
  omega

/-- Two positions less than one turn apart are different cells. -/
theorem index_ne_of_lt (r : Ring α) {p q : Int} (h : p < q) (near : q < p + r.size) :
    r.index p ≠ r.index q := by
  intro same
  rw [index_eq_iff, Int.emod_eq_emod_iff_emod_sub_eq_zero] at same
  have small : (p - q) % (r.size : Int) = p - q + r.size := by
    rw [← Int.add_emod_right (p - q) (r.size : Int)]
    exact Int.emod_eq_of_lt (by omega) (by omega)
  omega

/-- Positions that are congruent to the size of the ring start the same run. -/
theorem setList_congr (r : Ring α) {p q : Int} (same : p % (r.size : Int) = q % (r.size : Int))
    (l : List α) : r.setList p l = r.setList q l := by
  induction l generalizing r p q with
  | nil => rfl
  | cons a l ih =>
    have cell : r.set p a = r.set q a := by
      have index : r.index p = r.index q := r.index_eq_iff.mpr same
      simp only [set, index]
    rw [setList, setList, cell]
    apply ih
    rw [size_set]
    exact Int.add_emod_eq_add_emod_right 1 same

theorem Holds.congr {r : Ring α} {p q : Int} {l : List α} (h : r.Holds p l)
    (same : p % (r.size : Int) = q % (r.size : Int)) : r.Holds q l := by
  intro i hi
  rw [← h i hi]
  exact r.get_congr (r.index_eq_iff.mpr (Int.add_emod_eq_add_emod_right _ same.symm))

theorem Holds.of_same {r r' : Ring α} {p : Int} {l : List α} (h : r.Holds p l)
    (same : ∀ q, p ≤ q → q < p + l.length → r'.get q = r.get q) : r'.Holds p l := by
  intro i hi
  rw [same _ (by omega) (by omega), h i hi]

/-! ## What a store keeps -/

theorem get_setList_of_ne (r : Ring α) (p q : Int) (l : List α)
    (apart : ∀ i : Nat, i < l.length → r.index (p + i) ≠ r.index q) :
    (r.setList p l).get q = r.get q := by
  induction l generalizing r p with
  | nil => rfl
  | cons a l ih =>
    have first : r.index p ≠ r.index q := by simpa using apart 0 (by simp)
    rw [setList, ih]
    · exact r.get_set_of_ne a first
    · intro i hi
      have next : p + 1 + (i : Int) = p + ((i + 1 : Nat) : Int) := by omega
      rw [index_set, index_set, next]
      exact apart (i + 1) (by simpa using hi)

/-- A run that ends before a store begins is kept, if the store ends within one turn of the run's
beginning. -/
theorem Holds.setList_of_before {r : Ring α} {p q : Int} {l m : List α} (h : r.Holds p l)
    (before : p + l.length ≤ q) (turn : q + m.length ≤ p + r.size) :
    (r.setList q m).Holds p l := by
  intro i hi
  rw [get_setList_of_ne, h i hi]
  intro j hj
  exact (r.index_ne_of_lt (by omega) (by omega)).symm

theorem holds_setList (r : Ring α) (p : Int) (l : List α) (fits : l.length ≤ r.size) :
    (r.setList p l).Holds p l := by
  induction l generalizing r p with
  | nil => exact fun i hi => absurd hi (Nat.not_lt_zero i)
  | cons a l ih =>
    simp only [List.length_cons] at fits
    intro i hi
    cases i with
    | zero =>
      rw [setList, get_setList_of_ne]
      · simp [get_set_self]
      · intro j hj
        exact ((r.set p a).index_ne_of_lt (by omega) (by rw [size_set]; omega)).symm
    | succ i =>
      have next : p + ((i + 1 : Nat) : Int) = p + 1 + i := by omega
      rw [setList, next]
      exact ih (r.set p a) (p + 1) (by rw [size_set]; omega) i (by simpa using hi)

/-! ## Runs side by side -/

theorem holds_nil (r : Ring α) (p : Int) : r.Holds p [] :=
  fun i hi => absurd hi (Nat.not_lt_zero i)

theorem holds_cons {r : Ring α} {p : Int} {a : α} {l : List α} :
    r.Holds p (a :: l) ↔ r.get p = a ∧ r.Holds (p + 1) l := by
  constructor
  · intro h
    have first : r.get (p + (0 : Nat)) = a := h 0 (by simp)
    refine ⟨by rwa [Int.natCast_zero, Int.add_zero] at first, ?_⟩
    intro i hi
    have place : p + 1 + (i : Int) = p + ((i + 1 : Nat) : Int) := by omega
    rw [place, h (i + 1) (by simpa using hi)]
    rfl
  · rintro ⟨first, rest⟩ i hi
    cases i with
    | zero => simpa using first
    | succ i =>
      have place : p + ((i + 1 : Nat) : Int) = p + 1 + i := by omega
      rw [place]
      exact rest i (by simpa using hi)

theorem holds_append {r : Ring α} {p : Int} {l m : List α} :
    r.Holds p (l ++ m) ↔ r.Holds p l ∧ r.Holds (p + l.length) m := by
  constructor
  · intro h
    refine ⟨?_, ?_⟩
    · intro i hi
      rw [h i (by simp; omega), List.getElem_append_left hi]
    · intro i hi
      have place : p + l.length + (i : Int) = p + ((l.length + i : Nat) : Int) := by omega
      rw [place, h (l.length + i) (by simp; omega)]
      simp
  · rintro ⟨left, right⟩ i hi
    by_cases inside : i < l.length
    · rw [left i inside, List.getElem_append_left inside]
    · have place : p + (i : Int) = p + l.length + ((i - l.length : Nat) : Int) := by omega
      rw [place, right (i - l.length) (by simp at hi; omega),
        List.getElem_append_right (by omega)]

/-- A run grows by what is stored right behind it. -/
theorem Holds.setList_append {r : Ring α} {p : Int} {l m : List α} (h : r.Holds p l)
    (fits : l.length + m.length ≤ r.size) : (r.setList (p + l.length) m).Holds p (l ++ m) :=
  holds_append.mpr
    ⟨h.setList_of_before (Int.le_refl _) (by omega), r.holds_setList _ m (by omega)⟩

theorem getList_eq_of_holds {r : Ring UInt8} {p : Int} {l : List UInt8} (h : r.Holds p l) :
    ByteStore.getList r p l.length = l := by
  apply List.ext_getElem
  · simp
  · intro i _ hi
    simp only [ByteStore.getList, List.getElem_map, List.getElem_range]
    exact h i hi

theorem holds_getList (r : Ring UInt8) (p : Int) (count : Nat) :
    r.Holds p (ByteStore.getList r p count) := by
  intro i hi
  simp [ByteStore.getList, ByteStore.get]

/-! ## Where stores end -/

/-- Another ring of the same size, which may differ at `count` positions from `p` on and nowhere
else. -/
structure SameOutside (r r' : Ring α) (p : Int) (count : Nat) : Prop where
  size : r'.size = r.size
  same : ∀ q, (∀ i : Nat, i < count → r.index (p + i) ≠ r.index q) → r'.get q = r.get q

theorem index_eq_of_size {r r' : Ring α} (same : r'.size = r.size) (p : Int) :
    r'.index p = r.index p := by
  rw [index, index, same]

namespace SameOutside

variable {r r' r'' : Ring α} {p q : Int} {count more : Nat}

theorem refl (r : Ring α) (p : Int) (count : Nat) : r.SameOutside r p count := ⟨rfl, fun _ _ => rfl⟩

theorem trans (first : r.SameOutside r' p count) (second : r'.SameOutside r'' p count) :
    r.SameOutside r'' p count := by
  refine ⟨second.size.trans first.size, ?_⟩
  intro q apart
  rw [second.same, first.same q apart]
  intro i hi
  rw [index_eq_of_size first.size, index_eq_of_size first.size]
  exact apart i hi

/-- What differs at some positions only differs among any that include them. -/
theorem mono (h : r.SameOutside r' q count) (low : p ≤ q) (high : q + count ≤ p + more) :
    r.SameOutside r' p more := by
  refine ⟨h.size, ?_⟩
  intro x apart
  refine h.same x ?_
  intro i hi
  have place : q + (i : Int) = p + (((q - p).toNat + i : Nat) : Int) := by omega
  rw [place]
  exact apart _ (by omega)

/-- Positions that lie before the others, and less than a turn before their end, are left alone. -/
theorem get_of_before {x y : Int} (h : r.SameOutside r' p count)
    (place : p % (r.size : Int) = y % (r.size : Int)) (before : x < y)
    (turn : y + count ≤ x + r.size) : r'.get x = r.get x := by
  refine h.same x ?_
  intro i hi
  have spot : r.index (p + i) = r.index (y + i) :=
    r.index_eq_iff.mpr (Int.add_emod_eq_add_emod_right _ place)
  rw [spot]
  exact (r.index_ne_of_lt (by omega) (by omega)).symm

end SameOutside

theorem sameOutside_set (r : Ring α) (p : Int) (a : α) : r.SameOutside (r.set p a) p 1 := by
  refine ⟨r.size_set p a, ?_⟩
  intro q apart
  have first : r.index (p + (0 : Nat)) ≠ r.index q := apart 0 Nat.one_pos
  rw [Int.natCast_zero, Int.add_zero] at first
  exact r.get_set_of_ne a first

theorem sameOutside_setList (r : Ring α) (p : Int) (l : List α) :
    r.SameOutside (r.setList p l) p l.length :=
  ⟨r.size_setList p l, fun q apart => r.get_setList_of_ne p q l apart⟩

theorem sameOutside_shift (r : Ring UInt8) (start goal : Int) (count : Nat) :
    r.SameOutside (ByteStore.shift r start goal count) goal count := by
  induction count generalizing r start goal with
  | zero => exact .refl r goal 0
  | succ count ih =>
    have first : r.SameOutside (r.set goal (r.get start)) goal (count + 1) :=
      (r.sameOutside_set goal _).mono (Int.le_refl _) (by omega)
    exact first.trans ((ih _ _ _).mono (by omega) (by omega))

/-- A run that ends before a change begins is kept, if the change ends within one turn of the run's
beginning. -/
theorem Holds.of_sameOutside {r r' : Ring α} {p q : Int} {l : List α} {count : Nat}
    (h : r.Holds p l) (same : r.SameOutside r' q count) (before : p + l.length ≤ q)
    (turn : q + count ≤ p + r.size) : r'.Holds p l :=
  h.of_same fun _ low high => same.get_of_before rfl (by omega) (by omega)

/-- A run that is moved down, byte after byte, lies at its new place. -/
theorem Holds.shift {r : Ring UInt8} {start goal : Int} {l : List UInt8} (h : r.Holds start l)
    (down : goal ≤ start) (turn : start + l.length ≤ goal + r.size) :
    (ByteStore.shift r start goal l.length).Holds goal l := by
  induction l generalizing r start goal with
  | nil => exact holds_nil _ _
  | cons b l ih =>
    obtain ⟨first, rest⟩ := holds_cons.mp h
    simp only [List.length_cons] at turn
    have moved : (r.set goal (r.get start)).Holds (start + 1) l := by
      refine rest.of_same fun x low high => ?_
      exact r.get_set_of_ne _ (r.index_ne_of_lt (by omega) (by omega))
    have later := ih moved (Int.add_le_add_right down 1) (by rw [size_set]; omega)
    have kept := (sameOutside_shift (r.set goal (r.get start)) (start + 1) (goal + 1)
      l.length).get_of_before (x := goal) rfl (Int.lt_succ goal) (by rw [size_set]; omega)
    refine holds_cons.mpr ⟨?_, later⟩
    show (ByteStore.shift (r.set goal (r.get start)) (start + 1) (goal + 1) l.length).get goal = b
    rw [kept, get_set_self _ _ rfl, first]

end FragmentPipe.Ring
