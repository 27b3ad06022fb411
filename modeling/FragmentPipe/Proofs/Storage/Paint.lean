import FragmentPipe.Proofs.Storage.RingRun

/-!
Stores whose outcome does not depend on what lay there before. `Ring.Paints f p A` says that `f`
changes a ring at the offsets `A` behind `p` and nowhere else, and that it leaves the same bytes there
in every ring of one size. Main statement: `Paints.spares_iff`, such stores leave a stretch that ends
at `p` alone, whatever it holds, if and only if no offset goes around the ring as far as the stretch.
-/

namespace FragmentPipe.Ring

/-- What `f` does to a ring: it changes the cells at the offsets `A` behind `p` and no others, and
what lies there afterwards is the same for all rings of one size. -/
structure Paints (f : Ring UInt8 → Ring UInt8) (p : Int) (A : Nat → Prop) : Prop where
  size : ∀ r, (f r).size = r.size
  same : ∀ r q, (∀ k, A k → r.index (p + k) ≠ r.index q) → (f r).get q = r.get q
  fixed : ∀ r r', r.size = r'.size → ∀ k, A k → (f r).get (p + k) = (f r').get (p + k)

namespace Paints

variable {f : Ring UInt8 → Ring UInt8} {p : Int} {A B : Nat → Prop}

/-- Nothing is painted. -/
theorem nothing (p : Int) : Paints (fun r => r) p fun _ => False :=
  ⟨fun _ => rfl, fun _ _ _ => rfl, fun _ _ _ _ none => none.elim⟩

theorem congr (h : Paints f p A) (same : ∀ k, A k ↔ B k) : Paints f p B := by
  have equal : A = B := funext fun k => propext (same k)
  rwa [equal] at h

/-- One more byte, which may be one that lies there after `f`. -/
theorem store (h : Paints f p A) (j : Nat) (byte : Ring UInt8 → UInt8)
    (told : ∀ r r', r.size = r'.size → byte r = byte r') :
    Paints (fun r => (f r).set (p + j) (byte r)) p fun k => A k ∨ k = j := by
  constructor
  · intro r
    rw [size_set, h.size]
  · intro r q apart
    have last : (f r).index (p + j) ≠ (f r).index q := by
      rw [index_eq_of_size (h.size r), index_eq_of_size (h.size r)]
      exact apart j (.inr rfl)
    rw [get_set_of_ne _ _ last, h.same r q fun k painted => apart k (.inl painted)]
  · intro r r' size k painted
    have sizes : (f r).size = (f r').size := by rw [h.size, h.size, size]
    by_cases hit : (f r).index (p + j) = (f r).index (p + k)
    · have hit' : (f r').index (p + j) = (f r').index (p + k) := by
        rwa [← index_eq_of_size sizes, ← index_eq_of_size sizes]
      rw [get_set_self _ _ hit, get_set_self _ _ hit', told r r' size]
    · have miss : (f r').index (p + j) ≠ (f r').index (p + k) := by
        rwa [← index_eq_of_size sizes, ← index_eq_of_size sizes]
      rw [get_set_of_ne _ _ hit, get_set_of_ne _ _ miss]
      rcases painted with earlier | rfl
      · exact h.fixed r r' size k earlier
      · exact absurd rfl hit

/-- Bytes that are painted may be moved within the ring. -/
theorem shift (h : Paints f p A) (start goal count : Nat)
    (source : ∀ i < count, A (start + i)) :
    Paints (fun r => ByteStore.shift (f r) (p + start) (p + goal) count) p
      fun k => A k ∨ (goal ≤ k ∧ k < goal + count) := by
  induction count generalizing f A start goal with
  | zero => exact h.congr fun k => ⟨.inl, fun either => either.resolve_right (by omega)⟩
  | succ count ih =>
    have first := h.store goal (fun r => (f r).get (p + start))
      fun r r' size => h.fixed r r' size start (source 0 (Nat.succ_pos count))
    have rest := ih first (start + 1) (goal + 1) fun i few => by
      have place : start + 1 + i = start + (i + 1) := by omega
      rw [place]
      exact .inl (source (i + 1) (Nat.succ_lt_succ few))
    have steps : ∀ n : Nat, p + ((n + 1 : Nat) : Int) = p + n + 1 := fun n => by omega
    simp only [steps] at rest
    refine rest.congr fun k => ?_
    constructor
    · rintro ((painted | rfl) | behind)
      · exact .inl painted
      · exact .inr (by omega)
      · exact .inr (by omega)
    · rintro (painted | behind)
      · exact .inl (.inl painted)
      · rcases Nat.eq_or_lt_of_le behind.1 with rfl | later
        · exact .inl (.inr rfl)
        · exact .inr (by omega)

/-- Painting spares the stretch before it, whatever the ring holds, exactly if no offset goes around
the ring as far as the stretch. -/
theorem spares_iff (h : Paints f p A) {like : Ring UInt8} {released reached : Int}
    (place : p % (like.size : Int) = reached % (like.size : Int)) :
    (∀ r : Ring UInt8, r.size = like.size →
      ∀ x, released ≤ x → x < reached → (f r).get x = r.get x) ↔
        ∀ k, A k → ((k % like.size : Nat) : Int) + (reached - released) < like.size := by
  have positive := like.size_pos
  constructor
  · intro spared k painted
    refine Decidable.byContradiction fun far => ?_
    have turn := Nat.mod_lt k positive
    -- Rings of zeros and of ones can not both be spared at a cell that is painted.
    have blank := spared (.filled like.bits 0) (by rw [size_filled, size_eq])
      (reached + (k % like.size : Nat) - like.size) (by omega) (by omega)
    have full := spared (.filled like.bits 1) (by rw [size_filled, size_eq])
      (reached + (k % like.size : Nat) - like.size) (by omega) (by omega)
    rw [get_filled] at blank full
    have cell : ∀ r : Ring UInt8, r.size = like.size →
        r.index (reached + (k % like.size : Nat) - like.size) = r.index (p + k) := by
      intro r size
      rw [index_eq_iff, size, Int.sub_emod_right, Int.natCast_emod, Int.add_emod, Int.emod_emod,
        ← place, ← Int.add_emod]
    have painted := h.fixed (.filled like.bits 0) (.filled like.bits 1) (by simp) k painted
    rw [← get_congr _ (cell _ (by rw [h.size, size_filled, size_eq])), blank,
      ← get_congr _ (cell _ (by rw [h.size, size_filled, size_eq])), full] at painted
    exact absurd painted (by decide)
  · intro clear r size x low high
    refine h.same r x ?_
    intro k painted hit
    have near := clear k painted
    rw [index_eq_iff, size, Int.add_emod, place, ← Int.add_emod,
      Int.emod_eq_emod_iff_emod_sub_eq_zero] at hit
    have round : (reached - x + (k % like.size : Nat)) % (like.size : Int) = 0 := by
      rw [Int.natCast_emod, Int.add_emod, Int.emod_emod, ← Int.add_emod, ← hit]
      congr 1
      omega
    rw [Int.emod_eq_of_lt (by omega) (by omega)] at round
    omega

end Paints

end FragmentPipe.Ring
