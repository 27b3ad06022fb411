/-!
Numbers as bytes, the lowest byte first; a negative number is written by its residue, so that the
highest bit of as many bytes as it needs is its sign. Main statements: `decode_encode`, the bytes
stand for the number up to a multiple of what they can count to, and `length_encode`.
-/

namespace FragmentPipe.LittleEndian

/-- The `width` lowest bytes of a number. -/
def encode : Nat → Int → List UInt8
  | 0, _ => []
  | width + 1, n => UInt8.ofNat (n % 256).toNat :: encode width (n / 256)

/-- The number that bytes stand for. -/
def decode : List UInt8 → Nat
  | [] => 0
  | b :: bs => b.toNat + 256 * decode bs

@[simp] theorem length_encode (width : Nat) (n : Int) : (encode width n).length = width := by
  induction width generalizing n with
  | zero => rfl
  | succ width ih => simp [encode, ih]

theorem emod_split {n span : Int} (positive : 0 < span) :
    n % (256 * span) = n % 256 + 256 * (n / 256 % span) := by
  have low := Int.emod_nonneg n (by decide : (256 : Int) ≠ 0)
  have lowBound := Int.emod_lt_of_pos n (by decide : (0 : Int) < 256)
  have high := Int.emod_nonneg (n / 256) (Int.ne_of_gt positive)
  have highBound := Int.emod_lt_of_pos (n / 256) positive
  have outer := Int.mul_ediv_add_emod n 256
  have inner := Int.mul_ediv_add_emod (n / 256) span
  have whole : n = n % 256 + 256 * (n / 256 % span) + 256 * span * (n / 256 / span) := by
    rw [Int.mul_assoc 256 span]
    omega
  rw [whole, Int.add_mul_emod_self_left, ← whole]
  exact Int.emod_eq_of_lt (by omega) (by omega)

theorem decode_encode (width : Nat) (n : Int) :
    (decode (encode width n) : Int) = n % (1 <<< (8 * width) : Nat) := by
  induction width generalizing n with
  | zero => simp [encode, decode]
  | succ width ih =>
    have low : (UInt8.ofNat (n % 256).toNat).toNat = (n % 256).toNat := by
      apply UInt8.toNat_ofNat_of_lt
      show (n % 256).toNat < 256
      omega
    have positive : (0 : Int) < (1 <<< (8 * width) : Nat) := by
      rw [Nat.one_shiftLeft]
      exact_mod_cast Nat.two_pow_pos _
    have span : 1 <<< (8 * (width + 1)) = 256 * 1 <<< (8 * width) := by
      rw [Nat.mul_succ, Nat.one_shiftLeft, Nat.one_shiftLeft, Nat.pow_add, Nat.mul_comm]
    have rest := ih (n / 256)
    have scaled : ((256 * 1 <<< (8 * width) : Nat) : Int) =
        (256 : Int) * (1 <<< (8 * width) : Nat) :=
      Int.natCast_mul 256 _
    rw [span, scaled, emod_split positive, ← rest, encode, decode, low]
    omega

end FragmentPipe.LittleEndian
