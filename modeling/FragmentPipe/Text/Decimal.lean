import FragmentPipe.Storage.Bytes

/-!
Decimal text written in place. The digits are put down from right to left before a scratch position,
zeros fill them up to a least count, a minus sign is put before them in any case, and the text, with
the sign only where the number is negative, is moved to its own position. The scratch bytes stay.
-/

namespace FragmentPipe.Decimal

/-- A digit as a byte. -/
def digitByte (d : Nat) : UInt8 := UInt8.ofNat (0x30 + d)

/-- The digits of a number, the last one first. -/
def digits (n : Nat) : List UInt8 :=
  if n < 10 then [digitByte n] else digitByte (n % 10) :: digits (n / 10)
termination_by n
decreasing_by omega

/-- The digits with zeros before them up to a least count, the last one first. -/
def paddedDigits (n least : Nat) : List UInt8 :=
  digits n ++ List.replicate (least - (digits n).length) (digitByte 0)

/-- The minus sign. -/
def minus : UInt8 := 0x2D

/-- The decimal point. -/
def point : UInt8 := 0x2E

/-- The exponents that are left from a power of ten up to the last one that a number reaches. -/
def exponentsFrom (n power : Nat) : Nat :=
  if 0 < power ∧ power * 10 ≤ n then exponentsFrom n (power * 10) + 1 else 0
termination_by n - power
decreasing_by omega

/-- The exponent of the last power of ten that a number reaches; zero reaches none. -/
def log10? (n : Nat) : Option Nat := if n = 0 then none else some (exponentsFrom n 1)

/-- The number of digits of a number, from its logarithm. -/
def digitCount (n : Nat) : Nat := (log10? n).elim 1 (· + 1)

section Store

variable {σ : Type} [ByteStore σ]

/-- Stores bytes at falling positions, the first one just before `position`; the answer is the
position of the last one. -/
def putDownward (s : σ) (position : Int) : List UInt8 → Int × σ
  | [] => (position, s)
  | b :: bs => putDownward (ByteStore.put s (position - 1) b) (position - 1) bs

/-- Writes a number with at least `least` digits to `head`, using the bytes before `scratch`; the
answer is the length of the text, which is the distance from where it begins to the scratch
position. -/
def put (s : σ) (value : Int) (least : Nat) (scratch head : Int) : Nat × σ :=
  let written := putDownward s scratch (paddedDigits value.natAbs least)
  let signed := ByteStore.put written.2 (written.1 - 1) minus
  let start := if value < 0 then written.1 - 1 else written.1
  let length := (scratch - start).toNat
  (length, ByteStore.shift signed start head length)

@[simp] theorem putDownward_fst (s : σ) (position : Int) (bytes : List UInt8) :
    (putDownward s position bytes).1 = position - bytes.length := by
  induction bytes generalizing s position with
  | nil => exact (Int.sub_zero position).symm
  | cons b bs ih =>
    rw [putDownward, ih, List.length_cons]
    omega

end Store

end FragmentPipe.Decimal
