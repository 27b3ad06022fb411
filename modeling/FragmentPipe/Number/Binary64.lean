/-!
Binary64 arithmetic on the numbers that capacity planning needs: positive quotients of naturals,
their products and their ceilings. Every result is the exact value rounded once to 53 significant
bits, a tie going to the even significand. The numbers are far from the ends of the exponent range,
so neither overflow nor gradual underflow appears.
-/

namespace FragmentPipe

/-- The number `significand * 2 ^ exponent`. A rounded number is zero or has a significand of
exactly 53 bits. -/
structure Binary64 where
  significand : Nat
  exponent : Int
  deriving DecidableEq, Repr

namespace Binary64

/-- The leading bit of a significand of 53 bits. -/
def hiddenBit : Nat := 0x10000000000000

/-- Zero. -/
def zero : Binary64 := ⟨0, 0⟩

/-- The quotient divided by `2 ^ e`, as a fraction of naturals. -/
def scale (num den : Nat) (e : Int) : Nat × Nat :=
  if 0 ≤ e then (num, den <<< e.toNat) else (num <<< (-e).toNat, den)

/-- The natural nearest to a fraction, a tie going to the even one. -/
def roundFraction (num den : Nat) : Nat :=
  let floor := num / den
  let twice := 2 * (num % den)
  if twice < den then floor
  else if den < twice then floor + 1
  else floor + floor % 2

/-- The exponent at which a positive quotient has a significand of 53 bits. -/
def exponentOf (num den : Nat) : Int :=
  let guess : Int := (num.log2 : Int) - (den.log2 : Int) - 52
  let (n, d) := scale num den guess
  if n / d < hiddenBit then guess - 1 else guess

/-- The quotient of two naturals, rounded. -/
def ofQuotient (num den : Nat) : Binary64 :=
  if num = 0 then zero
  else
    let e := exponentOf num den
    let (n, d) := scale num den e
    let m := roundFraction n d
    if m = 2 * hiddenBit then ⟨hiddenBit, e + 1⟩ else ⟨m, e⟩

/-- A natural, rounded. -/
def ofNat (n : Nat) : Binary64 := ofQuotient n 1

/-- The product, rounded. -/
def mul (a b : Binary64) : Binary64 :=
  let (num, den) := scale (a.significand * b.significand) 1 (-(a.exponent + b.exponent))
  ofQuotient num den

/-- The least natural that is not smaller. -/
def ceil (a : Binary64) : Nat :=
  let (num, den) := scale a.significand 1 (-a.exponent)
  (num + den - 1) / den

/-- The 64 bits of the interchange format: eleven bits of biased exponent, then the significand
without its leading bit. -/
def toBits (a : Binary64) : Nat :=
  if a.significand = 0 then 0
  else (a.exponent + 1075).toNat * hiddenBit + (a.significand - hiddenBit)

example : (ofQuotient 1 4).toBits = 0x3fd0000000000000 := by decide +kernel
example : (ofQuotient 1 3).toBits = 0x3fd5555555555555 := by decide +kernel
example : ((ofNat 17).mul (ofQuotient 1 4)).ceil = 5 := by decide +kernel

end Binary64

end FragmentPipe
