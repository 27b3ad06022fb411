/-!
Counters that one side publishes and the other observes: a 64 bit counter that grows by sums, and a
32 bit counter whose sums are masked, for positions that go around.
-/

namespace FragmentPipe

/-- A published 64 bit position. -/
structure Counter where
  value : Int64
  deriving DecidableEq, Repr

namespace Counter

/-- Publishes a value. -/
def set (_ : Counter) (value : Int64) : Counter := ⟨value⟩

/-- Publishes the sum. -/
def add (c : Counter) (increment : Int64) : Counter := ⟨c.value + increment⟩

/-- The value in decimal digits. -/
def text (c : Counter) : String := toString c.value.toInt

end Counter

/-- A published 32 bit position. -/
structure MaskedCounter where
  value : Int32
  deriving DecidableEq, Repr

namespace MaskedCounter

/-- Publishes a value. -/
def set (_ : MaskedCounter) (value : Int32) : MaskedCounter := ⟨value⟩

/-- Publishes the sum, of which the mask keeps some bits. -/
def maskedAdd (c : MaskedCounter) (increment mask : Int32) : MaskedCounter :=
  ⟨(c.value + increment) &&& mask⟩

/-- The value in decimal digits. -/
def text (c : MaskedCounter) : String := toString c.value.toInt

end MaskedCounter

end FragmentPipe
