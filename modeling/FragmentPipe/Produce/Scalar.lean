import FragmentPipe.Pipe.State

/-!
Writing scalar fields into the slab.
-/

namespace FragmentPipe.Pipe

/-- Writes one cell. -/
def putInt (p : Pipe) (value : Int32) : Pipe :=
  { p with
    store.slab := p.store.slab.set p.producer.slabHead value
    producer.slabHead := p.producer.slabHead + 1 }

/-- Writes a long, its high half first. -/
def putLong (p : Pipe) (value : Int64) : Pipe :=
  (p.putInt (splitLong value).1).putInt (splitLong value).2

/-- Writes an integer or the value that means absence. -/
def putOptionalInt (p : Pipe) (value : Option Int32) : Pipe :=
  p.putInt (value.getD p.schema.absentInt)

/-- Writes a long or the value that means absence. -/
def putOptionalLong (p : Pipe) (value : Option Int64) : Pipe :=
  p.putLong (value.getD p.schema.absentLong)

/-- Writes a decimal, its exponent first. -/
def putDecimal (p : Pipe) (exponent : Int32) (mantissa : Int64) : Pipe :=
  (p.putInt exponent).putLong mantissa

/-- Writes a decimal or the values that mean absence. -/
def putOptionalDecimal (p : Pipe) (value : Option (Int32 × Int64)) : Pipe :=
  let parts := value.getD (p.schema.absentInt, p.schema.absentLong)
  p.putDecimal parts.1 parts.2

/-- Fills in a cell written before, such as the length of a group. -/
def fillInt (p : Pipe) (value : Int32) (position : Int) : Pipe :=
  { p with store.slab := p.store.slab.set position value }

end FragmentPipe.Pipe
