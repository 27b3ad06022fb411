import FragmentPipe.Pipe.State

/-!
What there is to read, and the scalar fields of a fragment. Reading moves only the reader's own
position; the writer does not see it.
-/

namespace FragmentPipe.Pipe

/-- Whether anything is published after what is confirmed as read. -/
def hasContent (p : Pipe) : Bool × Pipe :=
  let check := p.consumer.content.hasContent p.store.slabHead
  (check.answer, { p with consumer.content := check.cache })

/-- Whether `size` cells are published after what is confirmed as read. -/
def hasContentSized (p : Pipe) (size : Int) : Bool × Pipe :=
  let check := p.consumer.content.hasContentSized size p.store.slabHead
  (check.answer, { p with consumer.content := check.cache })

/-- Waits for content. -/
def awaitContent (p : Pipe) : Wait Unit × Pipe :=
  let (found, p) := p.hasContent
  if found then (.done (), p)
  else
    match p.store.interruption with
    | some e => (.failed e, p)
    | none => (.blocked, p)

/-- Accounts for `size` cells as read. -/
def confirmRead (p : Pipe) (size : Int) : Pipe :=
  { p with consumer.content := p.consumer.content.confirm size }

/-- The cell `offset` places after the next one. -/
def peekInt (p : Pipe) (offset : Int) : Int32 := p.store.slab.get (p.consumer.slabTail + offset)

/-- The long `offset` places after the next cell. -/
def peekLong (p : Pipe) (offset : Int) : Int64 := joinLong (p.peekInt offset) (p.peekInt (offset + 1))

/-- Passes some cells. -/
def passCells (p : Pipe) (count : Nat) : Pipe :=
  { p with consumer.slabTail := p.consumer.slabTail + count }

/-- Reads one cell. -/
def takeInt (p : Pipe) : Int32 × Pipe := (p.peekInt 0, p.passCells 1)

/-- Reads the number of a message; the end mark has the number `-1`. -/
def takeMessage (p : Pipe) : Int32 × Pipe :=
  let (message, p) := p.takeInt
  (message, { p with consumer.lastMessage := message })

/-- Reads a long, its high half first. -/
def takeLong (p : Pipe) : Int64 × Pipe :=
  let (high, p) := p.takeInt
  let (low, p) := p.takeInt
  (joinLong high low, p)

/-- Reads an integer that may be absent. -/
def takeOptionalInt (p : Pipe) : Option Int32 × Pipe :=
  let (value, p) := p.takeInt
  (if value = p.schema.absentInt then none else some value, p)

/-- Reads a long that may be absent. -/
def takeOptionalLong (p : Pipe) : Option Int64 × Pipe :=
  let (value, p) := p.takeLong
  (if value = p.schema.absentLong then none else some value, p)

/-- Reads a decimal, its exponent first. -/
def takeDecimal (p : Pipe) : (Int32 × Int64) × Pipe :=
  let (exponent, p) := p.takeInt
  let (mantissa, p) := p.takeLong
  ((exponent, mantissa), p)

/-- Reads a decimal that may be absent, which its exponent tells. -/
def takeOptionalDecimal (p : Pipe) : Option (Int32 × Int64) × Pipe :=
  let (value, p) := p.takeDecimal
  (if value.1 = p.schema.absentInt then none else some value, p)

/-- Reads the two cells of a descriptor. -/
def takeDescriptor (p : Pipe) : Descriptor × Pipe :=
  let (origin, p) := p.takeInt
  let (length, p) := p.takeInt
  (.ofCells origin length, p)

end FragmentPipe.Pipe
