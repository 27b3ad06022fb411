/-!
The closed set of field kinds. A kind fixes how many cells of the slab a field takes and whether its
content lies in the blob.
-/

namespace FragmentPipe

/-- What a field of a fragment holds. -/
inductive FieldKind where
  | int | optionalInt | long | optionalLong | decimal | optionalDecimal
  | ascii | utf8 | bytes
  /-- How many nested fragments follow. -/
  | groupLength
  deriving DecidableEq, Repr

namespace FieldKind

/-- The number of cells. A long takes two, a decimal its exponent and a long, and a variable length
field a descriptor of two cells. -/
def width : FieldKind → Nat
  | int | optionalInt | groupLength => 1
  | long | optionalLong => 2
  | decimal | optionalDecimal => 3
  | ascii | utf8 | bytes => 2

/-- Whether the content lies in the blob. -/
def isVariable : FieldKind → Bool
  | ascii | utf8 | bytes => true
  | int | optionalInt | long | optionalLong | decimal | optionalDecimal | groupLength => false

/-- Whether the field can be absent by a reserved value. -/
def isOptional : FieldKind → Bool
  | optionalInt | optionalLong | optionalDecimal => true
  | int | long | decimal | ascii | utf8 | bytes | groupLength => false

theorem width_pos (k : FieldKind) : 0 < k.width := by cases k <;> decide

end FieldKind

end FragmentPipe
