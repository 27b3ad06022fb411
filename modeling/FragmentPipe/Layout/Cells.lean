/-!
How values lie in the 32 bit cells of a slab. A long takes two cells, the high half first. A variable
length field takes a descriptor: a cell for the origin of its bytes and one for their number. Main
statements: `joinLong_splitLong`, `Origin.ofCell_toCell_blob` and `Origin.ofCell_toCell_constants`,
what is stored can be read back.
-/

namespace FragmentPipe

/-- The number of positions of the blob before its counters start again at zero. -/
def blobSpan : Int := 0x80000000

/-- The high and the low half of a long. -/
def splitLong (value : Int64) : Int32 × Int32 :=
  (Int32.ofInt (value.toInt / 0x100000000), Int32.ofInt value.toInt)

/-- The long of two halves. -/
def joinLong (high low : Int32) : Int64 :=
  Int64.ofInt (high.toInt * 0x100000000 + low.toInt % 0x100000000)

/-- Where the bytes of a field begin. -/
inductive Origin where
  /-- In the blob, so many bytes after the base of the fragment. -/
  | blob (offset : Int)
  /-- In the constants, at that place. -/
  | constants (offset : Int)
  deriving DecidableEq, Repr

namespace Origin

/-- The offset, wherever the bytes are. -/
def offset : Origin → Int
  | blob offset => offset
  | constants offset => offset

/-- A cell: constants have the sign bit set. -/
def toCell : Origin → Int32
  | blob offset => Int32.ofInt offset
  | constants offset => Int32.ofInt (offset - blobSpan)

/-- The origin that a cell means. -/
def ofCell (cell : Int32) : Origin :=
  if cell.toInt < 0 then constants (cell.toInt + blobSpan) else blob cell.toInt

end Origin

/-- The place and the number of the bytes of a field. A negative length means that the field is
absent. -/
structure Descriptor where
  origin : Origin
  length : Int
  deriving DecidableEq, Repr

namespace Descriptor

/-- The descriptor that two cells mean. -/
def ofCells (origin length : Int32) : Descriptor := ⟨Origin.ofCell origin, length.toInt⟩

/-- The number of bytes, none for an absent field. -/
def size (d : Descriptor) : Nat := d.length.toNat

end Descriptor

theorem joinLong_splitLong (value : Int64) :
    joinLong (splitLong value).1 (splitLong value).2 = value := by
  have lower := value.le_toInt
  have upper := value.toInt_lt
  have high : (splitLong value).1.toInt = value.toInt / 0x100000000 :=
    Int32.toInt_ofInt_of_le (by omega) (by omega)
  have low : (splitLong value).2.toInt % 0x100000000 = value.toInt % 0x100000000 := by
    show (Int32.ofInt value.toInt).toInt % 0x100000000 = _
    rw [Int32.toInt_ofInt]
    exact Int.bmod_emod
  have whole : value.toInt / 0x100000000 * 0x100000000 + value.toInt % 0x100000000 = value.toInt := by omega
  rw [joinLong, high, low, whole, Int64.ofInt_toInt]

theorem Origin.ofCell_toCell_blob {offset : Int} (lower : 0 ≤ offset) (upper : offset < blobSpan) :
    Origin.ofCell (Origin.blob offset).toCell = .blob offset := by
  unfold blobSpan at upper
  have same : (Int32.ofInt offset).toInt = offset :=
    Int32.toInt_ofInt_of_le (by omega) (by omega)
  simp only [toCell, ofCell, same]
  rw [if_neg (by omega)]

theorem Origin.ofCell_toCell_constants {offset : Int} (lower : 0 ≤ offset)
    (upper : offset < blobSpan) :
    Origin.ofCell (Origin.constants offset).toCell = .constants offset := by
  unfold blobSpan at upper
  have same : (Int32.ofInt (offset - blobSpan)).toInt = offset - blobSpan :=
    Int32.toInt_ofInt_of_le (by unfold blobSpan; omega) (by unfold blobSpan; omega)
  simp only [toCell, ofCell, same]
  rw [if_pos (by unfold blobSpan; omega)]
  congr 1
  omega

end FragmentPipe
