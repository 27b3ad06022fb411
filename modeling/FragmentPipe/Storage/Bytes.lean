import FragmentPipe.Storage.Ring

/-!
Places that hold bytes at 32 bit positions: a ring, where a position goes around, and a flat buffer,
where a position outside reads as zero and takes no store. Encoders and decoders are written once
against both.
-/

namespace FragmentPipe

/-- A flat run of bytes. -/
abbrev Buffer := Array UInt8

/-- The number of positions a 32 bit word can name. -/
def wordSpan : Int := 0x100000000

/-- A place that holds bytes. -/
class ByteStore (σ : Type) where
  /-- The byte at a position. -/
  get : σ → Int → UInt8
  /-- Stores a byte at a position. -/
  put : σ → Int → UInt8 → σ

instance : ByteStore (Ring UInt8) where
  get := Ring.get
  put := Ring.set

instance : ByteStore Buffer where
  get buffer position := buffer.getD (position % wordSpan).toNat 0
  put buffer position byte := buffer.setIfInBounds (position % wordSpan).toNat byte

namespace ByteStore

variable {σ : Type} [ByteStore σ]

/-- Stores bytes at consecutive positions, the first one first. -/
def putList (s : σ) (position : Int) : List UInt8 → σ
  | [] => s
  | b :: bs => putList (put s position b) (position + 1) bs

/-- The bytes at `count` consecutive positions. -/
def getList (s : σ) (position : Int) (count : Nat) : List UInt8 :=
  (List.range count).map fun (k : Nat) => get s (position + k)

/-- Copies bytes from one place to another. The length is a 32 bit word, as the positions are. -/
def copyInto {τ : Type} [ByteStore τ] (source : σ) (start : Int) (target : τ) (goal : Int)
    (length : Nat) : τ :=
  putList target goal (getList source start (length % 0x100000000))

/-- Moves `count` bytes within a place one after the other, so that a byte moved may be one stored
before. -/
def shift (s : σ) (start goal : Int) : Nat → σ
  | 0 => s
  | count + 1 => shift (put s goal (get s start)) (start + 1) (goal + 1) count

@[simp] theorem length_getList (s : σ) (position : Int) (count : Nat) :
    (getList s position count).length = count := by
  simp [getList]

theorem getList_add (s : σ) (p : Int) (m n : Nat) :
    getList s p (m + n) = getList s p m ++ getList s (p + m) n := by
  simp only [getList, List.range_add, List.map_append, List.map_map, Function.comp_def,
    Int.natCast_add, Int.add_assoc]

theorem putList_append (s : σ) (position : Int) (xs ys : List UInt8) :
    putList s position (xs ++ ys) = putList (putList s position xs) (position + xs.length) ys := by
  induction xs generalizing s position with
  | nil => simp [putList]
  | cons x xs ih =>
    simp only [List.cons_append, putList, ih, List.length_cons]
    congr 1
    push_cast
    omega

end ByteStore

end FragmentPipe
