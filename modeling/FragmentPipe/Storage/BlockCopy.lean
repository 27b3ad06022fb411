import FragmentPipe.Storage.Bytes

/-!
Copies between two flat stores whose positions are masked on their own. The copy goes run by run: a
run ends where either store ends, and the whole copy stops early where a masked position leaves its
store.
-/

namespace FragmentPipe.BlockCopy

/-- A store with the mask that folds a position into it, and the position where the copy stands. -/
structure Cursor where
  position : Nat
  mask : Nat

/-- The place in the store. -/
def Cursor.index (c : Cursor) : Nat := c.position &&& c.mask

/-- The cursor some bytes further on, positions being 32 bit words. -/
def Cursor.advance (c : Cursor) (count : Nat) : Cursor :=
  { c with position := (c.position + count) % 0x100000000 }

/-- Replaces a run of bytes. -/
def splice (target : Buffer) (index : Nat) (bytes : Buffer) : Buffer :=
  target.extract 0 index ++ bytes ++ target.extract (index + bytes.size) target.size

/-- The bytes that can be copied without folding a position. -/
def runLength (source : Buffer) (read : Cursor) (target : Buffer) (write : Cursor)
    (remaining : Nat) : Nat :=
  min remaining (min (source.size - read.index) (target.size - write.index))

/-- Copies `remaining` bytes; the answer is the number of bytes copied and the target. -/
def run (source : Buffer) (read : Cursor) (target : Buffer) (write : Cursor) (remaining : Nat) :
    Nat × Buffer :=
  let count := runLength source read target write remaining
  if count = 0 then (0, target)
  else
    let bytes := source.extract read.index (read.index + count)
    let rest := run source (read.advance count) (splice target write.index bytes)
      (write.advance count) (remaining - count)
    (count + rest.1, rest.2)
termination_by remaining
decreasing_by
  have bound : count ≤ remaining := Nat.min_le_left _ _
  omega

end FragmentPipe.BlockCopy
