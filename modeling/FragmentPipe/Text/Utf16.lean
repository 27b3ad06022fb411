/-!
Text as 16 bit units: a character below `0x10000` is one unit, any other a pair of surrogates.
-/

namespace FragmentPipe.Utf16

/-- The units of a character. -/
def encodeChar (c : Char) : List Nat :=
  let n := c.toNat
  if n < 0x10000 then [n] else [0xD800 + (n - 0x10000) / 0x400, 0xDC00 + (n - 0x10000) % 0x400]

/-- The units of a text. -/
def encode (text : List Char) : List Nat := text.flatMap encodeChar

end FragmentPipe.Utf16
