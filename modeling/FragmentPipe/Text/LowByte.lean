/-!
Text of one byte a character: a character is written as the low byte of its number, and a byte is
read as the character of its number. Main statement: `decode_encode`, a text whose characters all
lie below 256 comes back.
-/

namespace FragmentPipe.LowByte

/-- The low bytes of the characters. -/
def encode (text : List Char) : List UInt8 := text.map fun c => UInt8.ofNat c.toNat

/-- The characters of the bytes. -/
def decode (bytes : List UInt8) : List Char := bytes.map fun b => Char.ofNat b.toNat

@[simp] theorem length_encode (text : List Char) : (encode text).length = text.length := by
  simp [encode]

theorem decode_encode (text : List Char) (h : ∀ c ∈ text, c.toNat < 256) :
    decode (encode text) = text := by
  induction text with
  | nil => rfl
  | cons c text ih =>
    have small := h c (by simp)
    have rest := ih fun d member => h d (by simp [member])
    simp only [encode, decode, List.map_cons] at rest ⊢
    rw [rest]
    congr 1
    have whole : (UInt8.ofNat c.toNat).toNat = c.toNat := UInt8.toNat_ofNat_of_lt small
    rw [whole, Char.ofNat_toNat]

end FragmentPipe.LowByte
