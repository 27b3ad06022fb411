import FragmentPipe.Storage.Bytes
import FragmentPipe.Pipe.Error
import FragmentPipe.Pipe.Event

/-!
UTF-8 with forms of one to six bytes, over any place that holds bytes. An encoder refuses values from
`0x7FFFFFFF` on and writes a question mark for a lone surrogate. A decoder never fails: a form that
is broken yields the replacement character, and the decoder goes on after the bytes that its lead
announced. Main statements: `length_encode`, an encoded value has its announced length, and
`Step.width_pos`, every step of the decoder makes progress.
-/

namespace FragmentPipe.Utf8

/-- The value for what can not be decoded. -/
def replacement : Nat := 0xFFFD

/-- The number of bytes of an encoded value, `none` beyond the longest form. The forms of four and
five bytes leave out the last value that would fit. -/
def encodedLength? (value : Nat) : Option Nat :=
  if value ≤ 0x7F then some 1
  else if value ≤ 0x7FF then some 2
  else if 0xD800 ≤ value ∧ value ≤ 0xDFFF then some 1
  else if value ≤ 0xFFFF then some 3
  else if value < 0x1FFFFF then some 4
  else if value < 0x3FFFFFF then some 5
  else if value < 0x7FFFFFFF then some 6
  else none

/-- Six bits of a value as a continuation byte; `place` counts the groups of six below them. -/
def continuation (value place : Nat) : UInt8 := UInt8.ofNat (0x80 + value >>> (6 * place) % 64)

/-- The continuation bytes of a value, the highest first. -/
def continuations (value : Nat) : Nat → List UInt8
  | 0 => []
  | count + 1 => continuation value count :: continuations value count

/-- A lead byte with its share of the value, and `count` continuation bytes. -/
def form (mark count value : Nat) : List UInt8 :=
  UInt8.ofNat (mark + value >>> (6 * count)) :: continuations value count

/-- The bytes of a value, `none` beyond the longest form. -/
def encode? (value : Nat) : Option (List UInt8) :=
  if value ≤ 0x7F then some (form 0x00 0 value)
  else if value ≤ 0x7FF then some (form 0xC0 1 value)
  else if value ≤ 0xFFFF then
    if 0xD800 ≤ value ∧ value ≤ 0xDFFF then some [0x3F] else some (form 0xE0 2 value)
  else if value < 0x1FFFFF then some (form 0xF0 3 value)
  else if value < 0x3FFFFFF then some (form 0xF8 4 value)
  else if value < 0x7FFFFFFF then some (form 0xFC 5 value)
  else none

@[simp] theorem length_continuations (value count : Nat) :
    (continuations value count).length = count := by
  induction count with
  | zero => rfl
  | succ count ih => simp [continuations, ih]

theorem length_encode (value : Nat) : (encode? value).map List.length = encodedLength? value := by
  unfold encode? encodedLength?
  repeat' split
  all_goals simp [form]
  all_goals omega

/-- The bytes of a character. -/
def encodeChar (c : Char) : List UInt8 := (encode? c.toNat).getD []

/-- The bytes of a text. -/
def encodeText (text : String) : List UInt8 := text.toList.flatMap encodeChar

section Store

variable {σ : Type} [ByteStore σ]

/-- Stores a value at a position; the answer is the position after it. A refused value leaves the
place as it was. -/
def put (s : σ) (position : Int) (value : Nat) : Except PipeError (Int × σ) :=
  match encode? value with
  | none => .error (.unencodableChar value)
  | some bytes =>
    .ok ((position + bytes.length) % wordSpan, ByteStore.putList s position bytes)

/-- One step of a decoder. -/
structure Step where
  /-- The bytes passed, at least one. -/
  width : Nat
  value : Nat
  events : List Event
  width_pos : 0 < width
  deriving Repr

/-- A broken form of `width` bytes. -/
def Step.broken (extra : Nat) (events : List Event) : Step :=
  ⟨extra + 1, replacement, events, Nat.succ_pos _⟩

/-- What a lead byte announces. -/
inductive Lead where
  /-- The whole value. -/
  | single (value : Nat)
  /-- The first bits of a value and the number of continuation bytes. -/
  | opens (bits count : Nat)
  /-- No form at all; that many bytes after it are passed too. -/
  | stray (extra : Nat)
  deriving DecidableEq, Repr

/-- Reads a lead byte. Below the two highest bits the number of leading ones decides; only a byte of
the form `100xxxxx` is told apart by its second bit. -/
def Lead.ofByte (byte : UInt8) : Lead :=
  let n := byte.toNat
  if n < 0x80 then .single n
  else if n % 64 < 32 then if n < 0xC0 then .stray 1 else .opens (n % 32) 1
  else if n % 64 < 48 then .opens (n % 16) 2
  else if n % 64 < 56 then .opens (n % 8) 3
  else if n % 64 < 60 then .opens (n % 4) 4
  else if n % 64 < 62 then .opens (n % 2) 5
  else .stray 5

/-- Whether a byte has the form `10xxxxxx`. -/
def isContinuation (byte : UInt8) : Bool := byte.toNat / 64 == 2

/-- Reads the continuation bytes from `offset` bytes after `start`. The first byte of another form
ends the attempt; the bytes still announced are passed, and if it was the last one this is
reported. -/
def readContinuations (s : σ) (start : Int) (offset bits : Nat) : Nat → Step
  | 0 => ⟨offset + 1, bits, [], Nat.succ_pos _⟩
  | count + 1 =>
    let position := (start + (offset + 1 : Nat)) % wordSpan
    let byte := ByteStore.get s position
    if isContinuation byte then
      readContinuations s start (offset + 1) (bits * 64 + byte.toNat % 64) count
    else
      Step.broken (offset + (count + 1)) (if count = 0 then [.brokenUtf8 byte position] else [])

/-- Decodes the value at a position. -/
def decodeStep (s : σ) (position : Int) : Step :=
  match Lead.ofByte (ByteStore.get s position) with
  | .single value => ⟨1, value, [], Nat.one_pos⟩
  | .opens bits count => readContinuations s position 0 bits count
  | .stray extra => Step.broken extra []

/-- The position after a step. -/
def Step.next (step : Step) (position : Int) : Int := (position + step.width) % wordSpan

/-- Decodes until at least `length` bytes are passed: the values, and what was reported. -/
def decodeRun (s : σ) (position : Int) (length : Nat) : List Nat × List Event :=
  if length = 0 then ([], [])
  else
    let step := decodeStep s position
    let rest := decodeRun s (step.next position) (length - step.width)
    (step.value :: rest.1, step.events ++ rest.2)
termination_by length
decreasing_by
  have progress : 0 < (decodeStep s position).width := (decodeStep s position).width_pos
  omega

end Store

/-- The character of a value; values that are no character become the replacement character. -/
def toChar (value : Nat) : Char := if value.isValidChar then Char.ofNat value else '\uFFFD'

/-- The text of decoded values. -/
def toText (values : List Nat) : String := String.ofList (values.map toChar)

example : encodeText "aé中😀" = "aé中😀".toUTF8.toList := by decide +kernel
example : (decodeRun (#[0xE4, 0xB8, 0xAD, 0x80, 0x41] : Buffer) 0 4).1 = [0x4E2D, 0xFFFD] := by
  decide +kernel

end FragmentPipe.Utf8
