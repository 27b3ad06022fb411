import FragmentPipe.Produce.Field
import FragmentPipe.Stream.LittleEndian
import FragmentPipe.Text.Utf16

/-!
Streamed fields: a field that is written piece by piece behind the blob head and committed at the
end. While it is open it holds the pipe. A field that is given up leaves the blob head where it was.
-/

namespace FragmentPipe

/-- Why a streamed field can not be written or read further. -/
inductive StreamError where
  /-- The field has fewer bytes than asked for. -/
  | unexpectedEnd
  /-- The blob has no room for what is written. -/
  | noRoom
  /-- Not a single byte could be taken. -/
  | nothingTaken
  /-- A text longer than its length prefix can tell. -/
  | textTooLong
  deriving DecidableEq, Repr

/-- The wording of an error of a streamed field. -/
def StreamError.message : StreamError → String
  | unexpectedEnd => "unexpected end of file"
  | noRoom => "blob ring has no room for the streamed field"
  | nothingTaken => "write zero"
  | textTooLong => "length-prefixed text exceeds 65535 bytes"

/-- An open streamed field and the pipe it belongs to. -/
structure FieldWriter where
  pipe : Pipe
  /-- Where the field begins. -/
  start : Int
  /-- The bytes written so far. -/
  written : Nat
  /-- The bytes that can be written in all. -/
  room : Nat

namespace FieldWriter

/-- A field at the blob head. One byte of the blob stays free, because a full blob could not be told
from an empty one. -/
def ofPipe (p : Pipe) : FieldWriter where
  pipe := p
  start := p.producer.blobHead
  written := 0
  room := p.store.blob.size - (p.bytesOfContent.toNat + 1)

/-- The bytes that can still be written. -/
def remaining (w : FieldWriter) : Nat := w.room - w.written

/-- Whether nothing is written yet. -/
def isEmpty (w : FieldWriter) : Bool := w.written == 0

/-- Stores bytes behind those written before, if there is room for all of them. -/
def put (w : FieldWriter) (bytes : List UInt8) : Except StreamError Unit × FieldWriter :=
  if w.remaining < bytes.length then (.error .noRoom, w)
  else
    let blob := ByteStore.putList w.pipe.store.blob (w.start + w.written) bytes
    (.ok (), { w with pipe.store.blob := blob, written := w.written + bytes.length })

/-- Writes the `width` lowest bytes of a number. -/
def putNumber (w : FieldWriter) (width : Nat) (n : Int) : Except StreamError Unit × FieldWriter :=
  w.put (LittleEndian.encode width n)

/-- Writes a truth value as one byte. -/
def writeBool (w : FieldWriter) (b : Bool) : Except StreamError Unit × FieldWriter :=
  w.putNumber 1 (if b then 1 else 0)

/-- Writes an 8 bit number. -/
def writeByte (w : FieldWriter) (n : Int8) : Except StreamError Unit × FieldWriter :=
  w.putNumber 1 n.toInt

/-- Writes a 16 bit number. -/
def writeShort (w : FieldWriter) (n : Int16) : Except StreamError Unit × FieldWriter :=
  w.putNumber 2 n.toInt

/-- Writes a 16 bit unit of text. -/
def writeUnit (w : FieldWriter) (n : UInt16) : Except StreamError Unit × FieldWriter :=
  w.putNumber 2 n.toNat

/-- Writes a 32 bit number. -/
def writeInt (w : FieldWriter) (n : Int32) : Except StreamError Unit × FieldWriter :=
  w.putNumber 4 n.toInt

/-- Writes a 64 bit number. -/
def writeLong (w : FieldWriter) (n : Int64) : Except StreamError Unit × FieldWriter :=
  w.putNumber 8 n.toInt

/-- Writes the bits of a binary32 number. -/
def writeFloatBits (w : FieldWriter) (bits : UInt32) : Except StreamError Unit × FieldWriter :=
  w.putNumber 4 bits.toNat

/-- Writes the bits of a binary64 number. -/
def writeDoubleBits (w : FieldWriter) (bits : UInt64) : Except StreamError Unit × FieldWriter :=
  w.putNumber 8 bits.toNat

/-- Writes units until one does not fit; those before it stay. -/
def writeUnits (w : FieldWriter) : List Nat → Except StreamError Unit × FieldWriter
  | [] => (.ok (), w)
  | unit :: units =>
    match w.putNumber 2 unit with
    | (.error e, w) => (.error e, w)
    | (.ok _, w) => w.writeUnits units

/-- Writes a text in 16 bit units and ends it with a line feed. -/
def writeLine (w : FieldWriter) (text : String) : Except StreamError Unit × FieldWriter :=
  w.writeUnits (Utf16.encode text.toList ++ [0x0A])

/-- Writes a text in UTF-8 after its length in two bytes, or nothing at all. -/
def writeText (w : FieldWriter) (text : String) : Except StreamError Unit × FieldWriter :=
  let bytes := Utf8.encodeText text
  if 65535 < bytes.length then (.error .textTooLong, w)
  else if w.remaining < bytes.length + 2 then (.error .noRoom, w)
  else
    match w.putNumber 2 bytes.length with
    | (.error e, w) => (.error e, w)
    | (.ok _, w) => w.put bytes

/-- Writes as many bytes as fit; the answer is their number. It is an error if none of some fits. -/
def writeSome (w : FieldWriter) (bytes : List UInt8) : Except StreamError Nat × FieldWriter :=
  let count := min bytes.length w.remaining
  if count = 0 ∧ bytes ≠ [] then (.error .nothingTaken, w)
  else
    match w.put (bytes.take count) with
    | (.error e, w) => (.error e, w)
    | (.ok _, w) => (.ok count, w)

/-- Checks the length and commits the field; the answer is the length. A refused field is closed all
the same. -/
def finish (w : FieldWriter) : Except PipeError Int × Pipe :=
  let (checked, p) := w.pipe.checkLength w.written
  match p.closeField with
  | (.error e, p) => (.error e, p)
  | (.ok _, p) =>
    match checked with
    | .error e => (.error e, p)
    | .ok _ => (.ok w.written, p.commitField w.written)

/-- Gives the field up. -/
def abandon (w : FieldWriter) : Pipe := w.pipe.closeField.2

/-- The state of the field in one line. -/
def render (w : FieldWriter) : String :=
  "BlobWriter \x7b " ++ s!"start: {w.start}, written: {w.written}, room: {w.room}" ++ " \x7d"

end FieldWriter

/-- Opens a streamed field at the blob head. -/
def Pipe.openStream (p : Pipe) : Except PipeError FieldWriter × Pipe :=
  match p.openField with
  | (.error e, p) => (.error e, p)
  | (.ok _, p) => (.ok (.ofPipe p), p)

end FragmentPipe
