import FragmentPipe.Consume.Field
import FragmentPipe.Stream.FieldWriter

/-!
Views: a cursor over the bytes of one field, or of several adjoining ones. Reads of a fixed width
fail where the field has fewer bytes left and then leave the cursor where it is.
-/

namespace FragmentPipe

/-- Where the bytes of a view lie. -/
inductive Backing where
  | blob
  | constants
  deriving DecidableEq, Repr

/-- A cursor over the bytes of a field. -/
structure FieldView where
  backing : Backing
  /-- The next byte. -/
  position : Int
  /-- The length told by the descriptor, negative for an absent field. -/
  length : Int
  /-- The bytes not yet read. -/
  remaining : Nat
  deriving DecidableEq, Repr

namespace FieldView

/-- A view of nothing. -/
def empty : FieldView := ⟨.blob, 0, 0, 0⟩

/-- A view of a run of bytes. -/
def ofRun (backing : Backing) (position length : Int) : FieldView :=
  ⟨backing, position % wordSpan, length, length.toNat⟩

/-- Whether the field is absent. -/
def isNull (v : FieldView) : Bool := decide (v.length < 0)

/-- Takes the next field of the reader into view; the answer is its length. -/
def openField (p : Pipe) : Int × FieldView × Pipe :=
  let (d, p) := p.takeDescriptor
  match d.origin with
  | .constants offset => (d.length, ofRun .constants offset d.length, p)
  | .blob offset =>
    let (position, p) := p.locate offset d.length
    (d.length, ofRun .blob position d.length, p)

/-- Adds the next field of the reader to the view, which it is taken to adjoin; the answer is its
length. A view of nothing takes the field as its own. -/
def addField (v : FieldView) (p : Pipe) : Int × FieldView × Pipe :=
  if v.length ≤ 0 then openField p
  else
    let (d, p) := p.takeDescriptor
    if 0 < d.length then
      let (_, p) := p.locate d.origin.offset d.length
      (d.length, { v with length := v.length + d.length, remaining := v.remaining + d.size }, p)
    else (d.length, v, p)

/-- The byte at a position of the view's backing. -/
def byteAt (v : FieldView) (s : Store) (position : Int) : UInt8 :=
  match v.backing with
  | .blob => ByteStore.get s.blob position
  | .constants => ByteStore.get s.config.constants position

/-- The next `count` bytes, whether or not the field has them. -/
def bytes (v : FieldView) (s : Store) (count : Nat) : List UInt8 :=
  match v.backing with
  | .blob => ByteStore.getList s.blob v.position count
  | .constants => ByteStore.getList s.config.constants v.position count

/-- Moves the cursor. -/
def advance (v : FieldView) (count : Nat) : FieldView :=
  { v with position := (v.position + count) % wordSpan, remaining := v.remaining - count }

/-- Reads one byte, unless the field is at its end. -/
def next? (v : FieldView) (s : Store) : Option UInt8 × FieldView :=
  if v.remaining = 0 then (none, v) else (some (v.byteAt s v.position), v.advance 1)

/-- Reads at most `limit` bytes. -/
def read (v : FieldView) (s : Store) (limit : Nat) : List UInt8 × FieldView :=
  let count := min limit v.remaining
  (v.bytes s count, v.advance count)

/-- Reads at most `limit` bytes, unless the field is at its end. -/
def read? (v : FieldView) (s : Store) (limit : Nat) : Option (List UInt8) × FieldView :=
  if v.remaining = 0 then (none, v)
  else
    let (bytes, v) := v.read s limit
    (some bytes, v)

/-- Reads `count` bytes without regard to the end of the field. -/
def readFully (v : FieldView) (s : Store) (count : Nat) : List UInt8 × FieldView :=
  (v.bytes s count, v.advance count)

/-- Passes at most `count` bytes; the answer is how many. -/
def skip (v : FieldView) (count : Nat) : Nat × FieldView :=
  (min count v.remaining, v.advance (min count v.remaining))

/-- Reads a number of `width` bytes. -/
def takeNumber (v : FieldView) (s : Store) (width : Nat) : Except StreamError Nat × FieldView :=
  if v.remaining < width then (.error .unexpectedEnd, v)
  else (.ok (LittleEndian.decode (v.bytes s width)), v.advance width)

/-- Reads a number and says what it means. -/
def takeAs {α : Type} (v : FieldView) (s : Store) (width : Nat) (meaning : Nat → α) :
    Except StreamError α × FieldView :=
  let (n, v) := v.takeNumber s width
  (n.map meaning, v)

/-- Reads a truth value: any byte but zero is true. -/
def readBool (v : FieldView) (s : Store) : Except StreamError Bool × FieldView :=
  v.takeAs s 1 (· != 0)

/-- Reads an 8 bit number. -/
def readByte (v : FieldView) (s : Store) : Except StreamError Int8 × FieldView :=
  v.takeAs s 1 Int8.ofNat

/-- Reads an 8 bit natural. -/
def readUnsignedByte (v : FieldView) (s : Store) : Except StreamError UInt8 × FieldView :=
  v.takeAs s 1 UInt8.ofNat

/-- Reads a 16 bit number. -/
def readShort (v : FieldView) (s : Store) : Except StreamError Int16 × FieldView :=
  v.takeAs s 2 Int16.ofNat

/-- Reads a 16 bit natural, which may be a unit of text. -/
def readUnit (v : FieldView) (s : Store) : Except StreamError UInt16 × FieldView :=
  v.takeAs s 2 UInt16.ofNat

/-- Reads a 32 bit number. -/
def readInt (v : FieldView) (s : Store) : Except StreamError Int32 × FieldView :=
  v.takeAs s 4 Int32.ofNat

/-- Reads a 64 bit number. -/
def readLong (v : FieldView) (s : Store) : Except StreamError Int64 × FieldView :=
  v.takeAs s 8 Int64.ofNat

/-- Reads the bits of a binary32 number. -/
def readFloatBits (v : FieldView) (s : Store) : Except StreamError UInt32 × FieldView :=
  v.takeAs s 4 UInt32.ofNat

/-- Reads the bits of a binary64 number. -/
def readDoubleBits (v : FieldView) (s : Store) : Except StreamError UInt64 × FieldView :=
  v.takeAs s 8 UInt64.ofNat

/-- The units of a line: carriage returns are left out, and a line feed or the end of the field ends
it. -/
def lineUnits (v : FieldView) (s : Store) : List Nat × FieldView :=
  if v.remaining < 2 then ([], v)
  else
    let unit := LittleEndian.decode (v.bytes s 2)
    let after := v.advance 2
    if unit = 0x0A then ([], after)
    else
      let rest := lineUnits after s
      (if unit = 0x0D then rest.1 else unit :: rest.1, rest.2)
termination_by v.remaining
decreasing_by
  show v.remaining - 2 < v.remaining
  omega

/-- Reads a line. Each unit is a character of its own, so a surrogate is replaced. -/
def readLine (v : FieldView) (s : Store) : String × FieldView :=
  let (units, v) := v.lineUnits s
  (Utf8.toText units, v)

/-- Decodes at most the next `count` bytes as UTF-8: the values, what was reported, and the view. -/
def decodeText (v : FieldView) (s : Store) (count : Nat) : (List Nat × List Event) × FieldView :=
  let count := min count v.remaining
  let decoded :=
    match v.backing with
    | .blob => Utf8.decodeRun s.blob v.position count
    | .constants => Utf8.decodeRun s.config.constants v.position count
  (decoded, v.advance count)

/-- Reads a length in two bytes and decodes as many bytes. If the field has fewer, the length counts
as read. -/
def readText (v : FieldView) (s : Store) :
    Except StreamError (List Nat × List Event) × FieldView :=
  match v.takeNumber s 2 with
  | (.error e, v) => (.error e, v)
  | (.ok length, v) =>
    if v.remaining < length then (.error .unexpectedEnd, v)
    else
      let (decoded, v) := v.decodeText s length
      (.ok decoded, v)

/-- The 32 bit number `offset` bytes after the cursor. -/
def peekInt (v : FieldView) (s : Store) (offset : Nat) : Int32 :=
  Int32.ofNat (LittleEndian.decode (({ v with position := v.position + offset }).bytes s 4))

/-- Writes at most the next `limit` bytes as a field of a pipe; the answer is how many. A refused
field leaves the cursor where it is. -/
def copyInto (v : FieldView) (s : Store) (p : Pipe) (limit : Nat) :
    Except PipeError Nat × FieldView × Pipe :=
  let count := min limit v.remaining
  match p.putField count fun blob goal =>
      (count, ByteStore.putList blob goal (v.bytes s count)) with
  | (.error e, p) => (.error e, v, p)
  | (.ok _, p) => (.ok count, v.advance count, p)

/-- Writes at most the next `limit` bytes of a view of a pipe as a field of the same pipe. The bytes
are moved one by one, so a field that runs into the view's bytes repeats them. -/
def copyWithin (v : FieldView) (p : Pipe) (limit : Nat) :
    Except PipeError Nat × FieldView × Pipe :=
  match v.backing with
  | .constants => v.copyInto p.store p limit
  | .blob =>
    let count := min limit v.remaining
    match p.putField count fun blob goal => (count, ByteStore.shift blob v.position goal count) with
    | (.error e, p) => (.error e, v, p)
    | (.ok _, p) => (.ok count, v.advance count, p)

/-- The state of the view of a pipe in one line. -/
def render (v : FieldView) (pipe : Nat) : String :=
  let backing := match v.backing with
    | .blob => "Ring"
    | .constants => "Constants"
  "BlobReader \x7b " ++ s!"pipe: {pipe}, backing: {backing}, position: {v.position}, " ++
    s!"length: {v.length}, remaining: {v.remaining}" ++ " \x7d"

end FieldView

end FragmentPipe
