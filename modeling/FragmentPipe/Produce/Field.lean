import FragmentPipe.Produce.Scalar
import FragmentPipe.Text.Decimal
import FragmentPipe.Text.LowByte
import FragmentPipe.Text.Utf8

/-!
Writing variable length fields. The length is checked against the moving average first; a refused
field shuts the pipe down and stores nothing. Then the bytes go to the blob, and the slab receives
where they begin and how many they are.
-/

namespace FragmentPipe.Pipe

/-- The largest signed 32 bit number. -/
def maxInt : Int := 0x7FFFFFFF

/-- The nearest signed 32 bit number. -/
def clampInt (n : Int) : Int := max (-0x80000000) (min n maxInt)

/-- The length of a field of `size` bytes, as far as a descriptor can tell it. -/
def fieldLength (size : Nat) : Int := min (size : Int) maxInt

/-- The moving average after a field of that length. -/
def nextAverage (p : Pipe) (length : Int) : Int := clampInt (length + p.producer.average) / 2

/-- The distance of the ring widths that a field of that length asks for. -/
def suggestedBits (p : Pipe) (length : Int) : Nat :=
  ceilLog2 (min (p.schema.densityTimes length.toNat) 0x100000000)

/-- Refuses a variable length field. -/
def refuseField (p : Pipe) (length : Int) : PipeError × Pipe :=
  let average := p.nextAverage length
  let limit : Int := p.store.config.maxAverage
  let slabBits := p.store.config.slabBits
  let blobBits := p.store.config.blobBits
  let bitsDif := p.suggestedBits length
  let p := p.report
    (.varLengthRefused p.store.id length average limit slabBits blobBits bitsDif)
  let p := (p.shutdown s!"variable length field of {length} bytes exceeds limit {limit}").2
  (.varLengthExceeded length average limit slabBits blobBits bitsDif, p)

/-- Takes a length into the moving average, which may reach its limit but not exceed it. -/
def checkLength (p : Pipe) (length : Int) : Except PipeError Unit × Pipe :=
  if p.store.config.maxAverage < p.nextAverage length then
    let refused := p.refuseField length
    (.error refused.1, refused.2)
  else (.ok (), { p with producer.average := p.nextAverage length })

/-- Writes a descriptor. -/
def putDescriptor (p : Pipe) (d : Descriptor) : Pipe :=
  (p.putInt d.origin.toCell).putInt (Int32.ofInt d.length)

/-- The origin of a byte of the blob, seen from the base of the fragment. -/
def originOf (p : Pipe) (position : Int) : Origin :=
  .blob ((position - p.producer.writeBase) % blobSpan)

/-- Commits the bytes stored from the blob head on as a field. -/
def commitField (p : Pipe) (length : Int) : Pipe :=
  let position := p.producer.blobHead
  let p := p.putDescriptor ⟨p.originOf position, length⟩
  { p with producer.blobHead := (position + length) % blobSpan }

/-- Checks a length, then lets `fill` store bytes from the blob head on and commits as many as it
says. -/
def putField (p : Pipe) (checked : Int) (fill : Ring UInt8 → Int → Int × Ring UInt8) :
    Except PipeError Unit × Pipe :=
  match p.checkLength checked with
  | (.error e, p) => (.error e, p)
  | (.ok _, p) =>
    let filled := fill p.store.blob p.producer.blobHead
    (.ok (), { p with store.blob := filled.2 }.commitField filled.1)

/-- Writes a field of bytes. -/
def putBytes (p : Pipe) (bytes : List UInt8) : Except PipeError Unit × Pipe :=
  let length := fieldLength bytes.length
  p.putField length fun blob position => (length, ByteStore.putList blob position bytes)

/-- Writes an absent field. -/
def putNull (p : Pipe) : Pipe := p.putDescriptor ⟨p.originOf p.producer.blobHead, -1⟩

/-- Stores one piece after the other until the source is empty: the blob, and what the source has
left. -/
def storePieces (blob : Ring UInt8) (position : Int) :
    List (List UInt8) → Ring UInt8 × List (List UInt8)
  | [] => (blob, [])
  | piece :: rest =>
    storePieces (ByteStore.putList blob position piece) (position + piece.length) rest

/-- Writes what a source delivers in pieces; no source and an empty one give an absent field. The
second answer is what the source has left. -/
def putPieces (p : Pipe) (source : Option (List (List UInt8))) :
    Except PipeError Unit × List (List UInt8) × Pipe :=
  let pieces := source.getD []
  let total := pieces.flatten.length
  if total = 0 then (.ok (), pieces, p.putNull)
  else
    match p.checkLength (fieldLength total) with
    | (.error e, p) => (.error e, pieces, p)
    | (.ok _, p) =>
      let (blob, rest) := storePieces p.store.blob p.producer.blobHead pieces
      (.ok (), rest, { p with store.blob := blob }.commitField (fieldLength total))

/-- Writes the low bytes of the characters. -/
def putLowBytes (p : Pipe) (text : Option String) : Except PipeError Unit × Pipe :=
  match text with
  | none => (.ok (), p.putNull)
  | some text => p.putBytes (LowByte.encode text.toList)

/-- Writes a text in UTF-8. -/
def putUtf8 (p : Pipe) (text : Option String) : Except PipeError Unit × Pipe :=
  match text with
  | none => (.ok (), p.putNull)
  | some text => p.putBytes (Utf8.encodeText text)

/-- The bytes kept free for the digits of a 32 bit number. -/
def intTextSpan : Int := 12

/-- The bytes kept free for the digits of a 64 bit number. -/
def longTextSpan : Int := 21

/-- Writes a 32 bit number in decimal digits. -/
def putIntText (p : Pipe) (value : Int32) : Except PipeError Unit × Pipe :=
  p.putField intTextSpan fun blob position =>
    let written := Decimal.put blob value.toInt 0 (position + intTextSpan) position
    (written.1, written.2)

/-- Writes a 64 bit number in decimal digits. -/
def putLongText (p : Pipe) (value : Int64) : Except PipeError Unit × Pipe :=
  p.putField longTextSpan fun blob position =>
    let written := Decimal.put blob value.toInt 0 (position + longTextSpan) position
    (written.1, written.2)

/-- The most decimal places, so that their power of ten is a 64 bit number. -/
def maxPlaces : Nat := 18

/-- The number that a mantissa with so many places is divided by. -/
def placesDivisor (places : Nat) : Int := Nat.pow 10 places

/-- Whether a fixed point number needs a sign that its whole part does not carry. -/
def needsBareSign (places : Nat) (mantissa : Int) : Bool :=
  decide (mantissa < 0 ∧ mantissa.tdiv (placesDivisor places) = 0)

/-- The length of a fixed point text. -/
def decimalTextLength (places : Nat) (mantissa : Int) : Nat :=
  let whole := mantissa.tdiv (placesDivisor places)
  (if needsBareSign places mantissa then 1 else 0) +
    (Decimal.digitCount whole.natAbs + if whole < 0 then 1 else 0) +
    (if 0 < places then 1 + places else 0)

/-- Stores a fixed point number at a position: a sign where the whole part has none, the whole part,
and with places a point and as many digits; the answer is the position after it. -/
def fillDecimalText (places : Nat) (mantissa : Int) (blob : Ring UInt8) (position : Int) :
    Int × Ring UInt8 :=
  let divisor := placesDivisor places
  let (position, blob) :=
    if needsBareSign places mantissa then (position + 1, ByteStore.put blob position Decimal.minus)
    else (position, blob)
  let whole := Decimal.put blob (mantissa.tdiv divisor) 0 (position + longTextSpan) position
  let position := position + whole.1
  if 0 < places then
    let blob := ByteStore.put whole.2 position Decimal.point
    let position := position + 1
    let fraction : Int := (mantissa.tmod divisor).natAbs
    let part := Decimal.put blob fraction places (position + longTextSpan) position
    (position + part.1, part.2)
  else (position, whole.2)

/-- Writes the number `mantissa / 10 ^ places` in decimal digits, all its places included. -/
def putDecimalText (p : Pipe) (places : Nat) (mantissa : Int64) : Except PipeError Unit × Pipe :=
  if maxPlaces < places then (.error (.invalidConfig (.tooManyPlaces places maxPlaces)), p)
  else
    p.putField (decimalTextLength places mantissa.toInt) fun blob position =>
      let filled := fillDecimalText places mantissa.toInt blob position
      (filled.1 - position, filled.2)

/-- Writes a field whose bytes lie in the constants; the blob is not used. -/
def putConstant (p : Pipe) (offset length : Int) : Except PipeError Unit × Pipe :=
  let available := p.store.config.constants.size
  let stop := offset + max length 0
  if offset < 0 ∨ (available : Int) < stop then
    (.error (.invalidConfig (.constantOutside offset stop available)), p)
  else (.ok (), p.putDescriptor ⟨.constants offset, length⟩)

/-- What an outside stream does at one request. -/
inductive Delivery where
  /-- It delivers these bytes, over several requests if need be. -/
  | data (bytes : List UInt8)
  /-- It asks to be called again. -/
  | interrupted
  /-- It fails. -/
  | failure (message : String)
  deriving DecidableEq, Repr

/-- Takes exactly `count` bytes from a stream: the bytes that came, the failure that ended it, and
what the stream has left. -/
def takeFrom (source : List Delivery) (count : Nat) :
    List UInt8 × Option StreamFault × List Delivery :=
  if count = 0 then ([], none, source)
  else
    match source with
    | [] => ([], some .unexpectedEnd, [])
    | .interrupted :: rest => takeFrom rest count
    | .failure message :: rest => ([], some (.reported message), rest)
    | .data bytes :: rest =>
      if count < bytes.length then (bytes.take count, none, .data (bytes.drop count) :: rest)
      else
        let more := takeFrom rest (count - bytes.length)
        (bytes ++ more.1, more.2)

/-- Writes a field of `count` bytes from a stream; the second answer is what the stream has left.
The bytes that came before a failure stay behind the blob head. -/
def putFromStream (p : Pipe) (source : List Delivery) (count : Nat) :
    Except PipeError Unit × List Delivery × Pipe :=
  match p.checkLength (fieldLength count) with
  | (.error e, p) => (.error e, source, p)
  | (.ok _, p) =>
    let (bytes, fault, rest) := takeFrom source count
    let p := { p with store.blob := ByteStore.putList p.store.blob p.producer.blobHead bytes }
    match fault with
    | some fault => (.error (.stream fault), rest, p)
    | none => (.ok (), rest, p.commitField (fieldLength count))

/-- Opens a streamed field. A second one shuts the pipe down. -/
def openField (p : Pipe) : Except PipeError Unit × Pipe :=
  if p.producer.fieldOpen then
    (.error .blobWriteAlreadyOpen, (p.shutdown "blob field write opened twice").2)
  else (.ok (), { p with producer.fieldOpen := true })

/-- Closes the streamed field. Without an open one the pipe is shut down. -/
def closeField (p : Pipe) : Except PipeError Unit × Pipe :=
  if p.producer.fieldOpen then (.ok (), { p with producer.fieldOpen := false })
  else
    (.error .blobWriteNotOpen, (p.shutdown "blob field write closed without being opened").2)

/-- The bytes written and not yet released. -/
def bytesOfContent (p : Pipe) : Int := p.store.bytesUpTo p.producer.blobHead

theorem bytesOfContent_eq (p : Pipe) :
    p.bytesOfContent = (p.producer.blobHead - p.store.blobTail) % p.store.blob.size :=
  p.store.bytesUpTo_eq p.producer.blobHead

theorem bytesOfContent_bounds (p : Pipe) :
    0 ≤ p.bytesOfContent ∧ p.bytesOfContent < p.store.blob.size := by
  have positive : (0 : Int) < p.store.blob.size := Int.natCast_pos.mpr p.store.blob.size_pos
  rw [bytesOfContent_eq]
  exact ⟨Int.emod_nonneg _ (Int.ne_of_gt positive), Int.emod_lt_of_pos _ positive⟩

end FragmentPipe.Pipe
