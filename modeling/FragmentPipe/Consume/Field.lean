import FragmentPipe.Consume.Content
import FragmentPipe.Text.LowByte
import FragmentPipe.Text.Utf8

/-!
Reading variable length fields, from the blob or from the constants. Reading a field of the blob
moves the reader's blob position by its length; looking at a field does not.
-/

namespace FragmentPipe

/-- An outside sink: how many bytes it takes in all, without a number any, and what it got. -/
structure Sink where
  capacity : Option Nat
  received : List UInt8
  deriving Repr

namespace Sink

/-- How many more bytes the sink takes. -/
def takes (s : Sink) (count : Nat) : Nat :=
  match s.capacity with
  | none => count
  | some capacity => min count (capacity - s.received.length)

/-- Hands bytes to the sink, which fails when it does not take them all. -/
def write (s : Sink) (bytes : List UInt8) : Except StreamFault Unit × Sink :=
  let count := s.takes bytes.length
  let after := { s with received := s.received ++ bytes.take count }
  if count < bytes.length then (.error .sinkFull, after) else (.ok (), after)

end Sink

namespace Pipe

/-- The place of an offset behind the base of the fragment, as a signed 32 bit number. -/
def restorePosition (p : Pipe) (offset : Int) : Int := (offset + p.consumer.readBase).bmod 0x100000000

/-- The place of a field in the blob; the reader's blob position moves behind a present field. -/
def locate (p : Pipe) (offset length : Int) : Int × Pipe :=
  let position := p.restorePosition offset
  if 0 ≤ length then
    (position,
      { p with consumer.blobTail := (length + p.consumer.blobTail) % p.store.blob.size })
  else (position, p)

/-- The bytes of the constants from an offset on, as far as there are any. -/
def constantBytes (p : Pipe) (offset length : Int) : Buffer :=
  let start := offset.toNat
  p.store.config.constants.extract start (start + length.toNat)

/-- The bytes of a field: those of the blob, or those of the constants as far as there are any. -/
def fieldBytes (p : Pipe) (d : Descriptor) : List UInt8 :=
  match d.origin with
  | .blob offset => ByteStore.getList p.store.blob (p.restorePosition offset) d.size
  | .constants offset => (p.constantBytes offset d.length).toList

/-- Passes a field: only one of the blob moves the blob position. -/
def passField (p : Pipe) (d : Descriptor) : Pipe :=
  match d.origin with
  | .blob offset => (p.locate offset d.length).2
  | .constants _ => p

/-- Reads the bytes of a field; the number is the one that the descriptor tells. -/
def readBytes (p : Pipe) (d : Descriptor) : (Nat × List UInt8) × Pipe :=
  if d.length ≤ 0 then ((0, []), p) else ((d.size, p.fieldBytes d), p.passField d)

/-- Reads the bytes of a field as one character each. -/
def readLowBytes (p : Pipe) (d : Descriptor) : (Nat × String) × Pipe :=
  let ((count, bytes), p) := p.readBytes d
  ((count, String.ofList (LowByte.decode bytes)), p)

/-- What a decoder makes of a field: its values, and what it reports. -/
def decodeField (p : Pipe) (d : Descriptor) : List Nat × List Event :=
  match d.origin with
  | .blob offset => Utf8.decodeRun p.store.blob (p.restorePosition offset % wordSpan) d.size
  | .constants offset => Utf8.decodeRun (p.constantBytes offset d.length) 0 d.size

/-- Reads a field as UTF-8. -/
def readUtf8 (p : Pipe) (d : Descriptor) : (Nat × String) × Pipe :=
  if d.length ≤ 0 then ((0, ""), p)
  else
    let decoded := p.decodeField d
    let p := p.passField d
    ((d.size, Utf8.toText decoded.1), { p with store := p.store.reportAll decoded.2 })

/-- Reads a field unless it is absent. -/
def readPresent {α : Type} (read : Pipe → Descriptor → (Nat × α) × Pipe) (p : Pipe)
    (d : Descriptor) : Option α × Pipe :=
  if d.length < 0 then (none, p)
  else
    let ((_, value), p) := read p d
    (some value, p)

/-- Whether a field holds the low bytes of a text. Of a field that reaches beyond the constants only
the bytes that exist are compared. -/
def fieldEqualsText (p : Pipe) (d : Descriptor) (text : String) : Bool :=
  let expected := LowByte.encode text.toList
  if d.length < 0 ∨ expected.length ≠ d.size then false
  else
    match d.origin with
    | .blob _ => p.fieldBytes d == expected
    | .constants _ => (p.fieldBytes d).isPrefixOf expected

/-- Whether a field holds exactly these bytes. -/
def fieldEqualsBytes (p : Pipe) (d : Descriptor) (bytes : List UInt8) : Bool :=
  if d.length < 0 ∨ bytes.length ≠ d.size then false else p.fieldBytes d == bytes

/-- Reads the next field into a sink; the answer is the length that the descriptor tells. The field
counts as read even where the sink fails. -/
def writeFieldTo (p : Pipe) (sink : Sink) : Except PipeError Int × Sink × Pipe :=
  let (d, p) := p.takeDescriptor
  if d.length ≤ 0 then (.ok d.length, sink, p)
  else
    let bytes := p.fieldBytes d
    let p := p.passField d
    match sink.write bytes with
    | (.ok _, sink) => (.ok d.length, sink, p)
    | (.error fault, sink) => (.error (.stream fault), sink, p)

end Pipe

end FragmentPipe
