/-!
What a pipe reports while it works. Events are collected in the order in which they happen; their
wording is `Event.render`.
-/

namespace FragmentPipe

/-- The weight of an event. -/
inductive Level where
  | error | warn | info | debug
  deriving DecidableEq, Repr

/-- The level in capitals. -/
def Level.name : Level → String
  | .error => "ERROR"
  | .warn => "WARN"
  | .info => "INFO"
  | .debug => "DEBUG"

/-- Everything a pipe or a decoder reports. -/
inductive Event where
  /-- The last continuation byte of a UTF-8 form is none. -/
  | brokenUtf8 (byte : UInt8) (position : Int)
  /-- The first request to shut a pipe down. -/
  | shutDown (pipe : Nat) (cause : String)
  /-- The rings were asked for a second time. -/
  | alreadyInitialized (pipe : Nat)
  /-- A fragment was started without free cells. -/
  | unreservedFragment (pipe required : Nat) (available : Int)
  /-- The end mark became visible. -/
  | endPublished (pipe : Nat) (position : Int)
  /-- A variable length field was refused. -/
  | varLengthRefused (pipe : Nat) (length average limit : Int) (slabBits blobBits bitsDif : Nat)
  /-- The writer publishes in another batch size. -/
  | publishBatchChanged (pipe : Nat) (size : Int)
  /-- The reader releases in another batch size. -/
  | releaseBatchChanged (pipe : Nat) (size : Int)
  /-- The reader went back to the first unreleased fragment. -/
  | replaying (pipe : Nat) (start stop : Int)
  deriving DecidableEq, Repr

namespace Event

/-- The level of an event. -/
def level : Event → Level
  | brokenUtf8 .. | unreservedFragment .. | varLengthRefused .. => .error
  | alreadyInitialized .. => .warn
  | shutDown .. => .info
  | endPublished .. | publishBatchChanged .. | releaseBatchChanged .. | replaying .. => .debug

/-- A byte as eight binary digits. -/
def binaryText (byte : UInt8) : String :=
  String.ofList ((List.range 8).map fun k => if byte.toNat.testBit (7 - k) then '1' else '0')

/-- The wording of an event and its fields. -/
def text : Event → String
  | brokenUtf8 byte position =>
    "invalid utf-8 encoding, low byte must have bits of 10xxxxxx; check for pipe corruption byte=" ++
      binaryText byte ++ s!" position={position}"
  | shutDown pipe cause => s!"pipe shut down pipe={pipe} cause={cause}"
  | alreadyInitialized pipe =>
    s!"init_buffers called more than once; existing buffers are kept pipe={pipe}"
  | unreservedFragment pipe required available =>
    s!"fragment started without reserved room pipe={pipe} required={required} available={available}"
  | endPublished pipe position => s!"published end of pipe pipe={pipe} eof_position={position}"
  | varLengthRefused pipe length average limit slabBits blobBits bitsDif =>
    s!"variable length field exceeds the moving average limit pipe={pipe} length={length} " ++
      s!"average={average} limit={limit} slab_bits={slabBits} blob_bits={blobBits} bits_dif={bitsDif}"
  | publishBatchChanged pipe size => s!"publish batch size changed pipe={pipe} size={size}"
  | releaseBatchChanged pipe size => s!"release batch size changed pipe={pipe} size={size}"
  | replaying pipe start stop => s!"replaying unreleased fragments pipe={pipe} from={start} to={stop}"

/-- One line of a log. -/
def render (e : Event) : String := e.level.name ++ " " ++ e.text

end Event

end FragmentPipe
