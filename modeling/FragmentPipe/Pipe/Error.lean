/-!
What can go wrong with a pipe. An error is a constructor that carries the facts of the failure; its
stable code, its wording and its severity are functions on it. Main statement:
`PipeError.isTerminal_of_shutsDownPipe`, an error that stops a pipe also ends the call.
-/

namespace FragmentPipe

/-- Why a schema, a configuration or a call parameter is refused. -/
inductive ConfigFault where
  /-- A schema without any fragment. -/
  | noFragments (schema : String)
  /-- A schema none of whose fragments starts a message. -/
  | noMessages
  /-- A ring width beyond the supported maximum. -/
  | bitsTooLarge (slabBits blobBits maximum : Nat)
  /-- A configured batch size that the rings can not hold. -/
  | batchTooLarge (side : String) (size maximum slabBits blobBits : Nat)
  /-- More decimal places than a 64 bit mantissa supports. -/
  | tooManyPlaces (places maximum : Nat)
  /-- A reference that leaves the constants buffer. -/
  | constantOutside (offset stop : Int) (available : Nat)
  /-- A second rate regulator for one side of a pipe. -/
  | secondRegulator (side : String)
  /-- A reason given in words. -/
  | stated (reason : String)
  deriving DecidableEq, Repr

/-- The wording of a refusal. -/
def ConfigFault.reason : ConfigFault → String
  | .noFragments schema => s!"schema `{schema}` declares no fragments"
  | .noMessages => "schema must declare at least one message"
  | .bitsTooLarge slabBits blobBits maximum =>
    s!"slab bits {slabBits} / blob bits {blobBits} exceed the maximum of {maximum}"
  | .batchTooLarge side size maximum slabBits blobBits =>
    s!"{side} batch size {size} exceeds the maximum {maximum} for slab bits {slabBits} / blob bits {blobBits}"
  | .tooManyPlaces places maximum => s!"decimal places {places} exceed the maximum of {maximum}"
  | .constantOutside offset stop available =>
    s!"constant reference [{offset}, {stop}) is outside the {available} byte constants buffer"
  | .secondRegulator side => s!"{side} regulator must only be set once"
  | .stated reason => reason

/-- Why an outside byte stream failed while a field was moved through it. -/
inductive StreamFault where
  /-- The stream ended before the field was complete. -/
  | unexpectedEnd
  /-- The sink took no more bytes. -/
  | sinkFull
  /-- The stream reported a failure of its own. -/
  | reported (message : String)
  deriving DecidableEq, Repr

/-- The wording of a stream failure. -/
def StreamFault.reason : StreamFault → String
  | .unexpectedEnd => "unexpected end of file"
  | .sinkFull => "failed to write whole buffer"
  | .reported message => message

/-- The errors of pipes, writers and readers. -/
inductive PipeError where
  /-- A waiting call found the pipe shut down. -/
  | shutdown (pipe : Nat) (cause : String)
  /-- A waiting call found its cancellation token set. -/
  | interrupted (pipe : Nat)
  /-- A variable length field would lift the moving average over its limit. -/
  | varLengthExceeded (length average limit : Int) (slabBits blobBits bitsDif : Nat)
  /-- A batch size that the rings can not hold. -/
  | batchSizeTooLarge (requested maximum : Nat)
  /-- A second streamed field while one is open. -/
  | blobWriteAlreadyOpen
  /-- A streamed field closed without being open. -/
  | blobWriteNotOpen
  /-- A fragment that does not fit the free cells. -/
  | insufficientRoom (required : Nat) (available : Int)
  /-- A message number that starts no message of the schema. -/
  | unknownMessage (message : Int) (schema : String)
  /-- A value beyond the longest UTF-8 form. -/
  | unencodableChar (value : Nat)
  /-- A call that needs the rings before they exist. -/
  | notInitialized (pipe : Nat)
  /-- A call that is only allowed before the pipe is split. -/
  | alreadySplit (pipe : Nat)
  /-- The rings could not be allocated. -/
  | allocationFailed (slabSize blobSize : Nat)
  /-- A refused schema, configuration or parameter. -/
  | invalidConfig (fault : ConfigFault)
  /-- A failed outside stream. -/
  | stream (fault : StreamFault)
  deriving DecidableEq, Repr

namespace PipeError

/-- The stable machine readable code, in the name space `pipe.`. -/
def code : PipeError → String
  | shutdown .. => "pipe.shutdown"
  | interrupted .. => "pipe.interrupted"
  | varLengthExceeded .. => "pipe.var_length_exceeded"
  | batchSizeTooLarge .. => "pipe.batch_size_too_large"
  | blobWriteAlreadyOpen => "pipe.blob_write_already_open"
  | blobWriteNotOpen => "pipe.blob_write_not_open"
  | insufficientRoom .. => "pipe.insufficient_room"
  | unknownMessage .. => "pipe.unknown_message"
  | unencodableChar .. => "pipe.unencodable_char"
  | notInitialized .. => "pipe.not_initialized"
  | alreadySplit .. => "pipe.already_split"
  | allocationFailed .. => "pipe.allocation_failed"
  | invalidConfig .. => "pipe.invalid_config"
  | stream .. => "pipe.io"

/-- A number in lower case hexadecimal digits, after `0x`. -/
def hexText (n : Nat) : String := "0x" ++ String.ofList (Nat.toDigits 16 n)

/-- The wording of an error. -/
def message : PipeError → String
  | shutdown pipe cause => s!"pipe {pipe} is shut down: {cause}"
  | interrupted pipe => s!"pipe {pipe} spin-wait interrupted by cancellation"
  | varLengthExceeded length average limit slabBits blobBits bitsDif =>
    s!"can not write variable field of length {length}: moving average {average} exceeds limit {limit}; " ++
      s!"slab/blob bits {slabBits}/{blobBits}, keep their difference at least {bitsDif}"
  | batchSizeTooLarge requested maximum =>
    s!"batch size {requested} exceeds the maximum {maximum} for this pipe"
  | blobWriteAlreadyOpen => "only one open write against the blob at a time"
  | blobWriteNotOpen => "no open blob write to close"
  | insufficientRoom required available =>
    s!"insufficient room: need {required} slab slots, {available} free"
  | unknownMessage message schema =>
    s!"message index {message} is not a message start in schema `{schema}`"
  | unencodableChar value => "can not encode char with value " ++ hexText value
  | notInitialized pipe => s!"pipe {pipe} buffers are not initialized"
  | alreadySplit pipe => s!"pipe {pipe} has already been split into writer and reader"
  | allocationFailed slabSize blobSize =>
    s!"failed to allocate slab of {slabSize} cells and blob of {blobSize} bytes"
  | invalidConfig fault => "invalid pipe configuration: " ++ fault.reason
  | stream fault => "field stream I/O failed: " ++ fault.reason

/-- Whether the side that met the error can not go on. -/
def isTerminal : PipeError → Bool
  | shutdown .. | interrupted .. | varLengthExceeded .. | blobWriteAlreadyOpen | blobWriteNotOpen
  | insufficientRoom .. | allocationFailed .. => true
  | batchSizeTooLarge .. | unknownMessage .. | unencodableChar .. | notInitialized ..
  | alreadySplit .. | invalidConfig .. | stream .. => false

/-- Whether the pipe itself has stopped when the error is returned. A cancellation only interrupts
the waiting call, so it is terminal but leaves the pipe usable. -/
def shutsDownPipe : PipeError → Bool
  | interrupted .. => false
  | e => e.isTerminal

theorem isTerminal_of_shutsDownPipe {e : PipeError} (h : e.shutsDownPipe = true) :
    e.isTerminal = true := by
  cases e <;> simp_all [shutsDownPipe, isTerminal]

end PipeError

end FragmentPipe
