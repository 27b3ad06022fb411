import FragmentPipe.Pipe.State

/-!
Starting a fragment. A writer first makes sure of free cells, then writes the number of the message.
A message that would reach into unreleased cells is refused, and the pipe is shut down.
-/

namespace FragmentPipe.Pipe

/-- Whether `size` cells are free after what is confirmed as written. -/
def hasRoom (p : Pipe) (size : Int) : Bool × Pipe :=
  let check := p.producer.room.hasRoom size p.store.slabTail
  (check.answer, { p with producer.room := check.cache })

/-- Waits for `size` free cells. -/
def awaitRoom (p : Pipe) (size : Int) : Wait Unit × Pipe :=
  let (free, p) := p.hasRoom size
  if free then (.done (), p)
  else
    match p.store.interruption with
    | some e => (.failed e, p)
    | none => (.blocked, p)

/-- The size of the fragment of a number that starts a message. -/
def messageSize (p : Pipe) (message : Int32) : Except PipeError Nat :=
  let refused := PipeError.unknownMessage message.toInt p.schema.name
  if p.schema.startsMessage message then
    match p.schema.fragmentSize? message with
    | some size => .ok size
    | none => .error refused
  else .error refused

/-- Refuses a fragment for which there is no room. -/
def refuseFragment (p : Pipe) (size : Nat) : Except PipeError Nat × Pipe :=
  let available := p.producer.room.tailSeen + p.store.slab.size - p.producer.slabHead
  let p := p.report (.unreservedFragment p.store.id size available)
  let p := (p.shutdown "fragment started without reserved room").2
  (.error (.insufficientRoom size available), p)

/-- Writes the number of a message; the bytes of its fields begin here. -/
def putMessageNumber (p : Pipe) (message : Int32) : Pipe :=
  { p with
    store.slab := p.store.slab.set p.producer.slabHead message
    producer.slabHead := p.producer.slabHead + 1
    producer.writeBase := p.producer.blobHead
    producer.lastMessage := message }

/-- Starts a message; the answer is the size of its fragment. -/
def startMessage (p : Pipe) (message : Int32) : Except PipeError Nat × Pipe :=
  match p.messageSize message with
  | .error e => (.error e, p)
  | .ok size =>
    let target := p.producer.slabHead + size - p.store.slab.size
    let check := p.producer.room.tailReaches target p.store.slabTail
    let p := { p with producer.room := check.cache }
    if check.answer then (.ok size, p.putMessageNumber message) else p.refuseFragment size

/-- Waits for room and starts a message. -/
def awaitMessage (p : Pipe) (message : Int32) : Wait Nat × Pipe :=
  match p.messageSize message with
  | .error e => (.failed e, p)
  | .ok size =>
    match p.awaitRoom size with
    | (.blocked, p) => (.blocked, p)
    | (.failed e, p) => (.failed e, p)
    | (.done _, p) =>
      match p.startMessage message with
      | (.ok size, p) => (.done size, p)
      | (.error e, p) => (.failed e, p)

/-- Starts a message if there is room for it. -/
def tryMessage (p : Pipe) (message : Int32) : Except PipeError (Option Nat) × Pipe :=
  match p.messageSize message with
  | .error e => (.error e, p)
  | .ok size =>
    let (free, p) := p.hasRoom size
    if free then
      match p.startMessage message with
      | (.ok size, p) => (.ok (some size), p)
      | (.error e, p) => (.error e, p)
    else (.ok none, p)

/-- Accounts for `size` cells as written. -/
def confirmWrite (p : Pipe) (size : Int) : Pipe :=
  { p with producer.room := p.producer.room.confirm size }

end FragmentPipe.Pipe
