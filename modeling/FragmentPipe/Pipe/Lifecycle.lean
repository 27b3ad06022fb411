import FragmentPipe.Pipe.State

/-!
The life of a pipe. A registry numbers pipes. A pipe is created without rings, gets its rings once,
may then be moved to any position, and is finally split into its writing and its reading side, after
which it can only be observed, cancelled and shut down.
-/

namespace FragmentPipe

/-- How far a pipe has come. -/
inductive Stage where
  /-- Without rings; only its cancellation flag exists. -/
  | created (cancelled : Bool)
  /-- With rings. -/
  | ready (store : Store)
  /-- In use. -/
  | split (pipe : Pipe)

/-- A pipe of a registry. -/
structure Handle where
  id : Nat
  config : Config
  stage : Stage

namespace Handle

/-- The rings and positions, once they exist. -/
def store? (h : Handle) : Option Store :=
  match h.stage with
  | .created _ => none
  | .ready s => some s
  | .split p => some p.store

/-- The pipe in use, once it is split. -/
def pipe? (h : Handle) : Option Pipe :=
  match h.stage with
  | .split p => some p
  | .created _ | .ready _ => none

/-- Changes the store, where there is one. -/
def mapStore (h : Handle) (f : Store → Store) : Handle :=
  match h.stage with
  | .created _ => h
  | .ready s => { h with stage := .ready (f s) }
  | .split p => { h with stage := .split { p with store := f p.store } }

/-- Puts back the pipe in use. -/
def withPipe (h : Handle) (p : Pipe) : Handle := { h with stage := .split p }

/-- Whether the rings exist. -/
def isReady (h : Handle) : Bool := h.store?.isSome

/-- Whether the pipe is split. -/
def isSplit (h : Handle) : Bool := h.pipe?.isSome

/-- The size of the fragment of a number. -/
def fragmentSize? (h : Handle) (message : Int32) : Option Nat :=
  h.config.schema.fragmentSize? message

/-- Makes the rings. Rings that exist are kept, which is reported. -/
def makeRings (h : Handle) : Handle :=
  match h.stage with
  | .created cancelled => { h with stage := .ready (.empty h.id h.config cancelled) }
  | .ready _ | .split _ => h.mapStore (·.report (.alreadyInitialized h.id))

/-- Changes the store of a pipe that has rings and is not split. -/
def prepare (h : Handle) (f : Store → Stage) : Except PipeError Unit × Handle :=
  match h.stage with
  | .created _ => (.error (.notInitialized h.id), h)
  | .ready s => (.ok (), { h with stage := f s })
  | .split _ => (.error (.alreadySplit h.id), h)

/-- Empties the rings and moves every position to zero. -/
def reset (h : Handle) : Except PipeError Unit × Handle :=
  h.prepare fun s => .ready (s.clear.moveTo 0 0)

/-- Moves every position; the rings keep their content. -/
def resetTo (h : Handle) (slab blob : Int) : Except PipeError Unit × Handle :=
  h.prepare fun s => .ready (s.moveTo slab (blob % blobSpan))

/-- Splits the pipe into its two sides. -/
def split (h : Handle) : Except PipeError Unit × Handle := h.prepare fun s => .split (.start s)

/-- Shuts the pipe down if it has rings; the answer tells whether this was the first request. -/
def shutdown (h : Handle) (cause : String) : Bool × Handle :=
  match h.store? with
  | none => (false, h)
  | some s => ((s.shutdown cause).1, h.mapStore fun s => (s.shutdown cause).2)

/-- Whether the pipe is shut down. -/
def isShutdown (h : Handle) : Bool := h.store?.any Store.isShutdown

/-- Whether the pipe's waiting calls are cancelled. -/
def isCancelled (h : Handle) : Bool :=
  match h.stage with
  | .created cancelled => cancelled
  | .ready s => s.cancelled
  | .split p => p.store.cancelled

/-- Cancels the pipe's waiting calls; the answer tells whether this was the first time. -/
def cancel (h : Handle) : Bool × Handle :=
  match h.stage with
  | .created cancelled => (!cancelled, { h with stage := .created true })
  | .ready _ | .split _ => (!h.isCancelled, h.mapStore fun s => s.cancel.2)

/-- Looks at the store, which must exist. -/
def observe {α : Type} (h : Handle) (look : Store → α) : Except PipeError α :=
  match h.store? with
  | none => .error (.notInitialized h.id)
  | some s => .ok (look s)

/-- The bytes that are not yet released, up to where the writing side was noted last. -/
def bytesOfContent (h : Handle) : Except PipeError Int :=
  h.observe fun s => s.bytesUpTo s.noted.blobHead

end Handle

/-- Numbers the pipes that are created. -/
structure Registry where
  created : Nat
  deriving DecidableEq, Repr

namespace Registry

/-- A registry without pipes. -/
def empty : Registry := ⟨0⟩

/-- Creates a pipe without rings, if its batch sizes are allowed. -/
def create (r : Registry) (config : Config) : Except PipeError Handle × Registry :=
  match config.validate with
  | .error e => (.error e, r)
  | .ok _ => (.ok ⟨r.created, config, .created false⟩, ⟨r.created + 1⟩)

end Registry

end FragmentPipe
