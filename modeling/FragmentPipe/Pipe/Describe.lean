import FragmentPipe.Pipe.Lifecycle
import FragmentPipe.Text.Quoted

/-!
One-line texts that show where a pipe and its sides stand.
-/

namespace FragmentPipe

/-- Every position of a pipe, and where it ended. -/
def Store.describe (s : Store) : String :=
  let name := s.config.schema.name
  let used := s.contentRemaining
  s!"RingId<{name}>:{s.id} slabTailPos {s.slabTail} slabWrkTailPos {s.noted.slabTail} " ++
    s!"slabHeadPos {s.slabHead} slabWrkHeadPos {s.noted.slabHead}  {used}/{s.slab.size}  " ++
    s!"blobTailPos {s.blobTail} blobWrkTailPos {s.noted.blobTail} " ++
    s!"blobHeadPos {s.blobHead} blobWrkHeadPos {s.noted.blobHead}" ++
    (if s.isEnd s.slabTail then s!" Ended at {s.endPosition}" else "")

/-- Every position of a pipe, or that it has no rings yet. -/
def Handle.describe (h : Handle) : String :=
  match h.store? with
  | some s => s.describe
  | none => s!"RingId<{h.config.schema.name}>:{h.id} uninitialized"

/-- Fields between braces, after the name of what they belong to. -/
def record (name fields : String) : String := name ++ " \x7b " ++ fields ++ " \x7d"

/-- The stage of a pipe. -/
def Handle.render (h : Handle) : String :=
  record "Pipe" (s!"id: {h.id}, config: " ++ Quoted.encode h.config.render ++
    s!", init: {h.isReady}, split: {h.isSplit}")

/-- The number of pipes. -/
def Registry.render (r : Registry) : String := record "PipeRegistry" s!"total_pipes: {r.created}"

/-- Whether there is a regulator. -/
def Regulator.render (r : Option Regulator) : String :=
  record "RegulatorSlot" s!"installed: {r.isSome}"

/-- The private positions of the writing side. -/
def Pipe.renderProducer (p : Pipe) : String :=
  record "PipeWriter" (s!"pipe: {p.store.id}, working_head: {p.producer.slabHead}, " ++
    s!"blob_working_head: {p.producer.blobHead}, regulator: " ++
    Regulator.render p.producer.regulator)

/-- The private positions of the reading side. -/
def Pipe.renderConsumer (p : Pipe) : String :=
  record "PipeReader" (s!"pipe: {p.store.id}, working_tail: {p.consumer.slabTail}, " ++
    s!"blob_working_tail: {p.consumer.blobTail}, read_base: {p.consumer.readBase}, " ++
    s!"pending: {p.consumer.deferred.length}, regulator: " ++
    Regulator.render p.consumer.regulator)

end FragmentPipe
