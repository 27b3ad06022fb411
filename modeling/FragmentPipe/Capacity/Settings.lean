import FragmentPipe.Capacity.Config
import FragmentPipe.Toml.Document

/-!
Settings for the capacity of a pipe, as a deployment writes them in TOML: how the rings are sized,
and the batch sizes. Keys that mean nothing here are passed over. What the settings mean is read off
the tables of a document, and how a text becomes such tables is a parameter (`ofTextBy`), so that
results about settings hold for every parser. `Toml.parse?` is the parser that programs put there.
Main statement: `validate_of_toConfig`, settings that are accepted allow their batch sizes.
-/

namespace FragmentPipe

/-- How the rings are sized. -/
inductive Sizing where
  /-- By their widths. -/
  | bits (slabBits blobBits : Nat)
  /-- By what they must hold. -/
  | capacity (minFragments maxVarLen : Nat)
  deriving DecidableEq, Repr

/-- The settings of a pipe. -/
structure Settings where
  sizing : Sizing
  publishBatch : Nat
  releaseBatch : Nat
  deriving DecidableEq, Repr

namespace Settings

open Toml

/-- A natural below a bound. -/
def natural? (bound : Nat) : Value → Option Nat
  | .integer n => if 0 ≤ n ∧ n < bound then some n.toNat else none
  | _ => none

/-- The sizing of a mode with its two numbers. Widths are bytes, capacities 64 bit numbers. -/
def sizingOf? (mode : Value) (first second : String → Option Value) : Option Sizing :=
  match mode with
  | .text "bits" => do
    some (.bits (← natural? 0x100 (← first "slab_bits")) (← natural? 0x100 (← second "blob_bits")))
  | .text "capacity" => do
    some (.capacity (← natural? 0x10000000000000000 (← first "min_fragments"))
      (← natural? 0x10000000000000000 (← second "max_var_len")))
  | _ => none

/-- The sizing in a table, or in an array of exactly a mode and two numbers. -/
def sizing? : Value → Option Sizing
  | .table _ entries | .inline _ entries =>
    let member (key : String) : Option Value := entries.lookup key
    (member "mode").bind fun mode => sizingOf? mode member member
  | .array [mode, first, second] => sizingOf? mode (fun _ => some first) (fun _ => some second)
  | _ => none

/-- A batch size, zero where there is none. -/
def batch? : Option Value → Option Nat
  | none => some 0
  | some v => natural? 0x100000000 v

/-- The batch sizes in a table or an array, of which either may lack. A date has neither. -/
def batching? : Value → Option (Nat × Nat)
  | .table _ entries | .inline _ entries => do
    some (← batch? (entries.lookup "publish"), ← batch? (entries.lookup "release"))
  | .array items => do some (← batch? items[0]?, ← batch? items[1]?)
  | .dateTime => some (0, 0)
  | _ => none

/-- The settings in the tables of a document. -/
def ofEntries? (entries : Entries) : Option Settings := do
  let sizing ← sizing? (← entries.lookup "sizing")
  let batches ← match entries.lookup "batching" with
    | none => some (0, 0)
    | some v => batching? v
  some ⟨sizing, batches.1, batches.2⟩

/-- The settings in a text, with a parser of documents. -/
def ofTextBy (parse? : String → Option Entries) (text : String) : Option Settings :=
  (parse? text).bind ofEntries?

/-- The settings in a TOML text. -/
def ofToml? : String → Option Settings := ofTextBy Toml.parse?

/-- The rings of a schema, as the sizing tells. -/
def sized (s : Settings) (schema : Schema) : Except PipeError Config :=
  match s.sizing with
  | .bits slabBits blobBits => Config.ofBits schema slabBits blobBits
  | .capacity minFragments maxVarLen => Config.forCapacity schema minFragments maxVarLen

/-- The configuration of a schema and its constants, which must allow the batch sizes. -/
def toConfig (s : Settings) (schema : Schema) (constants : Buffer) : Except PipeError Config := do
  let sized ← s.sized schema
  let config : Config :=
    { sized with
      constants := constants
      publishBatch := s.publishBatch
      releaseBatch := s.releaseBatch }
  config.validate
  return config

/-- Settings that are accepted allow their batch sizes, wherever they come from. -/
theorem validate_of_toConfig {s : Settings} {schema : Schema} {constants : Buffer} {config : Config}
    (accepted : s.toConfig schema constants = .ok config) : config.validate = .ok () := by
  unfold toConfig at accepted
  cases sized : s.sized schema with
  | error e =>
    rw [sized] at accepted
    cases accepted
  | ok rings =>
    rw [sized] at accepted
    change (Config.validate _).bind (fun _ => .ok _) = .ok config at accepted
    cases checked : Config.validate { rings with
        constants := constants, publishBatch := s.publishBatch, releaseBatch := s.releaseBatch } with
    | error e =>
      rw [checked] at accepted
      cases accepted
    | ok u =>
      rw [checked] at accepted
      obtain rfl := Except.ok.inj accepted
      exact checked

end Settings

end FragmentPipe
