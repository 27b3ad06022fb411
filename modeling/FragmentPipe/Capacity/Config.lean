import FragmentPipe.Layout.Schema
import FragmentPipe.Storage.Bytes

/-!
The fixed capacity of a pipe: the widths of its two rings, its schema, its constants and its batch
sizes. From these follow the limit for the moving average of variable length fields and the largest
batch. Main statements: `le_one_shiftLeft_ceilLog2`, the width found for a capacity suffices, and
`Config.slabSize_le` and `Config.blobSize_le`, no ring is wider than `maxBits`.
-/

namespace FragmentPipe

/-- The largest width of a ring. -/
def maxBits : Nat := 30

/-- The batches that the rings must hold for an explicit batch size. -/
def explicitBatches : Nat := 2

/-- The batches that the rings must hold for the largest batch size. -/
def maximumBatches : Nat := 3

/-- The least `b` with `n ≤ 1 <<< b`. -/
def ceilLog2 (n : Nat) : Nat := if n ≤ 1 then 0 else (n - 1).log2 + 1

theorem le_one_shiftLeft_ceilLog2 (n : Nat) : n ≤ 1 <<< ceilLog2 n := by
  unfold ceilLog2
  split
  · simpa
  · have := Nat.lt_log2_self (n := n - 1)
    omega

/-- The capacity of a pipe. -/
structure Config where
  schema : Schema
  slabBits : Nat
  blobBits : Nat
  constants : Buffer
  publishBatch : Nat
  releaseBatch : Nat
  slabBits_le : slabBits ≤ maxBits
  blobBits_le : blobBits ≤ maxBits

namespace Config

/-- A pipe with rings of the given widths, without constants and batches. -/
def ofBits (schema : Schema) (slabBits blobBits : Nat) : Except PipeError Config :=
  if h : slabBits ≤ maxBits ∧ blobBits ≤ maxBits then
    .ok ⟨schema, slabBits, blobBits, #[], 0, 0, h.1, h.2⟩
  else .error (.invalidConfig (.bitsTooLarge slabBits blobBits maxBits))

/-- The slab width for at least `minFragments` fragments of any kind. -/
def slabBitsFor (schema : Schema) (minFragments : Nat) : Nat :=
  ceilLog2 (max minFragments 1 * schema.maxFragmentSize)

/-- The blob width for fields of at most `maxVarLen` bytes in every place of the slab. The product
stops at the largest 64 bit number. -/
def blobBitsFor (schema : Schema) (slabBits maxVarLen : Nat) : Nat :=
  if maxVarLen = 0 ∨ schema.hasVarFields = false then 0
  else ceilLog2 (min (schema.varFieldsInSlab (min slabBits maxBits) * maxVarLen) 0xFFFFFFFFFFFFFFFF)

/-- A pipe that holds at least `minFragments` fragments with variable length fields of at most
`maxVarLen` bytes. -/
def forCapacity (schema : Schema) (minFragments maxVarLen : Nat) : Except PipeError Config :=
  let slabBits := slabBitsFor schema minFragments
  ofBits schema slabBits (blobBitsFor schema slabBits maxVarLen)

/-- The cells of the slab. -/
def slabSize (c : Config) : Nat := 1 <<< c.slabBits

/-- The bytes of the blob. -/
def blobSize (c : Config) : Nat := 1 <<< c.blobBits

/-- The limit for the moving average of variable length fields. It is zero where the schema has no
such field and where the slab is a single cell. -/
def maxAverage (c : Config) : Nat :=
  if c.schema.hasVarFields = false ∨ c.slabBits = 0 then 0
  else c.blobSize / c.schema.varFieldsInSlab c.slabBits

/-- The largest batch of which the rings hold `mustFit`. -/
def maxBatch (c : Config) (mustFit : Nat) : Nat :=
  let parts := max mustFit 1
  let fromSlab := c.slabSize / max c.schema.maxFragmentSize 1 / parts
  if c.maxAverage = 0 then fromSlab else min (c.blobSize / c.maxAverage / parts) fromSlab

/-- Both batch sizes must leave room for two batches; the publishing side is looked at first. -/
def validate (c : Config) : Except PipeError Unit :=
  let maximum := c.maxBatch explicitBatches
  let refusal (side : String) (size : Nat) : Except PipeError Unit :=
    .error (.invalidConfig (.batchTooLarge side size maximum c.slabBits c.blobBits))
  if maximum < c.publishBatch then refusal "publish" c.publishBatch
  else if maximum < c.releaseBatch then refusal "release" c.releaseBatch
  else .ok ()

/-- The widths and the schema in one line. -/
def render (c : Config) : String :=
  s!"Primary:{c.slabBits} Secondary:{c.blobBits} Schema:{c.schema.name}"

theorem blobSize_le (c : Config) : c.blobSize ≤ 1 <<< maxBits := by
  rw [blobSize, Nat.one_shiftLeft, Nat.one_shiftLeft]
  exact Nat.pow_le_pow_right (by decide) c.blobBits_le

theorem slabSize_le (c : Config) : c.slabSize ≤ 1 <<< maxBits := by
  rw [slabSize, Nat.one_shiftLeft, Nat.one_shiftLeft]
  exact Nat.pow_le_pow_right (by decide) c.slabBits_le

end Config

end FragmentPipe
