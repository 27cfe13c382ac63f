import Mathlib.Data.List.GetD
import Mathlib.Algebra.GroupWithZero.Nat
import RapidLlm.Engine.BatchPlanner

/-!
# RapidLlm.Executor.SlotBatch

The executor's side of a step: the plan of one forward pass (`ModelInput` of
`executor/worker.py`) and the block table the pass goes through
(`executor/slot_batch.py`), without decode context parallelism.

* A pass is a list of `PassEntry`, one per sequence; the parallel tuples of the
  source are its columns.
* `SlotBatch.table slot position` is the cache row the table names.
-/

namespace RapidLlm

/-- A row of the KV cache. -/
abbrev CacheRow := Nat

/-! ### A pass -/

/-- Which kernel a pass goes through. -/
inductive PassKind
  | prefill
  | extend
  | decode
  deriving DecidableEq, Repr

/-- Where the input ids of a sequence come from. `device` stands for the placeholders
`-1` of a pipelined decode row: the worker gathers what it sampled last. -/
inductive Feed
  | host (tokens : List Token)
  | device
  deriving DecidableEq, Repr

def Feed.length : Feed → Nat
  | host tokens => tokens.length
  | device => 1

/-- One sequence of a pass. -/
structure PassEntry where
  request : RequestRef
  slot : Nat
  seqStart : Nat
  seqLen : Nat
  tokens : Feed
  sampled : Bool
  genCount : Nat
  blockWrites : List TableWrite
  deriving DecidableEq, Repr

/-- Tokens a pass feeds for a sequence. -/
def PassEntry.chunkLen (entry : PassEntry) : Nat := entry.seqLen - entry.seqStart

/-- One forward pass's plan. -/
structure ModelInput where
  kind : PassKind
  entries : List PassEntry
  returnLogits : Bool := false
  deriving DecidableEq, Repr

namespace ModelInput

/-- `ModelInput.__post_init__`, as far as the tuples can disagree. -/
def create (kind : PassKind) (entries : List PassEntry) (returnLogits : Bool) :
    Except Raised ModelInput :=
  let given := (entries.map fun entry => entry.tokens.length).sum
  let wanted := (entries.map PassEntry.chunkLen).sum
  if entries.isEmpty then .error (.valueError "a ModelInput must cover at least one sequence")
  else if given ≠ wanted then
    .error (.valueError s!"got {given} tokens for {wanted} cache rows")
  else .ok { kind, entries, returnLogits }

theorem create_eq {kind : PassKind} {entries : List PassEntry} {returnLogits : Bool}
    {input : ModelInput} (h : create kind entries returnLogits = .ok input) :
    input = { kind, entries, returnLogits } := by
  unfold create at h
  simp only at h
  split at h
  · cases h
  split at h <;> cases h
  rfl

/-- The width of a prefill grid: its widest chunk. -/
def width (input : ModelInput) : Nat := (input.entries.map PassEntry.chunkLen).foldl max 0

theorem le_foldl_max : ∀ {xs : List Nat} {x init : Nat}, x ∈ xs → x ≤ xs.foldl max init
  | y :: xs, x, init, h => by
      have hinit : ∀ {zs : List Nat} {n : Nat}, n ≤ zs.foldl max n := by
        intro zs
        induction zs with
        | nil => intro n; exact Nat.le_refl n
        | cons z zs ih => intro n; exact Nat.le_trans (Nat.le_max_left n z) ih
      rw [List.foldl_cons]
      rcases List.mem_cons.mp h with rfl | h
      · exact Nat.le_trans (Nat.le_max_right init x) hinit
      · exact le_foldl_max h

theorem chunkLen_le_width {input : ModelInput} {entry : PassEntry} (h : entry ∈ input.entries) :
    entry.chunkLen ≤ input.width :=
  le_foldl_max (List.mem_map_of_mem h)

end ModelInput

/-! ### The block table -/

/-- `SlotBatch`: one block table row per slot. `maxSeqLen` is the width of the table and
`graphBatchSize` the runner's: the batch size a captured graph would take. -/
structure SlotBatch where
  maxSeqLen : Nat
  totalSlots : Nat
  graphBatchSize : Nat → Nat
  table : Nat → Nat → CacheRow

namespace SlotBatch

/-- The slot that backs filler rows; with one slot there is nothing to spare. -/
def fillerSlot (batch : SlotBatch) : Option Nat :=
  if batch.totalSlots > 1 then some (batch.totalSlots - 1) else none

/-- A fresh table is zeroed, so every entry names the null block's first row; the filler
slot tiles the null block. -/
def create (maxSeqLen totalSlots : Nat) (graphBatchSize : Nat → Nat) : SlotBatch :=
  { maxSeqLen, totalSlots, graphBatchSize
    table := fun slot position =>
      if totalSlots > 1 ∧ slot = totalSlots - 1 then position % prefixCacheBlockSize else 0 }

end SlotBatch

end RapidLlm
