import RapidLlm.Kernels.FlashDecoding

/-!
# RapidLlm.Kernels.FlashPrefill

**Causal attention over a prefill grid** (`kernels/ops/attention/flashattention2_nopad.py`, and
`prefill_attention` of `kernels/backend/flashinfer/attention.py`). The grid is padded: the rows
of sequence `i` start at `b_start_loc[i]`, and those past its length are nobody's.

`flash_attention2_no_pad` attends over the fresh keys of the grid, `flash_attention2_chunked`
over the cache rows of a sequence, of which the chunk is the end. FlashInfer takes rows without
padding, and so `prefill_attention` hands most grids on to the first of the two.

The kernels' softmax runs on `exp2`, with `log2(e)` folded into the scale: `exp` here is that
`exp2`. A score that the causal mask fills with `-1e8` is one that contributes nothing, which is
what `-inf` is. Outputs come from `torch.empty_like`.
-/

namespace RapidLlm

open Floating Tiling

variable {K : Type*} [Field K] [LinearOrder K] [Exponential K]

/-- The exponential, of a kernel that only has `exp2`. -/
def naturalExp (log2e : K) (x : K) : K := Exponential.exp (x * log2e)

/-- The loop of one query row over the tiles of the keys up to `stop`, by what a kernel loads at a
position under the mask of the lane. -/
def causalWalk (blockN stop maskEnd position : Nat) (qk : Nat → Bool → K)
    (v : Nat → Bool → Nat → K) : SoftmaxState K :=
  (List.range (numTiles stop blockN)).foldl (fun st tile =>
    let offsN := fun j => tile * blockN + j
    let nMask := fun j => decide (offsN j < maskEnd)
    let causalMask := fun j => position ≥ offsN j
    st.tile blockN (fun j => if causalMask j then num (qk (offsN j) (nMask j)) else negInf)
      fun j d => num (v (offsN j) (nMask j) d)) .init

/-- What an output buffer holds: of each row and head its lanes. -/
abbrev OutputRows (K : Type*) := Nat × Nat → Option (Nat → Floating K)

/-- The tile sizes `_nopad_blocks` chooses, and the constant `_LOG2E`. -/
structure NopadBlocks (K : Type*) where
  blockM : Nat
  blockN : Nat
  log2e : K

/-- The arguments of `flash_attention2_no_pad`. -/
structure PrefillCall (K : Type*) extends HeadGeometry where
  totalQ : Nat
  batchs : Nat
  q : Nat → Nat → Nat → K
  k : Nat → Nat → Nat → K
  v : Nat → Nat → Nat → K
  smScale : K
  bStartLoc : Nat → Nat
  bSeqLen : Nat → Nat
  maxSeqLen : Nat

/-- The arguments of `flash_attention2_chunked`. -/
structure ChunkedCall (K : Type*) extends HeadGeometry where
  batchs : Nat
  q : Nat → Nat → Nat → K
  caches : KvCaches K
  kStrides : Strides
  vStrides : Strides
  smScale : K
  bStartLoc : Nat → Nat
  bKvBase : Nat → Nat
  bPrefixLen : Nat → Nat
  bSeqLen : Nat → Nat
  maxChunkLen : Nat
  kScale : K
  vScale : K

/-- The grid of both kernels: query blocks, and sequences times heads. -/
def prefillGrid (maxLen blockM batchs heads : Nat) : List (Nat × Nat) :=
  (List.range (numTiles maxLen blockM)).product (List.range (batchs * heads))

namespace PrefillCall

variable (call : PrefillCall K) (blocks : NopadBlocks K)

/-- `flash_attention2_nopad_kernel`: what a program stores, a row of its query block at a time. -/
def program (pid : Nat × Nat) : List ((Nat × Nat) × Option (Nat → Floating K)) :=
  let (blockMIdx, curBh) := pid
  let batchIdx := curBh / call.numHeads
  let headIdx := curBh % call.numHeads
  let kvHeadIdx := headIdx / (call.numHeads / call.numKvHeads)
  let seqLen := call.bSeqLen batchIdx
  let startLoc := call.bStartLoc batchIdx
  let blockStart := blockMIdx * blocks.blockM
  let offsM := fun m => blockStart + m
  let q := fun m d => if offsM m < seqLen then call.q (startLoc + offsM m) headIdx d else 0
  let blockMask := if blockStart < seqLen then 1 else 0
  let blockEnd := min (blockStart + blocks.blockM) seqLen
  let k := fun n mask d => if mask then call.k (startLoc + n) kvHeadIdx d else 0
  let v := fun n mask d => if mask then call.v (startLoc + n) kvHeadIdx d else 0
  let qk := fun m n mask =>
    (∑ d ∈ Finset.range call.headDim, q m d * k n mask d) * (call.smScale * blocks.log2e)
  (List.range blocks.blockM).filterMap fun m =>
    let st := causalWalk blocks.blockN (blockMask * blockEnd) blockEnd (offsM m) (qk m) v
    if offsM m < seqLen then some ((startLoc + offsM m, headIdx), some fun d => st.acc d / st.d)
    else none

/-- `flash_attention2_no_pad`: what it may leave in its output. -/
def FlashAttention2NoPad (out : OutputRows K) : Prop :=
  Outcome ((prefillGrid call.maxSeqLen blocks.blockM call.batchs call.numHeads).flatMap
    (call.program blocks)) (fun _ => none) out

end PrefillCall

namespace ChunkedCall

variable (call : ChunkedCall K) (blocks : NopadBlocks K)

/-- `flash_attention2_chunked_kernel`. Query rows are those of the chunk, key positions those of
the whole sequence. The scales are applied whatever the dtype of the cache. -/
def program (pid : Nat × Nat) : List ((Nat × Nat) × Option (Nat → Floating K)) :=
  let (blockMIdx, curBh) := pid
  let batchIdx := curBh / call.numHeads
  let headIdx := curBh % call.numHeads
  let kvHeadIdx := headIdx / (call.numHeads / call.numKvHeads)
  let prefixLen := call.bPrefixLen batchIdx
  let chunkLen := call.bSeqLen batchIdx - prefixLen
  let qStart := call.bStartLoc batchIdx
  let kvBase := call.bKvBase batchIdx
  let blockStart := blockMIdx * blocks.blockM
  let offsM := fun m => blockStart + m
  let q := fun m d => if offsM m < chunkLen then call.q (qStart + offsM m) headIdx d else 0
  let blockMask := if blockStart < chunkLen then 1 else 0
  let blockQEnd := min (blockStart + blocks.blockM) chunkLen
  let kvEnd := prefixLen + blockQEnd
  let k := fun n mask d => call.caches.loadK mask (call.kStrides.offset (kvBase + n) kvHeadIdx d)
  let v := fun n mask d => call.caches.loadV mask (call.vStrides.offset (kvBase + n) kvHeadIdx d)
  let qk := fun m n mask => (∑ d ∈ Finset.range call.headDim, q m d * k n mask d) *
    (call.smScale * blocks.log2e * call.caches.kernelScale call.kScale)
  (List.range blocks.blockM).filterMap fun m =>
    let st := causalWalk blocks.blockN (blockMask * kvEnd) kvEnd (prefixLen + offsM m) (qk m) v
    if offsM m < chunkLen then
      some ((qStart + offsM m, headIdx),
        some fun d => st.acc d * num (call.caches.kernelScale call.vScale) / st.d)
    else none

/-- `flash_attention2_chunked`: what it may leave in its output. -/
def FlashAttention2Chunked (out : OutputRows K) : Prop :=
  Outcome ((prefillGrid call.maxChunkLen blocks.blockM call.batchs call.numHeads).flatMap
    (call.program blocks)) (fun _ => none) out

end ChunkedCall

/-! ### FlashInfer -/

/-- What `plan` of the ragged prefill wrapper is given. -/
structure RaggedPlan (K : Type*) where
  qoIndptr : List Nat
  kvIndptr : List Nat
  numQoHeads : Nat
  numKvHeads : Nat
  headDim : Nat
  causal : Bool
  smScale : K

/-- `plan` and then `run` of FlashInfer's wrapper: the output rows of a plan over queries, keys and
values. -/
abbrev RaggedRun (K : Type*) :=
  RaggedPlan K → (Nat → Nat → Nat → K) → (Nat → Nat → Nat → K) → (Nat → Nat → Nat → K) →
    OutputRows K

/-- The plan `prefill_attention` makes. -/
def PrefillCall.raggedPlan (call : PrefillCall K) : RaggedPlan K :=
  let last := call.batchs - 1
  let qoIndptr := 0 :: ((List.range call.batchs).drop 1).map call.bStartLoc ++
    [call.bStartLoc last + call.bSeqLen last]
  { qoIndptr
    kvIndptr := qoIndptr
    numQoHeads := call.numHeads
    numKvHeads := call.numKvHeads
    headDim := call.headDim
    causal := true
    smScale := call.smScale }

/-- `prefill_attention`: the outputs it may return. -/
def PrefillCall.prefillAttention (call : PrefillCall K) (blocks : NopadBlocks K)
    (ragged : RaggedRun K) : Except Raised (OutputRows K → Prop) :=
  if call.batchs = 0 then
    .error (.indexError "index -1 is out of bounds for dimension 0 with size 0")
  else
    let last := call.batchs - 1
    let declared := call.bStartLoc last + call.bSeqLen last
    if call.totalQ ≠ declared then .ok (call.FlashAttention2NoPad blocks)
    else .ok fun out => out = ragged call.raggedPlan call.q call.k call.v

end RapidLlm
