import Mathlib.Data.List.ProdSigma
import Mathlib.Data.Rat.Cast.Defs
import RapidLlm.Lib.Launch
import RapidLlm.Lib.OnlineSoftmax
import RapidLlm.Lib.Tiling
import RapidLlm.Quantization.Fp8

/-!
# RapidLlm.Kernels.FlashDecoding

**Decode attention against the paged cache** (`kernels/ops/attention/flashdecoding.py`). The
history of a row is cut into partitions. Stage 1 takes the softmax of each on its own, one query
head or a whole group of them to a program; stage 2 combines the partitions of a row by their
log-sum-exps.

The buffer between the two comes from `torch.empty`: a slot that no program stored to is `none`,
and stage 2 is not defined where it loads one. Scores and values are exact numbers, the
accumulators `Floating` ones, so that what the `-inf` and the divisions of the kernels come to is
part of the model. The conversions between dtypes round nothing here.
-/

namespace RapidLlm

open Floating Tiling

/-! ### Partition sizes -/

/-- What the process decides about a launch: the two environment variables, Python's `int` of a
string, and the multiprocessors of the device. -/
structure DecodeEnv where
  splitkv : Option String
  packedDecode : Option String
  int : String → Option Int
  numSms : Nat

namespace DecodeEnv

/-- `_splitkv_mode`. -/
def splitkvMode (env : DecodeEnv) : String :=
  let raw := (env.splitkv.getD "adaptive").trimAscii.toString.toLower
  if raw = "" then "adaptive" else raw

/-- `adaptive_partition_size`, with the defaults of its keyword arguments. -/
def adaptivePartitionSize (batch numHeads maxSeqLen numSms : Nat) : Nat :=
  if maxSeqLen = 0 then 128
  else
    let base := max 1 (batch * numHeads)
    let wave := max 1 (numSms * 16)
    let blocksAtBaseline := base * numTiles maxSeqLen 128
    if blocksAtBaseline ≥ wave then max 16 (numTiles 128 16 * 16)
    else
      let needed := numTiles wave base
      let maxParts := max 1 (numTiles maxSeqLen 32)
      let numParts := max 1 (min needed maxParts)
      let part := numTiles maxSeqLen numParts
      max 32 (numTiles part 16 * 16)

/-- `_resolve_partition_size`. -/
def resolvePartitionSize (env : DecodeEnv) (batch numHeads maxSeqLen : Nat) : Nat :=
  let mode := env.splitkvMode
  if mode = "fixed" then 128
  else if mode ≠ "adaptive" ∧ mode ≠ "auto" then
    match env.int mode with
    | none => 128
    | some pinned => (max 16 (-(-pinned).fdiv 16 * 16)).toNat
  else adaptivePartitionSize batch numHeads maxSeqLen env.numSms

/-- `packed_decode_supported`. -/
def packedDecodeSupported (env : DecodeEnv) (numHeads numKvHeads headDim : Nat) : Bool :=
  if env.packedDecode.getD "1" = "0" then false
  else if numKvHeads = 0 ∨ numHeads % numKvHeads ≠ 0 then false
  else
    let group := numHeads / numKvHeads
    4 ≤ group ∧ group ≤ 16 ∧ headDim ≥ 16 ∧ headDim &&& (headDim - 1) = 0

end DecodeEnv

/-! ### What a call reads -/

/-- The value of a finite fp16 bit pattern: bias 15. -/
def fp16Value (bits : UInt16) : ℚ :=
  let exponent := bits.toNat / 1024 % 32
  let mantissa := bits.toNat % 1024
  let sign : ℚ := if bits.toNat < 32768 then 1 else -1
  if exponent = 0 then sign * (mantissa / 2 ^ 24)
  else sign * ((1024 + mantissa) * 2 ^ exponent / 2 ^ 25)

/-- `dequant_fp8e4m3`: the fields of the byte, dropped into an fp16. -/
def dequantFp8e4m3 (q : UInt8) : ℚ :=
  fp16Value (((q.toUInt16 &&& 0x80) <<< 8) ||| ((q.toUInt16 &&& 0x7F) <<< 7))

/-- `FP8_E4M3_BIT_TRICK_SCALE`. -/
def fp8BitTrickScale : ℚ := 256

/-- The factor makes up for the difference of the biases, at every byte that has a value. -/
theorem dequantFp8e4m3_scaled : ∀ bits < 256, ∀ value ∈ e4m3 (.ofNat bits),
    dequantFp8e4m3 (.ofNat bits) * fp8BitTrickScale = value := by
  decide +kernel

/-- The strides of `[rows, heads, lanes]`. -/
structure Strides where
  bs : Nat
  heads : Nat
  dim : Nat

def Strides.offset (strides : Strides) (row head d : Nat) : Nat :=
  row * strides.bs + (head * strides.heads + d * strides.dim)

/-- The memory under the two caches, by the dtype of its elements: numbers, or e4m3 bytes. -/
inductive KvCaches (K : Type*)
  | unquantized (k v : Nat → K)
  | uint8 (k v : Nat → UInt8)

namespace KvCaches

variable {K : Type*} [Field K]

/-- `k_cache.dtype == torch.uint8`. -/
def kvFp8 : KvCaches K → Bool
  | unquantized .. => false
  | uint8 .. => true

/-- A masked load of the key cache, widened. -/
def loadK (caches : KvCaches K) (mask : Bool) (addr : Nat) : K :=
  match caches with
  | unquantized k _ => if mask then k addr else 0
  | uint8 k _ => (dequantFp8e4m3 (if mask then k addr else 0) : ℚ)

/-- The same of the value cache. -/
def loadV (caches : KvCaches K) (mask : Bool) (addr : Nat) : K :=
  match caches with
  | unquantized _ v => if mask then v addr else 0
  | uint8 _ v => (dequantFp8e4m3 (if mask then v addr else 0) : ℚ)

/-- A scale as the kernels are given it. -/
def kernelScale (caches : KvCaches K) (scale : K) : K :=
  if caches.kvFp8 then scale * (fp8BitTrickScale : ℚ) else scale

end KvCaches

/-- `b_req_tokens_table`, or a strided view of it. -/
structure RowTable where
  data : Nat → Nat
  start : Nat
  strideB : Nat
  strideS : Nat

namespace RowTable

/-- The cache row of a position. -/
def row (table : RowTable) (req position : Nat) : Nat :=
  table.data (table.start + (table.strideB * req + position * table.strideS))

/-- `table[:, rank::size]`. -/
def columns (table : RowTable) (rank size : Nat) : RowTable :=
  { table with start := table.start + rank * table.strideS, strideS := size * table.strideS }

theorem columns_row (table : RowTable) (rank size req j : Nat) :
    (table.columns rank size).row req j = table.row req (rank + j * size) := by
  refine congrArg table.data ?_
  change table.start + rank * table.strideS + (table.strideB * req + j * (size * table.strideS)) = _
  ring

end RowTable

/-- Query and KV heads, grouped. -/
structure HeadGeometry where
  numHeads : Nat
  numKvHeads : Nat
  headDim : Nat
  grouped : numKvHeads ∣ numHeads

/-- The arguments of `flash_decoding`. -/
structure DecodeCall (K : Type*) extends HeadGeometry where
  batchs : Nat
  q : Nat → Nat → Nat → K
  caches : KvCaches K
  kStrides : Strides
  vStrides : Strides
  qkScale : K
  bReqTokensTable : RowTable
  bReqIdx : Nat → Nat
  bSeqLen : Nat → Nat
  maxActualSeqLen : Nat
  kScale : K
  vScale : K

/-- A normalised output with its log-sum-exp, at one slot of the two buffers. -/
@[ext]
structure Partial (K : Type*) where
  out : Nat → Floating K
  lse : Floating K

/-- A buffer from `torch.empty`. -/
abbrev Buffer (ι K : Type*) := ι → Option (Partial K)

namespace DecodeCall

variable {K : Type*} [Field K] [LinearOrder K] [Exponential K]

/-! ### Stage 1 -/

def numBlocks (blockN startIndex endIndex : Nat) : Nat :=
  if endIndex ≤ startIndex then 0 else (endIndex - startIndex + blockN - 1) / blockN

/-- The loop over one partition, by what a kernel loads at a position under the mask of the lane:
the score of the key there, and the lanes of the value. -/
def walk (blockN startIndex endIndex : Nat) (qk : Nat → Bool → K) (v : Nat → Bool → Nat → K) :
    SoftmaxState K :=
  (List.range (numBlocks blockN startIndex endIndex)).foldl (fun st startN =>
    let offsN := fun j => startIndex + j + startN * blockN
    let kMask := fun j => decide (offsN j < endIndex)
    st.tile blockN (fun j => if kMask j then num (qk (offsN j) (kMask j)) else negInf)
      fun j d => num (v (offsN j) (kMask j) d)) .init

section Kernels

variable (call : DecodeCall K) (blockSeq : Nat) (kScale vScale : K)

/-- `num_heads // num_kv_heads`. -/
def numKvGroups : Nat := call.numHeads / call.numKvHeads

/-- The cache row of a position of a batch row, 0 where the lane is masked. -/
def kLoc (batchPid n : Nat) (mask : Bool) : Nat :=
  if mask then call.bReqTokensTable.row (call.bReqIdx batchPid) n else 0

/-- The end of a partition: of the history, or of the partition. -/
def partitionEnd (batchPid seqBlockPid : Nat) : Nat :=
  min (call.bSeqLen batchPid) (seqBlockPid * blockSeq + blockSeq)

/-- `_flash_decoding_stage1_kernel`. The values are addressed with the strides of the keys. -/
def stage1Program (pid : Nat × Nat × Nat) :
    List ((Nat × Nat × Nat) × Option (Partial K)) :=
  let (batchPid, headPid, seqBlockPid) := pid
  let kvHeadPid := headPid / call.numKvGroups
  let startIndex := seqBlockPid * blockSeq
  let endIndex := call.partitionEnd blockSeq batchPid seqBlockPid
  let kPtrs := fun n mask d => call.kStrides.offset (call.kLoc batchPid n mask) kvHeadPid d
  let k := fun n mask d =>
    let k := call.caches.loadK mask (kPtrs n mask d)
    if call.caches.kvFp8 then k * kScale else k
  let v := fun n mask d =>
    let v := call.caches.loadV mask (kPtrs n mask d)
    if call.caches.kvFp8 then v * vScale else v
  let qk := fun n mask =>
    (∑ d ∈ Finset.range call.headDim, call.q batchPid headPid d * k n mask d) * call.qkScale
  let st := walk 16 startIndex endIndex qk v
  if numBlocks 16 startIndex endIndex = 0 then []
  else [((batchPid, headPid, seqBlockPid), some ⟨fun d => st.acc d / st.d, st.m + log st.d⟩)]

/-- `_flash_decoding_packed_stage1_kernel`. The rows of the values are addressed with the row
stride of the keys, and the scales are applied whatever the dtype of the cache. -/
def packedStage1Program (groupSize : Nat) (pid : Nat × Nat × Nat) :
    List ((Nat × Nat × Nat) × Option (Partial K)) :=
  let (batchPid, kvHeadPid, seqBlockPid) := pid
  let startIndex := seqBlockPid * blockSeq
  let endIndex := call.partitionEnd blockSeq batchPid seqBlockPid
  let headIds := fun m => kvHeadPid * groupSize + m
  let q := fun m d => if m < groupSize then call.q batchPid (headIds m) d else 0
  let k := fun n mask d => call.caches.loadK mask
    (call.kStrides.offset (call.kLoc batchPid n mask) kvHeadPid d)
  let v := fun n mask d => call.caches.loadV mask
    (call.kLoc batchPid n mask * call.kStrides.bs + (kvHeadPid * call.vStrides.heads +
      d * call.vStrides.dim))
  let qk := fun m n mask =>
    (∑ d ∈ Finset.range call.headDim, q m d * k n mask d) * (call.qkScale * kScale)
  if numBlocks 64 startIndex endIndex = 0 then []
  else (List.range 16).filterMap fun m =>
    let st := walk 64 startIndex endIndex (qk m) v
    if m < groupSize then
      some ((batchPid, headIds m, seqBlockPid),
        some ⟨fun d => st.acc d * num vScale / st.d, st.m + log st.d⟩)
    else none

/-! ### Stage 2 -/

/-- `_flash_decoding_stage2_kernel`. -/
def stage2Program (mid : Buffer (Nat × Nat × Nat) K) (pid : Nat × Nat) :
    Option (List ((Nat × Nat) × Option (Partial K))) := do
  let (batchPid, headPid) := pid
  let numPartitions := numTiles (call.bSeqLen batchPid) blockSeq
  let parts ← (List.range numPartitions).mapM fun block => mid (batchPid, headPid, block)
  let st := parts.foldl (fun st part => st.absorb part.lse part.out) SoftmaxState.init
  return [(pid, some {
    out := fun d => st.acc d / if st.d.Positive then st.d else num 1
    lse := if st.d.Positive then st.m + log st.d else negInf })]

/-! ### The launches -/

/-- The grid of three axes. -/
def grid (x y z : Nat) : List (Nat × Nat × Nat) :=
  (List.range x).product ((List.range y).product (List.range z))

/-- What stage 1 may leave in the buffer between the stages. -/
def Stage1 (packed : Bool) (mid : Buffer (Nat × Nat × Nat) K) : Prop :=
  let partitions := numTiles call.maxActualSeqLen blockSeq
  let stores :=
    if packed then
      (grid call.batchs (call.numHeads / call.numKvGroups) partitions).flatMap
        (call.packedStage1Program blockSeq kScale vScale call.numKvGroups)
    else
      (grid call.batchs call.numHeads partitions).flatMap
        (call.stage1Program blockSeq kScale vScale)
  Outcome stores (fun _ => none) mid

/-- What stage 2 may leave in the outputs. -/
def Stage2 (mid : Buffer (Nat × Nat × Nat) K) (out : Buffer (Nat × Nat) K) : Prop :=
  Ran ((List.range call.batchs).product (List.range call.numHeads))
    (call.stage2Program blockSeq mid) (fun _ => none) out

end Kernels

variable (call : DecodeCall K)

/-- Whether the packed kernel serves the call. -/
def packed (env : DecodeEnv) : Bool :=
  env.packedDecodeSupported call.numHeads call.numKvHeads call.headDim

/-- The partition size of the call. -/
def partitionSize (env : DecodeEnv) : Nat :=
  let gridHeads := if call.packed env then call.numKvHeads else call.numHeads
  env.resolvePartitionSize call.batchs gridHeads call.maxActualSeqLen

/-- `flash_decoding` with `return_lse`: the outputs it may return. -/
def flashDecoding (env : DecodeEnv) : Except Raised (Buffer (Nat × Nat) K → Prop) :=
  if call.maxActualSeqLen = 0 then
    .ok fun out => out = fun _ => some ⟨fun _ => num 0, negInf⟩
  else if call.packed env = false ∧ call.partitionSize env % 16 ≠ 0 then
    .error (.assertionError "PARTITION_SIZE 必须是 BLOCK_N_SIZE 的倍数")
  else
    .ok fun out => ∃ mid,
      call.Stage1 (call.partitionSize env) (call.caches.kernelScale call.kScale)
        (call.caches.kernelScale call.vScale) (call.packed env) mid ∧
      call.Stage2 (call.partitionSize env) mid out

end DecodeCall

end RapidLlm
