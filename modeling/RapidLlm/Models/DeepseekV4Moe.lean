import Mathlib
import RapidLlm.Distributed.DpAttention
import RapidLlm.Moe.ExpertShards
import RapidLlm.Moe.GroupedGemm
import RapidLlm.Moe.GroupedTopk

/-!
# RapidLlm.Models.DeepseekV4Moe

**DeepSeek-V4's routed and shared experts on a grid of ranks** (`DeepseekV4MoE` of
`models/deepseek_v4.py`, the placement of `SparseMoeBlock.__init__`, `Mxfp4MoEMethod`). The class
has its own routing, its own loaders for stacked checkpoints and its own forward: every rank
applies its local stack to the global ids, and one all-reduce over the tensor-parallel group adds
the results up.

* Arithmetic is exact: `silu` and the router's `sqrtsoftplus` are parameters, and a quantised
  weight is the number it stands for.
* The shared expert is its full matrices and each lane's slice of them.
* A tensor a kernel did not write may hold anything, so what a method leaves is a set of tensors.
-/

namespace RapidLlm

open Finset (range)

/-! ### Configuration -/

/-- The functions of one number, in exact arithmetic. -/
structure V4Functions (K : Type) [Field K] [LinearOrder K] where
  sqrtsoftplus : K → K
  silu : K → K
  sqrtsoftplus_pos : ∀ z, 0 < sqrtsoftplus z
  silu_pos : ∀ z, 0 < z → 0 < silu z

/-- What the block reads of `ModelConfig`. No `swiglu_limit` is the limit `inf`. -/
structure V4MoeConfig (K : Type) [Field K] [LinearOrder K] extends MoeModelConfig where
  topK : Nat
  scoringFunc : String
  nSharedExperts : Nat
  swigluLimit : Option K
  routedScalingFactor : K
  topK_pos : 0 < topK
  topK_le : topK ≤ numExperts
  hiddenSize_pos : 0 < hiddenSize
  moeIntermediateSize_pos : 0 < moeIntermediateSize
  swigluLimit_pos : ∀ limit ∈ swigluLimit, 0 < limit
  routedScalingFactor_pos : 0 < routedScalingFactor

/-- `DeepseekV4Fp8Config`, with the block sizes `from_config` lets through. -/
structure DeepseekV4Fp8Config where
  groupN : Nat
  groupK : Nat
  groupN_pos : 0 < groupN
  groupK_pos : 0 < groupK
  groupN_tiles : 128 ∣ groupN
  groupK_tiles : 128 ∣ groupK

def DeepseekV4Fp8Config.scaleBlocks (quant : DeepseekV4Fp8Config) : ScaleBlocks :=
  ⟨"deepseek_v4_fp8", quant.groupN, quant.groupK⟩

/-- The ranks a model runs on, and the flags that place its experts. -/
structure V4Placement where
  dpSize : Nat
  tpSize : Nat
  expertParallel : Bool
  dpAttention : Bool
  dpSize_pos : 0 < dpSize
  tpSize_pos : 0 < tpSize

namespace V4Placement

variable (placement : V4Placement)

/-- `_DP_ATTENTION`. -/
def poolsReplicas : Bool := placement.dpAttention && decide (1 < placement.dpSize)

/-- `_EP_WORLD_SIZE`. -/
def epSize : Nat :=
  if ¬ placement.expertParallel then 1
  else if placement.poolsReplicas then placement.dpSize * placement.tpSize
  else placement.tpSize

/-- `_EP_RANK`. -/
def epRank (replica lane : Nat) : Nat :=
  if ¬ placement.expertParallel then 0
  else if placement.poolsReplicas then replica * placement.tpSize + lane
  else lane

theorem epRank_lt {replica lane : Nat} (hreplica : replica < placement.dpSize)
    (hlane : lane < placement.tpSize) : placement.epRank replica lane < placement.epSize := by
  unfold epRank epSize
  split
  · exact Nat.zero_lt_one
  · split
    · calc replica * placement.tpSize + lane < (replica + 1) * placement.tpSize := by
            rw [Nat.succ_mul]
            omega
        _ ≤ placement.dpSize * placement.tpSize := Nat.mul_le_mul_right _ hreplica
    · exact hlane

/-- A rank of the grid. -/
def ranks {replica lane : Nat} (hreplica : replica < placement.dpSize)
    (hlane : lane < placement.tpSize) : ExpertRanks where
  tpSize := placement.tpSize
  tpRank := lane
  expertParallel := placement.expertParallel
  epSize := placement.epSize
  epRank := placement.epRank replica lane
  tpRank_lt := hlane
  epRank_lt := placement.epRank_lt hreplica hlane

/-- `ep_enabled`: whole experts are dealt to more than one rank. -/
def SplitsExperts : Prop := placement.expertParallel = true ∧ 1 < placement.epSize

end V4Placement

variable {K : Type} [Field K] [LinearOrder K]

/-- `DeepseekV4MoE.__init__`, as far as it can raise: its own checks, the placement, and the shared
expert of `FusedMLP`. -/
def DeepseekV4MoE.create (config : V4MoeConfig K) (ranks : ExpertRanks)
    (quant : Option DeepseekV4Fp8Config) : Except Raised ExpertBlock := do
  if config.scoringFunc ≠ "sqrtsoftplus" then
    .error (.valueError ("DeepSeek-V4 routes through sqrtsoftplus; config says '" ++
      config.scoringFunc ++ "'"))
  if config.nSharedExperts ≠ 1 then
    .error (.valueError ("DeepSeek-V4 defines exactly one shared expert at moe width; " ++
      s!"n_shared_experts={config.nSharedExperts} is unsupported"))
  let block ← ExpertBlock.create config.toMoeModelConfig ranks
  let localInter ← divide config.moeIntermediateSize ranks.tpSize "MLP intermediate"
  checkShardAlignment (quant.map DeepseekV4Fp8Config.scaleBlocks) localInter "MLP intermediate"
  pure block

/-- The constructors take the placement on every rank. -/
def V4Placement.Accepted (placement : V4Placement) (config : V4MoeConfig K)
    (quant : Option DeepseekV4Fp8Config) : Prop :=
  ∀ {replica lane : Nat} (hreplica : replica < placement.dpSize) (hlane : lane < placement.tpSize),
    ∃ block, DeepseekV4MoE.create config (placement.ranks hreplica hlane) quant = .ok block

/-! ### Experts -/

/-- Rows of the residual stream. -/
abbrev TokenRow (K : Type) (hidden : Nat) := Fin hidden → K

/-- `swiglu_forward_fused_bounded`, one element. -/
def V4Functions.boundedSwiglu (fns : V4Functions K) (limit : Option K) (gate up : K) : K :=
  match limit with
  | none => fns.silu gate * up
  | some limit => fns.silu (min gate limit) * min (max up (-limit)) limit

/-- The three matrices of an expert. -/
structure SwigluWeights (K : Type) where
  gate : Nat → Nat → K
  up : Nat → Nat → K
  down : Nat → Nat → K

namespace SwigluWeights

/-- A lane's share: rows of gate and up, columns of down. -/
def slice (weights : SwigluWeights K) (width lane : Nat) : SwigluWeights K where
  gate := fun i k => weights.gate (lane * width + i) k
  up := fun i k => weights.up (lane * width + i) k
  down := fun col i => weights.down col (lane * width + i)

/-- The expert on a row. -/
def apply (weights : SwigluWeights K) (act : K → K → K) {hidden : Nat} (intermediate : Nat)
    (x : TokenRow K hidden) : TokenRow K hidden := fun col =>
  ∑ i ∈ range intermediate, act (∑ k, x k * weights.gate i k) (∑ k, x k * weights.up i k) *
    weights.down col i

end SwigluWeights

/-! ### mxfp4 -/

/-- An e2m1 code point: bit 3 sign, bits 2 and 1 exponent, bit 0 mantissa. -/
def e2m1 (code : Nat) : ℚ :=
  let e := code / 2 % 4
  let m : ℚ := (code % 2 : Nat)
  let mag := if e = 0 then m / 2 else (1 + m / 2) * 2 ^ (e - 1)
  if code / 8 % 2 = 1 then -mag else mag

/-- The code point of column `k` in its word of eight, the low nibble first. -/
def nibble (word k : Nat) : Nat := word / 16 ^ (k % 8) % 16

/-- An element of a checkpoint with one tensor per expert. -/
def ExpertCheckpoint.mxfp4Value (tensors : ExpertCheckpoint Nat ℚ) (expert : Nat)
    (proj : ExpertProj) (row col : Nat) : ℚ :=
  e2m1 (nibble (tensors.weight expert proj row (col / 8)) col) *
    tensors.scaleOf .mxfp4 expert proj row col

/-- An element of a rank's stack, as the grouped GEMM widens it. -/
def ExpertParams.mxfp4Value (params : ExpertParams Nat ℚ) (stack : ExpertStack)
    (slot row col : Nat) : ℚ :=
  e2m1 (nibble ((params.weight stack).entry slot row (col / 8)) col) *
    ExpertQuant.mxfp4.appliedScale (params.scaleInv stack) ((params.weight stack).cols * 8) slot row
      col

/-! ### Checkpoints -/

/-- The expert tensors of a checkpoint: stacked over experts in three dimensions, or one quantised
tensor for each expert. -/
inductive V4Checkpoint (K : Type)
  | stacked (gateUp down : Nat → Nat → Nat → K)
  | perExpert (quant : DeepseekV4Fp8Config) (tensors : ExpertCheckpoint Nat ℚ)
      (keys : List ExpertKey)

namespace V4Checkpoint

def quant : V4Checkpoint K → Option DeepseekV4Fp8Config
  | stacked .. => none
  | perExpert quant .. => some quant

/-- The tensors of every expert, and of no other. -/
def Complete (config : MoeModelConfig) : V4Checkpoint K → Prop
  | stacked .. => True
  | perExpert _ _ keys => config.Covers keys ∧ ∀ key ∈ keys, key.expert < config.numExperts

/-- An expert of the checkpoint, as numbers. -/
def expert (config : MoeModelConfig) : V4Checkpoint K → Nat → SwigluWeights K
  | stacked gateUp down, e =>
    { gate := gateUp e
      up := fun i => gateUp e (config.moeIntermediateSize + i)
      down := down e }
  | perExpert _ tensors _, e =>
    { gate := fun i k => (tensors.mxfp4Value e .gate i k : K)
      up := fun i k => (tensors.mxfp4Value e .up i k : K)
      down := fun i k => (tensors.mxfp4Value e .down i k : K) }

end V4Checkpoint

/-! ### Loading -/

namespace StackedParam

variable {X : Type}

def shape (param : StackedParam X) : Nat × Nat × Nat := (param.count, param.rows, param.cols)

/-- `t.narrow(0, start, length)`. -/
def narrowExperts (t : StackedParam X) (start length : Nat) : Except Raised (StackedParam X) :=
  if t.count < start + length then
    .error (.runtimeError
      s!"start ({start}) + length ({length}) exceeds dimension size ({t.count}).")
  else .ok { t with count := length, entry := fun l => t.entry (start + l) }

/-- `t.narrow(1, start, length)`. -/
def narrowRows (t : StackedParam X) (start length : Nat) : Except Raised (StackedParam X) :=
  if t.rows < start + length then
    .error (.runtimeError
      s!"start ({start}) + length ({length}) exceeds dimension size ({t.rows}).")
  else .ok { t with rows := length, entry := fun l i => t.entry l (start + i) }

/-- `t.narrow(2, start, length)`. -/
def narrowCols (t : StackedParam X) (start length : Nat) : Except Raised (StackedParam X) :=
  if t.cols < start + length then
    .error (.runtimeError
      s!"start ({start}) + length ({length}) exceeds dimension size ({t.cols}).")
  else .ok { t with cols := length, entry := fun l i j => t.entry l i (start + j) }

/-- `torch.cat([t, t'], dim=1)`, of tensors that agree in the other dimensions. -/
def catRows (t t' : StackedParam X) : StackedParam X where
  count := t.count
  rows := t.rows + t'.rows
  cols := t.cols
  entry := fun l i j => if i < t.rows then t.entry l i j else t'.entry l (i - t.rows) j

/-- Whether one extent broadcasts to another. -/
def expands (source target : Nat) : Bool := source = target ∨ source = 1

/-- `param.data.copy_(loaded)`, which broadcasts. -/
def copyFrom (param loaded : StackedParam X) : Except Raised (StackedParam X) :=
  if expands loaded.count param.count ∧ expands loaded.rows param.rows ∧
      expands loaded.cols param.cols then
    .ok { param with
      entry := fun l i j => loaded.entry (if loaded.count = 1 then 0 else l)
        (if loaded.rows = 1 then 0 else i) (if loaded.cols = 1 then 0 else j) }
  else .error (.runtimeError (s!"The size of tensor a {param.shape} must match the size of " ++
    s!"tensor b {loaded.shape}"))

/-- A copy of a tensor of the parameter's own shape. -/
def copyExact (param loaded : StackedParam X) : Except Raised (StackedParam X) :=
  if param.shape ≠ loaded.shape then
    .error (.valueError (s!"expert stack of shape {loaded.shape} does not fit " ++
      s!"parameter of shape {param.shape}"))
  else .ok { param with entry := loaded.entry }

end StackedParam

section Loaders

variable {X : Type}

/-- `_load_ep_expert_stack`. -/
def loadEpExpertStack (ranks : ExpertRanks) (param loaded : StackedParam X) :
    Except Raised (Option (StackedParam X)) :=
  if ¬ ranks.expertParallel ∨ ranks.epSize ≤ 1 then .ok none
  else do
    let loaded ← loaded.narrowExperts (ranks.epRank * param.count) param.count
    let param ← param.copyExact loaded
    pure (some param)

/-- `_stacked_gate_up_loader`. -/
def stackedGateUpLoader (ranks : ExpertRanks) (param loaded : StackedParam X) :
    Except Raised (StackedParam X) := do
  match ← loadEpExpertStack ranks param loaded with
  | some view => pure view
  | none =>
    if ranks.tpSize = 1 then param.copyExact loaded
    else
      let inter := loaded.rows / 2
      let localInter := param.rows / 2
      let gate ← loaded.narrowRows (ranks.tpRank * localInter) localInter
      let up ← loaded.narrowRows (inter + ranks.tpRank * localInter) localInter
      param.copyFrom (gate.catRows up)

/-- `_stacked_down_loader`. -/
def stackedDownLoader (ranks : ExpertRanks) (param loaded : StackedParam X) :
    Except Raised (StackedParam X) := do
  match ← loadEpExpertStack ranks param loaded with
  | some view => pure view
  | none =>
    if ranks.tpSize = 1 then param.copyExact loaded
    else
      let localInter := param.cols
      let share ← loaded.narrowCols (ranks.tpRank * localInter) localInter
      param.copyFrom share

end Loaders

/-- The expert parameters of a rank. -/
inductive LoadedExperts (K : Type)
  | unquantized (weight : ExpertStacks K)
  | mxfp4 (params : ExpertParams Nat ℚ)

/-- What the allocated memory of a rank happens to hold. -/
structure V4Memory (K : Type) where
  weight : ExpertStack → Nat → Nat → Nat → K
  words : ExpertStack → Nat → Nat → Nat → Nat
  scales : ExpertStack → Nat → Nat → Nat → ℚ

/-- `UnquantizedFusedMoEMethod.create_weights`. -/
def ExpertBlock.createStacks (block : ExpertBlock) (memory : V4Memory K) : ExpertStacks K :=
  fun stack =>
    { count := block.numLocalExperts
      rows := (block.extents stack).1
      cols := (block.extents stack).2
      entry := memory.weight stack }

/-- The stacked tensors as the checkpoint has them, `[E, 2I, D]` and `[E, D, I]`. -/
def MoeModelConfig.stackedTensor (config : MoeModelConfig) (entry : Nat → Nat → Nat → K) :
    ExpertStack → StackedParam K
  | .gateUp => ⟨config.numExperts, 2 * config.moeIntermediateSize, config.hiddenSize, entry⟩
  | .down => ⟨config.numExperts, config.hiddenSize, config.moeIntermediateSize, entry⟩

/-- The two stacks of a rank. -/
def ExpertStacks.ofPair {X : Type} (gateUp down : StackedParam X) : ExpertStacks X
  | .gateUp => gateUp
  | .down => down

/-- A rank of the model built and its experts loaded. -/
def DeepseekV4MoE.load (config : V4MoeConfig K) (ranks : ExpertRanks) (memory : V4Memory K)
    (ckpt : V4Checkpoint K) : Except Raised (LoadedExperts K) := do
  let block ← DeepseekV4MoE.create config ranks ckpt.quant
  match ckpt with
  | .stacked gateUp down =>
    let params := block.createStacks memory
    let gateUp ← stackedGateUpLoader ranks (params .gateUp) (config.stackedTensor gateUp .gateUp)
    let down ← stackedDownLoader ranks (params .down) (config.stackedTensor down .down)
    pure (.unquantized (.ofPair gateUp down))
  | .perExpert _ tensors keys =>
    let params := ExpertQuant.mxfp4.createWeights block memory.words memory.scales
    let params ←
      ExpertParams.loadKeys config.toMoeModelConfig ranks block .mxfp4 tensors keys params
    pure (.mxfp4 params)

/-! ### Routing -/

/-- How a layer selects experts. -/
inductive V4Router (K : Type)
  | noauxTc (eScoreCorrectionBias : Nat → K)
  | hash (tid2eid : Nat → Nat → Nat)

/-- The parameters of a layer besides its routed experts. -/
structure V4Layer (K : Type) (hidden : Nat) where
  gateWeight : Nat → TokenRow K hidden
  router : V4Router K
  sharedExperts : SwigluWeights K

/-- The table of a hash layer names experts. -/
def V4Layer.Valid {hidden : Nat} (layer : V4Layer K hidden) (config : V4MoeConfig K) : Prop :=
  match layer.router with
  | .noauxTc _ => True
  | .hash tid2eid => ∀ token, ∀ j < config.topK, tid2eid token j < config.numExperts

/-- Weights and expert ids, by token and slot. -/
structure V4Routing (K : Type) where
  weights : Nat → Nat → K
  ids : Nat → Nat → Nat

section Block

variable (fns : V4Functions K) (config : V4MoeConfig K)

/-- `_route`. -/
def V4Layer.route (topk : TorchTopk K) (layer : V4Layer K config.hiddenSize)
    (x : Nat → TokenRow K config.hiddenSize) (inputIds : Option (Nat → Nat)) :
    Except Raised (V4Routing K) := do
  let scores := fun t e => fns.sqrtsoftplus (∑ k, x t k * layer.gateWeight e k)
  let ids ← match layer.router, inputIds with
    | .hash _, none => .error (.valueError "a hash_moe layer needs input_ids to route")
    | .hash tid2eid, some tokens => .ok fun t j => tid2eid (tokens t) j
    | .noauxTc bias, _ => .ok fun t j =>
      (topk.indices config.numExperts (fun e => scores t e + bias e) config.topK).getD j 0
  let gathered := fun t j => scores t (ids t j)
  pure
    { ids
      weights := fun t j => gathered t j / ((∑ i ∈ range config.topK, gathered t i) + 1 / 10 ^ 20) *
        config.routedScalingFactor }

/-! ### The routed experts -/

/-- The activation of the block. -/
def V4MoeConfig.act : K → K → K := fns.boundedSwiglu config.swigluLimit

/-- The place `e` of a rank's stack, as numbers. -/
def LoadedExperts.expert : LoadedExperts K → Nat → SwigluWeights K
  | unquantized weight, e =>
    { gate := (weight .gateUp).entry e
      up := fun i => (weight .gateUp).entry e ((weight .gateUp).rows / 2 + i)
      down := (weight .down).entry e }
  | mxfp4 params, e =>
    { gate := fun i k => (params.mxfp4Value .gateUp e i k : K)
      up := fun i k => (params.mxfp4Value .gateUp e ((params.weight .gateUp).rows / 2 + i) k : K)
      down := fun col i => (params.mxfp4Value .down e col i : K) }

/-- The places of a rank's stack. -/
def LoadedExperts.count : LoadedExperts K → Nat
  | unquantized weight => (weight .gateUp).count
  | mxfp4 params => (params.weight .gateUp).count

/-- The local intermediate width, half the rows of gate and up. -/
def LoadedExperts.intermediate : LoadedExperts K → Nat
  | unquantized weight => (weight .gateUp).rows / 2
  | mxfp4 params => (params.weight .gateUp).rows / 2

variable (n : Nat) (x : Nat → TokenRow K config.hiddenSize) (routing : V4Routing K)

/-- `mask[expert]` has a hit. -/
def V4MoeConfig.active (e : Nat) : Bool :=
  (List.range n).any fun t => (List.range config.topK).any fun j => routing.ids t j = e

/-- What an expert adds to the row of a token. -/
def LoadedExperts.contribution (loaded : LoadedExperts K) (e t : Nat) :
    TokenRow K config.hiddenSize :=
  ∑ j ∈ range config.topK, if routing.ids t j = e then
    routing.weights t j • (loaded.expert e).apply (config.act fns) loaded.intermediate (x t)
  else 0

/-- One round of the expert loop. -/
def LoadedExperts.addExpert (loaded : LoadedExperts K)
    (final : Nat → TokenRow K config.hiddenSize) (e : Nat) :
    Except Raised (Nat → TokenRow K config.hiddenSize) :=
  if loaded.count ≤ e then
    .error (.indexError s!"index {e} is out of bounds for dimension 0 with size {loaded.count}")
  else .ok fun t => final t + loaded.contribution fns config x routing e t

/-- `DeepseekV4UnquantizedMoEMethod.apply`. -/
def LoadedExperts.applyUnquantized (loaded : LoadedExperts K) :
    Except Raised (List (TokenRow K config.hiddenSize)) :=
  if (List.range n).any fun t => (List.range config.topK).any fun j =>
      config.numExperts ≤ routing.ids t j then
    .error (.runtimeError "Class values must be smaller than num_classes.")
  else
    let activeExperts := (List.range config.numExperts).filter (config.active n routing)
    (activeExperts.foldlM (loaded.addExpert fns config x routing) fun _ => 0).map fun final =>
      (List.range n).map final

/-- A tile configuration the kernels compile with. -/
structure MoeTile extends TileConfig where
  blockM_pos : 0 < blockM
  blockN_pos : 0 < blockN
  blockK_pos : 0 < blockK
  groupM_pos : 0 < groupM

variable (tile : MoeTile)

/-- The call of `fused_moe` in `Mxfp4MoEMethod.apply`. -/
def LoadedExperts.mxfp4Call (loaded : LoadedExperts K) (hinter : 0 < loaded.intermediate) :
    RoutedCall K where
  numTokens := n
  topK := config.topK
  numExperts := loaded.count
  hidden := config.hiddenSize
  intermediate := loaded.intermediate
  hiddenStates := fun t k => if hk : k < config.hiddenSize then x t ⟨k, hk⟩ else 0
  w1 := fun e row k =>
    if row < loaded.intermediate then (loaded.expert e).gate row k
    else (loaded.expert e).up (row - loaded.intermediate) k
  w2 := fun e row k => (loaded.expert e).down row k
  topkWeights := routing.weights
  topkIds := fun t j => routing.ids t j
  siluAndMul := config.act fns
  config := tile.toTileConfig
  hidden_pos := config.hiddenSize_pos
  intermediate_pos := hinter
  blockN_pos := tile.blockN_pos
  blockK_pos := tile.blockK_pos
  groupM_pos := tile.groupM_pos

/-- A tensor of `n` rows that has what a run wrote, and anything where it did not write. -/
def MoeBuffers.ReadAs {hidden : Nat} (run : MoeBuffers K) (n : Nat)
    (out : List (TokenRow K hidden)) : Prop :=
  out.length = n ∧ ∀ t < n, ∀ col : Fin hidden, ∀ v, run.out (t, col) = some v →
    out.getD t 0 col = v

/-- `Mxfp4MoEMethod.apply`: the tensors it may leave. -/
def LoadedExperts.applyMxfp4 (loaded : LoadedExperts K) :
    Except Raised (List (TokenRow K config.hiddenSize) → Prop) :=
  if hinter : 0 < loaded.intermediate then
    (loaded.mxfp4Call fns config n x routing tile hinter).fusedMoe.map fun executes out =>
      ∃ run, executes run ∧ run.ReadAs n out
  else .error (.valueError "arange's end argument must be greater than the start argument")

/-- `self.quant_method.apply`. -/
def LoadedExperts.apply (loaded : LoadedExperts K) :
    Except Raised (List (TokenRow K config.hiddenSize) → Prop) :=
  match loaded with
  | unquantized _ =>
    (loaded.applyUnquantized fns config n x routing).map fun final out => out = final
  | mxfp4 _ => loaded.applyMxfp4 fns config n x routing tile

/-- The shared expert, whose `down_proj` reduces over the lanes. -/
def V4Layer.shared (layer : V4Layer K config.hiddenSize) (tpSize : Nat) :
    List (TokenRow K config.hiddenSize) :=
  tensorModelParallelAllReduce tpSize fun lane => (List.range n).map fun t =>
    (layer.sharedExperts.slice (config.moeIntermediateSize / tpSize) lane).apply (config.act fns)
      (config.moeIntermediateSize / tpSize) (x t)

/-- `DeepseekV4MoE.forward` returns `out` on every rank of a tensor-parallel group. Each rank has
routed, applied its local experts and gone into the all-reduce. -/
def DeepseekV4MoE.Returns (topk : TorchTopk K) (tpSize : Nat) (loaded : Nat → LoadedExperts K)
    (layer : V4Layer K config.hiddenSize) (inputIds : Option (Nat → Nat))
    (out : List (TokenRow K config.hiddenSize)) : Prop :=
  ∃ routing, layer.route fns config topk x inputIds = .ok routing ∧
    ∃ locals : Nat → List (TokenRow K config.hiddenSize),
      (∀ lane < tpSize, ∃ leaves, (loaded lane).apply fns config n x routing tile = .ok leaves ∧
        leaves (locals lane)) ∧
      out = List.zipWith (· + ·) (tensorModelParallelAllReduce tpSize locals)
        (layer.shared fns config n x tpSize)

/-! ### Placement independence -/

/-- The block on one row: its routed experts as the checkpoint has them, and the shared one. -/
def V4Layer.value (layer : V4Layer K config.hiddenSize) (ckpt : V4Checkpoint K) (t : Nat) :
    TokenRow K config.hiddenSize :=
  (∑ j ∈ range config.topK, routing.weights t j •
      (ckpt.expert config.toMoeModelConfig (routing.ids t j)).apply (config.act fns)
        config.moeIntermediateSize (x t)) +
    layer.sharedExperts.apply (config.act fns) config.moeIntermediateSize (x t)

end Block

/-- On `n` tokens the block is the same function wherever its experts are: for every checkpoint of
the format, every layer and every batch, the ranks of a replica load, and then `forward` returns,
and returns the value of the block. -/
def PlacementIndependent (fns : V4Functions K) (config : V4MoeConfig K) (topk : TorchTopk K)
    (tile : MoeTile) (quant : Option DeepseekV4Fp8Config) (placement : V4Placement) (n : Nat) :
    Prop :=
  ∀ ckpt : V4Checkpoint K, ckpt.quant = quant → ckpt.Complete config.toMoeModelConfig →
    ∀ layer : V4Layer K config.hiddenSize, layer.Valid config →
      ∀ (memory : Nat → V4Memory K) (x : Nat → TokenRow K config.hiddenSize) (tokens : Nat → Nat),
        ∀ replica, ∀ hreplica : replica < placement.dpSize,
          ∃ loaded : Nat → LoadedExperts K,
            (∀ lane, ∀ hlane : lane < placement.tpSize, DeepseekV4MoE.load config
              (placement.ranks hreplica hlane) (memory lane) ckpt = .ok (loaded lane)) ∧
            ∃ routing, layer.route fns config topk x (some tokens) = .ok routing ∧
              (∃ out, DeepseekV4MoE.Returns fns config n x tile topk placement.tpSize loaded layer
                (some tokens) out) ∧
              ∀ out, DeepseekV4MoE.Returns fns config n x tile topk placement.tpSize loaded layer
                (some tokens) out →
                out = (List.range n).map (layer.value fns config x routing ckpt)

end RapidLlm
