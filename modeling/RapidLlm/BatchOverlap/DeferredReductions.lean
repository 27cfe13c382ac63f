import RapidLlm.BatchOverlap.CommOverlap

/-!
# RapidLlm.BatchOverlap.DeferredReductions

**Who reads a deferred reduction, and when** (`models/base.py`, `modules/moe/layer.py`,
`batch_overlap/operations.py`, `operations_strategy.py` and `two_batch_overlap.py`): the ops of
a decoder layer, the streams built from them and the executor that interleaves two halves, over
the world of events the halves share.

* A kernel reads its inputs and writes a new tensor; what it computes is left out. An exchange
  fences its own events in `dispatch_b` and `combine_b`, so its buffers are final where the ops
  see them. What the MoE context keeps beside the shared expert's output is routing data: it is
  there or not.
* The rotary embedding and the token embedding are done before the streams start, and the
  token embedding's reduction blocks.
* An op runs inside the `deferred_all_reduce` block of its step, where no sequence-parallel and
  no data-parallel attention region is open.

The streams need not run to their end: the prefill stream of an expert-parallel layer raises.
`deferred_reductions_fenced` is about whatever was issued until then.
-/

namespace RapidLlm.Deferred

open OpStreams (Lane)
open Effect

/-! ### Layers -/

structure Attention where
  oProj : RowParallelLinear

structure FusedMLP where
  downProj : RowParallelLinear

/-- A routed FFN, with its shared expert. -/
structure SparseMoeBlock where
  sharedExperts : Option FusedMLP

/-- The exchange of a block without a dispatcher. -/
inductive MoeA2ABackend
  | none
  | allgatherReducescatter

/-- An MLP that runs in one stage. -/
inductive DenseMlp
  | fused (mlp : FusedMLP)
  | moe (block : SparseMoeBlock) (backend : MoeA2ABackend)

inductive Mlp
  | dense (mlp : DenseMlp)
  /-- A block that owns an all-to-all dispatcher. -/
  | expertParallel (block : SparseMoeBlock)

structure DecoderLayer where
  selfAttn : Attention
  mlp : Mlp

/-- Per-micro-batch state the EP op stream threads between its ops. -/
structure MoEOpContext where
  weights : Bool := false
  ids : Bool := false
  handle : Bool := false
  shared : Option Tensor := none
  localIds : Bool := false
  localWeights : Bool := false

/-- What the keys of a micro-batch's state hold. -/
def KeyValue : Key → Type
  | .ar | .attenInfo | .positionEmbeddings | .timeline => Unit
  | .arEvents => EventList
  | .tag => String
  | .moeCtx => MoEOpContext
  | .residual => Option Tensor
  | .attnOutput | .expertOutput | .hiddenStates | .localBatch | .mlpInput | .residualAfterAttn =>
    Tensor

abbrev State := StateDict KeyValue

/-! ### Kernels -/

/-- `skip_rmsnorm`: without a residual the input itself is handed on. -/
def skipRmsnorm (x : Tensor) (residual : Option Tensor) : Comm (Tensor × Tensor) := do
  x.read
  match residual with
  | some residual =>
    residual.read
    return ({}, residual)
  | none => return ({}, x)

def fusedAddRmsnorm (x residual : Tensor) : Comm (Tensor × Tensor) := do
  x.read
  residual.read
  return ({}, residual)

variable (parallel : ParallelState)

def Attention.forward (attention : Attention) (x : Tensor) : Comm Tensor := do
  x.read
  attention.oProj.forward parallel {}

def FusedMLP.forward (mlp : FusedMLP) (x : Tensor) : Comm Tensor := do
  x.read
  mlp.downProj.forward parallel {}

namespace SparseMoeBlock

variable (block : SparseMoeBlock)

def shared (x : Tensor) : Comm (Option Tensor) :=
  match block.sharedExperts with
  | some mlp => do return some (← mlp.forward parallel x)
  | none => return none

/-- The routed result plus the shared expert's, which is fenced before it is read. -/
def finalize (out : Tensor) (shared : Option Tensor) : Comm Tensor :=
  match shared with
  | some shared => do
    fencePendingReads
    out.read
    shared.read
    return {}
  | none => return out

/-- `SparseMoeBlock.forward` of a block without a dispatcher. The routed partial sums are reduced
by a blocking all-reduce. -/
def forward (backend : MoeA2ABackend) (x : Tensor) : Comm Tensor :=
  match backend with
  | .allgatherReducescatter =>
    throw (.runtimeError ("the AgRs MoE backend is selected but no DP-attention region is " ++
      "active: there is no all-to-all handle to fall back on, and the " ++
      "dense path would index local experts with global routing ids"))
  | .none => do
    x.read
    let out : Tensor := {}
    let shared ← block.shared parallel x
    finalize out shared

/-! The ops of the block, over the context of its micro-batch. -/

def opGate (x : Tensor) (ctx : MoEOpContext) : Comm (Tensor × MoEOpContext) := do
  x.read
  return (x, { ctx with weights := true, ids := true })

def opDispatchA (x : Tensor) (ctx : MoEOpContext) : Comm MoEOpContext := do
  if ctx.ids then
    x.read
    return { ctx with handle := true }
  else throw (.assertionError "")

def opSharedExperts (x : Tensor) (ctx : MoEOpContext) : Comm MoEOpContext := do
  let shared ← block.shared parallel x
  return { ctx with shared }

def opDispatchB (ctx : MoEOpContext) : Comm (Tensor × MoEOpContext) :=
  if ctx.handle then return ({}, { ctx with localIds := true, localWeights := true })
  else throw (.assertionError "")

def opExperts (localX : Tensor) (ctx : MoEOpContext) : Comm Tensor := do
  if ctx.localIds ∧ ctx.localWeights then
    localX.read
    return {}
  else throw (.attributeError "'NoneType' object has no attribute 'shape'")

def opCombineA (localOut : Tensor) (ctx : MoEOpContext) : Comm MoEOpContext := do
  if ctx.handle then
    localOut.read
    return ctx
  else throw (.assertionError "")

def opCombineB (ctx : MoEOpContext) : Comm Tensor :=
  if ctx.handle then finalize {} ctx.shared
  else throw (.assertionError "")

end SparseMoeBlock

def DenseMlp.forward (mlp : DenseMlp) (x : Tensor) : Comm Tensor :=
  match mlp with
  | .fused mlp => mlp.forward parallel x
  | .moe block backend => block.forward parallel backend x

/-! ### The ops of a layer -/

/-- Open the op's region on the timeline. -/
def region (state : State) : Except Raised Unit := do
  let _ ← state.read .timeline
  let _ ← state.read .tag

/-- The head of a stage that consumes this half's promises: fence them, then collect what the
stage itself defers. -/
def fencing {α : Type} (state : State) (stage : Comm α) : Comm α := do
  let _ ← state.read .ar
  let events ← state.read .arEvents
  fence events
  collecting events do
    region state
    stage

namespace DecoderLayer

variable (layer : DecoderLayer) (block : SparseMoeBlock)

def forwardAttnStage (hiddenStates : Tensor) (residual : Option Tensor) :
    Comm (Tensor × Tensor) := do
  let (hiddenStates, residual) ← skipRmsnorm hiddenStates residual
  return (← layer.selfAttn.forward parallel hiddenStates, residual)

def opAttn (state : State) : Comm State :=
  fencing state do
    let (hiddenStates, state) ← state.pop .hiddenStates
    let (residual, state) ← state.pop .residual
    let _ ← state.read .attenInfo
    let _ ← state.read .positionEmbeddings
    let (attnOutput, residual) ← layer.forwardAttnStage parallel hiddenStates residual
    let state ← state.write .attnOutput attnOutput
    state.write .residualAfterAttn residual

def opMlp (mlp : DenseMlp) (state : State) : Comm State :=
  fencing state do
    let (attnOutput, state) ← state.pop .attnOutput
    let (residual, state) ← state.pop .residualAfterAttn
    let (normed, residual) ← fusedAddRmsnorm attnOutput residual
    let hiddenStates ← mlp.forward parallel normed
    let state ← state.write .hiddenStates hiddenStates
    state.write .residual (some residual)

/-- Post-attention norm, then routing. -/
def opGate (state : State) : Comm State :=
  fencing state do
    let (attnOutput, state) ← state.pop .attnOutput
    let (residual, state) ← state.pop .residualAfterAttn
    let (normed, residual) ← fusedAddRmsnorm attnOutput residual
    let ctx ← state.read .moeCtx
    let (mlpInput, ctx) ← SparseMoeBlock.opGate normed ctx
    let state ← (state.mutate .moeCtx ctx).write .mlpInput mlpInput
    state.write .residual (some residual)

def opDispatchA (state : State) : Comm State := do
  region state
  let mlpInput ← state.read .mlpInput
  let ctx ← state.read .moeCtx
  let ctx ← SparseMoeBlock.opDispatchA mlpInput ctx
  return state.mutate .moeCtx ctx

def opSharedExperts (state : State) : Comm State := do
  region state
  let mlpInput ← state.read .mlpInput
  let ctx ← state.read .moeCtx
  let ctx ← block.opSharedExperts parallel mlpInput ctx
  return state.mutate .moeCtx ctx

def opDispatchB (state : State) : Comm State := do
  region state
  let (_, state) ← state.pop .mlpInput
  let ctx ← state.read .moeCtx
  let (localBatch, ctx) ← SparseMoeBlock.opDispatchB ctx
  (state.mutate .moeCtx ctx).write .localBatch localBatch

def opExperts (state : State) : Comm State := do
  region state
  let (localBatch, state) ← state.pop .localBatch
  let ctx ← state.read .moeCtx
  let expertOutput ← SparseMoeBlock.opExperts localBatch ctx
  state.write .expertOutput expertOutput

def opCombineA (state : State) : Comm State := do
  region state
  let expertOutput ← state.read .expertOutput
  let ctx ← state.read .moeCtx
  let ctx ← SparseMoeBlock.opCombineA expertOutput ctx
  return state.mutate .moeCtx ctx

def opCombineB (state : State) : Comm State := do
  region state
  let (_, state) ← state.pop .expertOutput
  let ctx ← state.read .moeCtx
  let hiddenStates ← SparseMoeBlock.opCombineB ctx
  state.write .hiddenStates hiddenStates

end DecoderLayer

/-! ### Streams -/

/-- An op of a stream, with the name it is logged under, or a stage boundary. -/
inductive Operation
  | yield
  | op (debugName : String) (fn : State → Comm State)

/-- One micro-batch's whole op stream, plus how far it leads. -/
structure OperationsStrategy where
  operations : List Operation
  tboDeltaStages : Nat := 0

namespace OperationsStrategy

/-- Concatenate per-layer streams; the lead is the widest any layer wants. -/
def concat (items : List OperationsStrategy) : OperationsStrategy :=
  { operations := items.flatMap operations
    tboDeltaStages := (items.map tboDeltaStages).foldl max 0 }

/-- Attention and MLP segments, alternating strictly. -/
def denseLayerStrategy (layer : DecoderLayer) (mlp : DenseMlp) : OperationsStrategy :=
  { operations := [
      .op "attn" (layer.opAttn parallel),
      .yield,
      .op "mlp" (DecoderLayer.opMlp parallel mlp)]
    tboDeltaStages := 0 }

/-- The EP decode stream: yields around both exchanges. -/
def epMoeLayerStrategy (layer : DecoderLayer) (block : SparseMoeBlock) : OperationsStrategy :=
  { operations := [
      .op "attn" (layer.opAttn parallel),
      .yield,
      .op "gate" DecoderLayer.opGate,
      .yield,
      .op "dispatch_a" DecoderLayer.opDispatchA,
      .op "shared_experts" (DecoderLayer.opSharedExperts parallel block),
      .yield,
      .op "dispatch_b" DecoderLayer.opDispatchB,
      .op "experts" DecoderLayer.opExperts,
      .op "combine_a" DecoderLayer.opCombineA,
      .yield,
      .op "combine_b" DecoderLayer.opCombineB]
    tboDeltaStages := 2 }

/-- The EP prefill stream: shared experts move after the combine. -/
def epMoePrefillStrategy (layer : DecoderLayer) (block : SparseMoeBlock) : OperationsStrategy :=
  { operations := [
      .op "attn" (layer.opAttn parallel),
      .yield,
      .op "gate" DecoderLayer.opGate,
      .yield,
      .op "dispatch_a" DecoderLayer.opDispatchA,
      .yield,
      .op "dispatch_b" DecoderLayer.opDispatchB,
      .op "experts" DecoderLayer.opExperts,
      .op "combine_a" DecoderLayer.opCombineA,
      .yield,
      .op "shared_experts" (DecoderLayer.opSharedExperts parallel block),
      .op "combine_b" DecoderLayer.opCombineB]
    tboDeltaStages := 0 }

/-- Pick the layer's stream from its own op surface. -/
def layerStrategy (isPrefill : Bool) (layer : DecoderLayer) : OperationsStrategy :=
  match layer.mlp with
  | .expertParallel block =>
    if isPrefill then epMoePrefillStrategy parallel layer block
    else epMoeLayerStrategy parallel layer block
  | .dense mlp => denseLayerStrategy parallel layer mlp

/-- Build the op stream for a whole layer stack; an empty stack has no first layer to pick the
builder by. -/
def initNewTbo (layers : List DecoderLayer) (isPrefill : Bool) :
    Except Raised OperationsStrategy :=
  if layers.isEmpty then .error (.indexError "list index out of range")
  else .ok (concat (layers.map (layerStrategy parallel isPrefill)))

end OperationsStrategy

/-! ### The executor -/

/-- The ops between two yields. -/
abbrev Stage := List (State → Comm State)

/-- Cut a stream at its yields. -/
def cutStages : List Operation → List Stage
  | [] => [[]]
  | .yield :: operations => [] :: cutStages operations
  | .op _ fn :: operations =>
    match cutStages operations with
    | [] => [[fn]]
    | stage :: stages => (fn :: stage) :: stages

/-- `_convert_operations_to_stages`. -/
def convertOperationsToStages (operations : List Operation) : Except Raised (List Stage) :=
  if (cutStages operations).any List.isEmpty then
    .error (.valueError ("a yield must separate two non-empty stages; a leading or trailing " ++
      "yield makes the stage count — and so delta_stages — ambiguous"))
  else .ok (cutStages operations)

/-- Walks one op stream stage by stage, threading one state through it. -/
structure StageExecutor where
  debugName : String
  stages : List Stage
  state : State
  index : Nat := 0

namespace StageExecutor

variable (executor : StageExecutor)

def numStages : Nat := executor.stages.length

def done : Bool := executor.index ≥ executor.numStages

/-- Run the next stage's ops in order. -/
def next : Comm StageExecutor :=
  match executor.stages[executor.index]? with
  | none => throw (.assertionError
      s!"{executor.debugName}: all {executor.numStages} stages ran")
  | some stage => do
    let state ← stage.foldlM (fun state fn => fn state) executor.state
    return { executor with state, index := executor.index + 1 }

/-- `for _ in range(n): executor.next()`. -/
def advance : Nat → StageExecutor → Comm StageExecutor
  | 0, executor => return executor
  | n + 1, executor => do advance n (← executor.next)

/-- `for _ in range(n): executor_a.next(); executor_b.next()`. -/
def alternate : Nat → StageExecutor → StageExecutor → Comm (StageExecutor × StageExecutor)
  | 0, a, b => return (a, b)
  | n + 1, a, b => do
    let a ← a.next
    let b ← b.next
    alternate n a b

end StageExecutor

/-- Run one op stream to completion, with nothing interleaved. -/
def executeOperations (state : State) (operations : List Operation) : Comm State := do
  let stages ← convertOperationsToStages operations
  let executor : StageExecutor := { debugName := "serial", stages, state }
  let executor ← executor.advance executor.numStages
  if executor.done then return executor.state
  else throw (.assertionError "the serial stream did not run to completion")

/-- Run two micro-batch streams interleaved, stage by stage. -/
def executeOverlappedOperations (stateA stateB : State) (operationsA operationsB : List Operation)
    (deltaA deltaB : Int) : Comm (State × State) :=
  if deltaA ≠ 0 then
    throw (.valueError s!"the lead stream's delta must be 0, got {deltaA}")
  else if deltaB < 0 then
    throw (.valueError s!"delta_stages must be >= 0, got {deltaB}")
  else do
    let stagesA ← convertOperationsToStages operationsA
    let stagesB ← convertOperationsToStages operationsB
    let a : StageExecutor := { debugName := "a", stages := stagesA, state := stateA }
    let b : StageExecutor := { debugName := "b", stages := stagesB, state := stateB }
    let a ← a.advance deltaB.toNat
    let (a, b) ← StageExecutor.alternate (a.numStages - deltaB.toNat) a b
    let b ← b.advance deltaB.toNat
    if a.done && b.done then return (a.state, b.state)
    else throw (.assertionError "one stream ran out of stages before the other")

/-! ### A step -/

/-- `_expert_parallel`: some layer has a dispatcher. -/
def expertParallel (layers : List DecoderLayer) : Bool :=
  layers.any fun layer => match layer.mlp with
    | .expertParallel _ => true
    | .dense _ => false

def persistentKeys (layers : List DecoderLayer) : List Key :=
  [.ar, .arEvents, .attenInfo, .positionEmbeddings, .tag, .timeline] ++
    if expertParallel layers then [.moeCtx] else []

/-- One micro-batch's state: the embedded tokens plus the overlap plumbing. -/
def initialState (layers : List DecoderLayer) (half : Lane) : State where
  data
    | .hiddenStates => some {}
    | .residual => some none
    | .positionEmbeddings | .attenInfo | .ar | .timeline => some ()
    | .arEvents => some (.collected half)
    | .tag => some (match half with | .a => "a" | .b => "b")
    | .moeCtx => if expertParallel layers then some {} else none
    | .attnOutput | .expertOutput | .localBatch | .mlpInput | .residualAfterAttn => none

/-- Final norm and vocabulary projection for one micro-batch. -/
def head (layers : List DecoderLayer) (state : State) : Comm Tensor := do
  let (hiddenStates, state) ← state.pop .hiddenStates
  let (residual, state) ← state.pop .residual
  let _ ← state.clear (persistentKeys layers)
  let (hidden, _) ← skipRmsnorm hiddenStates residual
  hidden.read
  return {}

/-- `_model_forward_tbo`: two halves interleaved, then the head of each. -/
def modelForwardTbo (layers : List DecoderLayer) (isPrefill : Bool) : Comm (Tensor × Tensor) := do
  let strategy ← OperationsStrategy.initNewTbo parallel layers isPrefill
  let (a, b) ← deferredAllReduce do
    let outputs ← executeOverlappedOperations (initialState layers .a) (initialState layers .b)
      strategy.operations strategy.operations 0 strategy.tboDeltaStages
    drain
    return outputs
  let logitsA ← head layers a
  let logitsB ← head layers b
  return (logitsA, logitsB)

/-- `_model_forward_non_tbo`: one micro-batch through the same stream. -/
def modelForwardNonTbo (layers : List DecoderLayer) (isPrefill : Bool) : Comm Tensor := do
  let strategy ← OperationsStrategy.initNewTbo parallel layers isPrefill
  let state ← deferredAllReduce do
    let state ← executeOperations (initialState layers .a) strategy.operations
    drain
    return state
  head layers state

/-! ### What holds of a half's state -/

/-- What is known of the value under a key. A promise is held in the way `promised` says; the
residual stream and the tensors of the exchange can be read at any time. -/
def KeyHolds (promised : World → Tensor → Prop) (half : Lane) (world : World) :
    (key : Key) → KeyValue key → Prop
  | .hiddenStates, tensor => promised world tensor
  | .attnOutput, tensor => promised world tensor
  | .residual, residual => ∀ tensor, residual = some tensor → Settled world tensor
  | .residualAfterAttn, tensor => Settled world tensor
  | .mlpInput, tensor => Settled world tensor
  | .localBatch, tensor => Settled world tensor
  | .expertOutput, tensor => Settled world tensor
  | .moeCtx, ctx => ∀ tensor ∈ ctx.shared, HeldBy .outstanding world tensor
  | .arEvents, list => list = .collected half
  | .ar, _ | .attenInfo, _ | .positionEmbeddings, _ | .tag, _ | .timeline, _ => True

def StateHolds (promised : World → Tensor → Prop) (half : Lane) (world : World) (state : State) :
    Prop :=
  ∀ key value, state.data key = some value → KeyHolds promised half world key value

/-- A half between two ops: what it deferred is in its own list. -/
abbrev Between (half : Lane) : World → State → Prop :=
  StateHolds (HeldBy (.collected half)) half

/-- A half inside a stage that fenced: everything but the shared expert's output can be read. -/
abbrev Fenced (half : Lane) : World → State → Prop := StateHolds Settled half

variable {half : Lane} {world world' : World} {state state' : State}
variable {promised promised' : World → Tensor → Prop}

theorem KeyHolds.grow {key : Key} {value : KeyValue key}
    (h : KeyHolds promised half world key value) (hgrow : Grows world world')
    (hpromised : ∀ tensor, promised world tensor → promised' world' tensor) :
    KeyHolds promised' half world' key value := by
  cases key with
  | hiddenStates | attnOutput => exact hpromised _ h
  | residual => exact fun tensor hmem => (h tensor hmem).grow hgrow
  | residualAfterAttn | mlpInput | localBatch | expertOutput => exact Settled.grow h hgrow
  | moeCtx => exact fun tensor hmem => (h tensor hmem).grow hgrow
  | arEvents => exact h
  | ar | attenInfo | positionEmbeddings | tag | timeline => trivial

theorem StateHolds.carry (h : StateHolds promised half world state) (hgrow : Grows world world')
    (hpromised : ∀ tensor, promised world tensor → promised' world' tensor) :
    StateHolds promised' half world' state :=
  fun key value hdata => (h key value hdata).grow hgrow hpromised

theorem Between.grow (h : Between half world state) (hgrow : Grows world world') :
    Between half world' state :=
  StateHolds.carry h hgrow fun _ htensor => htensor.grow hgrow

theorem Fenced.grow (h : Fenced half world state) (hgrow : Grows world world') :
    Fenced half world' state :=
  StateHolds.carry h hgrow fun _ htensor => htensor.grow hgrow

/-- What can be read is held. -/
theorem Fenced.between (h : Fenced half world state) : Between half world state :=
  StateHolds.carry h (refl world) fun _ => Settled.heldBy

theorem StateHolds.update (h : StateHolds promised half world state) {key : Key}
    {value : Option (KeyValue key)} (hvalue : ∀ v ∈ value, KeyHolds promised half world key v) :
    StateHolds promised half world { data := Function.update state.data key value } := by
  intro key' value' hdata
  dsimp only at hdata
  by_cases hkey : key' = key
  · subst hkey
    rw [Function.update_self] at hdata
    exact hvalue value' hdata
  · rw [Function.update_of_ne hkey] at hdata
    exact h key' value' hdata

theorem StateHolds.mutate (h : StateHolds promised half world state) {key : Key}
    {value : KeyValue key} (hvalue : KeyHolds promised half world key value) :
    StateHolds promised half world (state.mutate key value) := by
  refine h.update fun v hv => ?_
  cases hv
  exact hvalue

/-- The shared output of a new context is in the context's list of events. -/
theorem StateHolds.mutateCtx (h : StateHolds promised half world state) {ctx : MoEOpContext}
    (hshared : ∀ tensor ∈ ctx.shared, HeldBy .outstanding world tensor) :
    StateHolds promised half world (state.mutate .moeCtx ctx) :=
  h.mutate hshared

theorem StateHolds.read (h : StateHolds promised half world state) {key : Key}
    {value : KeyValue key} (hread : state.read key = .ok value) :
    KeyHolds promised half world key value := by
  unfold StateDict.read at hread
  split at hread
  · cases hread
    exact h key value ‹_›
  · cases hread

theorem StateHolds.pop (h : StateHolds promised half world state) {key : Key}
    {value : KeyValue key} (hpop : state.pop key = .ok (value, state')) :
    KeyHolds promised half world key value ∧ StateHolds promised half world state' := by
  unfold StateDict.pop at hpop
  split at hpop
  · cases hpop
    exact ⟨h key value ‹_›, h.update fun _ hv => (by cases hv)⟩
  · cases hpop

theorem StateHolds.write (h : StateHolds promised half world state) {key : Key}
    {value : KeyValue key} (hwrite : state.write key value = .ok state')
    (hvalue : KeyHolds promised half world key value) : StateHolds promised half world state' := by
  unfold StateDict.write at hwrite
  split at hwrite
  · cases hwrite
  · cases hwrite
    exact h.mutate hvalue

/-! ### Kernels and layers -/

theorem skipRmsnorm_quiet {x : Tensor} {residual : Option Tensor} (hx : Settled world x)
    (hresidual : ∀ tensor, residual = some tensor → Settled world tensor) :
    Guarantees Sound Quiet world (skipRmsnorm x residual) fun out world' =>
      Settled world' out.1 ∧ Settled world' out.2 := by
  refine (read_quiet hx).bind fun _ mid hquiet _ => ?_
  cases residual with
  | none => exact Guarantees.of_pure fun _ => ⟨settled_final, hx.grow hquiet.grows⟩
  | some residual =>
    have hread : Settled mid residual := (hresidual residual rfl).grow hquiet.grows
    refine (read_quiet hread).bind fun _ last hquiet' _ => ?_
    exact Guarantees.of_pure fun _ => ⟨settled_final, hread.grow hquiet'.grows⟩

theorem fusedAddRmsnorm_guarantees {x residual : Tensor} (hx : Settled world x)
    (hresidual : Settled world residual) :
    Guarantees Sound Grows world (fusedAddRmsnorm x residual) fun out world' =>
      Settled world' out.1 ∧ Settled world' out.2 := by
  refine (read_guarantees hx).bind fun _ mid hgrow _ => ?_
  have hread : Settled mid residual := hresidual.grow hgrow
  refine (read_guarantees hread).bind fun _ last hgrow' _ => ?_
  exact Guarantees.of_pure fun _ => ⟨settled_final, hread.grow hgrow'⟩

/-- A layer's output is held by the context, and by the collector if one is open. -/
abbrev Handed (collector : Option EventList) (out : Tensor) (world : World) : Prop :=
  ∀ list, list = .outstanding ∨ collector = some list → HeldBy list world out

theorem Attention.forward_guarantees (attention : Attention) {x : Tensor} (hx : Settled world x) :
    Guarantees Sound Grows world (attention.forward parallel x) (Handed world.collector) := by
  refine (read_guarantees hx).bind fun _ mid hgrow _ => ?_
  rw [← hgrow.collector]
  exact attention.oProj.forward_guarantees parallel settled_final

theorem FusedMLP.forward_guarantees (mlp : FusedMLP) {x : Tensor} (hx : Settled world x) :
    Guarantees Sound Grows world (mlp.forward parallel x) (Handed world.collector) := by
  refine (read_guarantees hx).bind fun _ mid hgrow _ => ?_
  rw [← hgrow.collector]
  exact mlp.downProj.forward_guarantees parallel settled_final

namespace SparseMoeBlock

theorem shared_guarantees (block : SparseMoeBlock) {x : Tensor} (hx : Settled world x) :
    Guarantees Sound Grows world (block.shared parallel x) fun out world' =>
      ∀ tensor ∈ out, Handed world.collector tensor world' := by
  unfold shared
  cases block.sharedExperts with
  | none => exact Guarantees.of_pure fun _ _ hmem => (by cases hmem)
  | some mlp =>
    refine (mlp.forward_guarantees parallel hx).bind fun out last _ hout => ?_
    refine Guarantees.of_pure fun _ tensor hmem => ?_
    cases hmem
    exact hout

/-- The shared expert's output is fenced where it is added, in the list that holds it: the
collector's inside a stage that opened one, the context's outside. -/
theorem finalize_guarantees {out : Tensor} {shared : Option Tensor} (hout : Settled world out)
    (hshared : ∀ tensor ∈ shared, HeldBy (world.collector.getD .outstanding) world tensor) :
    Guarantees Sound Grows world (finalize out shared) fun out world' => Settled world' out := by
  cases shared with
  | none => exact Guarantees.of_pure fun _ => hout
  | some shared =>
    refine fencePendingReads_guarantees.bind fun _ fenced hgrow hwaits => ?_
    have hread := (hshared shared rfl).settled hwaits hgrow
    refine (read_guarantees (hout.grow hgrow)).bind fun _ mid hgrow' _ => ?_
    refine (read_guarantees (hread.grow hgrow')).bind fun _ last _ _ => ?_
    exact Guarantees.of_pure fun _ => settled_final

theorem forward_guarantees (block : SparseMoeBlock) (backend : MoeA2ABackend) {x : Tensor}
    (hx : Settled world x) :
    Guarantees Sound Grows world (block.forward parallel backend x) fun out world' =>
      Settled world' out := by
  cases backend with
  | allgatherReducescatter => exact Guarantees.of_throw
  | none =>
    refine (read_guarantees hx).bind fun _ mid hgrow _ => ?_
    refine (block.shared_guarantees parallel (hx.grow hgrow)).bind fun out last hgrow' hout => ?_
    refine finalize_guarantees settled_final fun tensor hmem => hout tensor hmem _ ?_
    rw [hgrow'.collector]
    cases mid.collector with
    | none => exact .inl rfl
    | some list => exact .inr rfl

/-! What the ops of the block make of the context's shared output, and of their tensor. -/

variable {ctx : MoEOpContext}

theorem opGate_guarantees {x : Tensor} (hx : Settled world x) :
    Guarantees Sound Grows world (opGate x ctx) fun out world' =>
      Settled world' out.1 ∧ out.2.shared = ctx.shared :=
  (read_guarantees hx).bind fun _ _ hgrow _ => Guarantees.of_pure fun _ => ⟨hx.grow hgrow, rfl⟩

theorem opDispatchA_guarantees {x : Tensor} (hx : Settled world x) :
    Guarantees Sound Grows world (opDispatchA x ctx) fun out _ => out.shared = ctx.shared := by
  unfold opDispatchA
  split
  · exact (read_guarantees hx).bind fun _ _ _ _ => Guarantees.of_pure fun _ => rfl
  · exact Guarantees.of_throw

theorem opSharedExperts_guarantees (block : SparseMoeBlock) {x : Tensor} (hx : Settled world x) :
    Guarantees Sound Grows world (block.opSharedExperts parallel x ctx) fun out world' =>
      ∀ tensor ∈ out.shared, HeldBy .outstanding world' tensor :=
  (block.shared_guarantees parallel hx).bind fun _ _ _ hout =>
    Guarantees.of_pure fun _ tensor hmem => hout tensor hmem .outstanding (.inl rfl)

theorem opDispatchB_guarantees : Guarantees Sound Grows world (opDispatchB ctx) fun out world' =>
    Settled world' out.1 ∧ out.2.shared = ctx.shared := by
  unfold opDispatchB
  split
  · exact Guarantees.of_pure fun _ => ⟨settled_final, rfl⟩
  · exact Guarantees.of_throw

theorem opExperts_guarantees {x : Tensor} (hx : Settled world x) :
    Guarantees Sound Grows world (opExperts x ctx) fun out world' => Settled world' out := by
  unfold opExperts
  split
  · exact (read_guarantees hx).bind fun _ _ _ _ => Guarantees.of_pure fun _ => settled_final
  · exact Guarantees.of_throw

theorem opCombineA_guarantees {x : Tensor} (hx : Settled world x) :
    Guarantees Sound Grows world (opCombineA x ctx) fun out _ => out.shared = ctx.shared := by
  unfold opCombineA
  split
  · exact (read_guarantees hx).bind fun _ _ _ _ => Guarantees.of_pure fun _ => rfl
  · exact Guarantees.of_throw

theorem opCombineB_guarantees (hcollector : world.collector = none)
    (hshared : ∀ tensor ∈ ctx.shared, HeldBy .outstanding world tensor) :
    Guarantees Sound Grows world (opCombineB ctx) fun out world' => Settled world' out := by
  unfold opCombineB
  split
  · refine finalize_guarantees settled_final ?_
    rw [hcollector]
    exact hshared
  · exact Guarantees.of_throw

end SparseMoeBlock

/-- A dense MLP inside a stage with a collector. -/
theorem DenseMlp.forward_guarantees (mlp : DenseMlp) {x : Tensor} {list : EventList}
    (hx : Settled world x) (hcollector : world.collector = some list) :
    Guarantees Sound Grows world (mlp.forward parallel x) fun out world' =>
      HeldBy list world' out := by
  cases mlp with
  | fused mlp =>
    exact (mlp.forward_guarantees parallel hx).mono fun _ _ _ _ h => h list (.inr hcollector)
  | moe block backend =>
    exact (block.forward_guarantees parallel backend hx).mono fun _ _ _ _ h => h.heldBy

/-! ### The ops -/

/-- A stage that fences first may read every promise of its half. -/
theorem fencing_guarantees {α : Type} {stage : Comm α} {Q : α → World → Prop}
    (hstate : Between half world state)
    (hstage : ∀ inside : World, inside.collector = some (.collected half) →
      Fenced half inside state → Guarantees Sound Grows inside stage Q)
    (hQ : ∀ a (world' : World) collector, Q a world' → Q a { world' with collector }) :
    Guarantees Sound Grows world (fencing state stage) Q := by
  refine Guarantees.lift_bind fun _ _ => Guarantees.lift_bind fun list hlist => ?_
  cases hstate.read hlist
  refine (fence_guarantees _).bind fun _ fenced hgrow hwaits => ?_
  have hfenced : Fenced half fenced state :=
    StateHolds.carry hstate hgrow fun _ htensor => htensor.settled hwaits.2 hgrow
  refine collecting_guarantees (Guarantees.lift_bind fun _ _ => ?_)
  exact (hstage { fenced with collector := some (.collected half) } rfl hfenced).mono
    fun a world' _ _ h => hQ a world' _ h

/-- An op keeps what is known of its half. -/
def OpHolds (half : Lane) (op : State → Comm State) : Prop :=
  ∀ (world : World) (state : State), world.collector = none → Between half world state →
    Guarantees Sound Grows world (op state) fun state' world' => Between half world' state'

namespace DecoderLayer

theorem forwardAttnStage_guarantees (layer : DecoderLayer) {hiddenStates : Tensor}
    {residual : Option Tensor} (hhidden : Settled world hiddenStates)
    (hresidual : ∀ tensor, residual = some tensor → Settled world tensor) :
    Guarantees Sound Grows world (layer.forwardAttnStage parallel hiddenStates residual)
      fun out world' => Handed world.collector out.1 world' ∧ Settled world' out.2 := by
  have hnorm := (skipRmsnorm_quiet hhidden hresidual).weaken fun _ => Quiet.grows
  refine hnorm.bind fun normed mid hgrow hnormed => ?_
  refine (layer.selfAttn.forward_guarantees parallel hnormed.1).bind fun out last hgrow' hout => ?_
  rw [hgrow.collector] at hout
  exact Guarantees.of_pure fun _ => ⟨hout, hnormed.2.grow hgrow'⟩

theorem opAttn_holds (layer : DecoderLayer) : OpHolds half (layer.opAttn parallel) := by
  intro world state _ hstate
  refine fencing_guarantees hstate (fun inside hcollector hfenced => ?_) fun _ _ _ h => h
  refine Guarantees.lift_bind fun popped hpop => ?_
  obtain ⟨hhidden, hfenced⟩ := hfenced.pop hpop
  refine Guarantees.lift_bind fun popped' hpop' => ?_
  obtain ⟨hresidual, hfenced⟩ := hfenced.pop hpop'
  refine Guarantees.lift_bind fun _ _ => Guarantees.lift_bind fun _ _ => ?_
  refine (layer.forwardAttnStage_guarantees parallel hhidden hresidual).bind
    fun out last hgrow hout => ?_
  have hbetween := (Fenced.grow hfenced hgrow).between
  refine Guarantees.lift_bind fun written hwrite => Guarantees.of_lift fun written' hwrite' => ?_
  exact (hbetween.write hwrite (hout.1 _ (.inr hcollector))).write hwrite' hout.2

theorem opMlp_holds (mlp : DenseMlp) : OpHolds half (opMlp parallel mlp) := by
  intro world state _ hstate
  refine fencing_guarantees hstate (fun inside hcollector hfenced => ?_) fun _ _ _ h => h
  refine Guarantees.lift_bind fun popped hpop => ?_
  obtain ⟨hattn, hfenced⟩ := hfenced.pop hpop
  refine Guarantees.lift_bind fun popped' hpop' => ?_
  obtain ⟨hresidual, hfenced⟩ := hfenced.pop hpop'
  refine (fusedAddRmsnorm_guarantees hattn hresidual).bind fun normed mid hgrow hnormed => ?_
  have hcollector' := hgrow.collector.trans hcollector
  refine (mlp.forward_guarantees parallel hnormed.1 hcollector').bind fun out last hgrow' hout => ?_
  have hbetween := (Fenced.grow (Fenced.grow hfenced hgrow) hgrow').between
  have hkept : ∀ tensor, some normed.2 = some tensor → Settled last tensor := by
    intro tensor heq
    cases heq
    exact hnormed.2.grow hgrow'
  refine Guarantees.lift_bind fun written hwrite => Guarantees.of_lift fun written' hwrite' => ?_
  exact (hbetween.write hwrite hout).write hwrite' hkept

theorem opGate_holds : OpHolds half opGate := by
  intro world state _ hstate
  refine fencing_guarantees hstate (fun inside _ hfenced => ?_) fun _ _ _ h => h
  refine Guarantees.lift_bind fun popped hpop => ?_
  obtain ⟨hattn, hfenced⟩ := hfenced.pop hpop
  refine Guarantees.lift_bind fun popped' hpop' => ?_
  obtain ⟨hresidual, hfenced⟩ := hfenced.pop hpop'
  refine (fusedAddRmsnorm_guarantees hattn hresidual).bind fun normed mid hgrow hnormed => ?_
  have hfenced := Fenced.grow hfenced hgrow
  refine Guarantees.lift_bind fun ctx hctx => ?_
  refine (SparseMoeBlock.opGate_guarantees hnormed.1).bind fun routed last hgrow' hrouted => ?_
  have hbetween := (Fenced.grow hfenced hgrow').between
  have hshared := hbetween.read hctx
  have hkept : ∀ tensor, some normed.2 = some tensor → Settled last tensor := by
    intro tensor heq
    cases heq
    exact hnormed.2.grow hgrow'
  rw [KeyHolds, ← hrouted.2] at hshared
  refine Guarantees.lift_bind fun written hwrite => Guarantees.of_lift fun written' hwrite' => ?_
  exact ((hbetween.mutateCtx hshared).write hwrite hrouted.1).write hwrite' hkept

theorem opDispatchA_holds : OpHolds half opDispatchA := by
  intro world state _ hstate
  refine Guarantees.lift_bind fun _ _ => Guarantees.lift_bind fun mlpInput hinput => ?_
  refine Guarantees.lift_bind fun ctx hctx => ?_
  refine (SparseMoeBlock.opDispatchA_guarantees (hstate.read hinput)).bind
    fun ctx' last hgrow hctx' => Guarantees.of_pure fun _ => ?_
  have hbetween := Between.grow hstate hgrow
  have hshared := hbetween.read hctx
  rw [KeyHolds, ← hctx'] at hshared
  exact hbetween.mutateCtx hshared

theorem opSharedExperts_holds (block : SparseMoeBlock) :
    OpHolds half (opSharedExperts parallel block) := by
  intro world state _ hstate
  refine Guarantees.lift_bind fun _ _ => Guarantees.lift_bind fun mlpInput hinput => ?_
  refine Guarantees.lift_bind fun ctx _ => ?_
  refine (block.opSharedExperts_guarantees parallel (hstate.read hinput)).bind
    fun ctx' last hgrow hshared => Guarantees.of_pure fun _ => ?_
  exact (Between.grow hstate hgrow).mutateCtx hshared

theorem opDispatchB_holds : OpHolds half opDispatchB := by
  intro world state _ hstate
  refine Guarantees.lift_bind fun _ _ => Guarantees.lift_bind fun popped hpop => ?_
  obtain ⟨-, hstate⟩ := hstate.pop hpop
  refine Guarantees.lift_bind fun ctx hctx => ?_
  refine SparseMoeBlock.opDispatchB_guarantees.bind fun received last hgrow hreceived =>
    Guarantees.of_lift fun written hwrite => ?_
  have hbetween := Between.grow hstate hgrow
  have hshared := hbetween.read hctx
  rw [KeyHolds, ← hreceived.2] at hshared
  exact (hbetween.mutateCtx hshared).write hwrite hreceived.1

theorem opExperts_holds : OpHolds half opExperts := by
  intro world state _ hstate
  refine Guarantees.lift_bind fun _ _ => Guarantees.lift_bind fun popped hpop => ?_
  obtain ⟨hbatch, hstate⟩ := hstate.pop hpop
  refine Guarantees.lift_bind fun ctx _ => ?_
  refine (SparseMoeBlock.opExperts_guarantees hbatch).bind fun out last hgrow hout =>
    Guarantees.of_lift fun written hwrite => ?_
  exact (Between.grow hstate hgrow).write hwrite hout

theorem opCombineA_holds : OpHolds half opCombineA := by
  intro world state _ hstate
  refine Guarantees.lift_bind fun _ _ => Guarantees.lift_bind fun expertOutput hexpert => ?_
  refine Guarantees.lift_bind fun ctx hctx => ?_
  refine (SparseMoeBlock.opCombineA_guarantees (hstate.read hexpert)).bind
    fun ctx' last hgrow hctx' => Guarantees.of_pure fun _ => ?_
  have hbetween := Between.grow hstate hgrow
  have hshared := hbetween.read hctx
  rw [KeyHolds, ← hctx'] at hshared
  exact hbetween.mutateCtx hshared

/-- Outside every collector: the shared expert's event is in the context's list. -/
theorem opCombineB_holds : OpHolds half opCombineB := by
  intro world state hcollector hstate
  refine Guarantees.lift_bind fun _ _ => Guarantees.lift_bind fun popped hpop => ?_
  obtain ⟨-, hstate⟩ := hstate.pop hpop
  refine Guarantees.lift_bind fun ctx hctx => ?_
  refine (SparseMoeBlock.opCombineB_guarantees hcollector (hstate.read hctx)).bind
    fun out last hgrow hout => Guarantees.of_lift fun written hwrite => ?_
  exact (Between.grow hstate hgrow).write hwrite hout.heldBy

end DecoderLayer

/-! ### Streams, stages and the executor -/

/-- Every op of a stream keeps what is known of its half. -/
def StreamHolds (half : Lane) (operations : List Operation) : Prop :=
  ∀ name fn, .op name fn ∈ operations → OpHolds half fn

/-- The streams of a layer, whatever its MLP, are made of the ops above. -/
theorem layerStrategy_holds (isPrefill : Bool) (layer : DecoderLayer) :
    StreamHolds half (OperationsStrategy.layerStrategy parallel isPrefill layer).operations := by
  open DecoderLayer in
  intro name fn hmem
  unfold OperationsStrategy.layerStrategy at hmem
  split at hmem
  · rename_i block _
    split at hmem
    all_goals
      simp only [OperationsStrategy.epMoePrefillStrategy, OperationsStrategy.epMoeLayerStrategy,
        List.mem_cons, Operation.op.injEq, reduceCtorEq, false_or, List.not_mem_nil, or_false] at hmem
      obtain ⟨-, rfl⟩ | ⟨-, rfl⟩ | ⟨-, rfl⟩ | ⟨-, rfl⟩ | ⟨-, rfl⟩ | ⟨-, rfl⟩ | ⟨-, rfl⟩ | ⟨-, rfl⟩ :=
        hmem
    · exact opAttn_holds parallel layer
    · exact opGate_holds
    · exact opDispatchA_holds
    · exact opDispatchB_holds
    · exact opExperts_holds
    · exact opCombineA_holds
    · exact opSharedExperts_holds parallel block
    · exact opCombineB_holds
    · exact opAttn_holds parallel layer
    · exact opGate_holds
    · exact opDispatchA_holds
    · exact opSharedExperts_holds parallel block
    · exact opDispatchB_holds
    · exact opExperts_holds
    · exact opCombineA_holds
    · exact opCombineB_holds
  · rename_i mlp _
    simp only [OperationsStrategy.denseLayerStrategy, List.mem_cons, Operation.op.injEq,
      reduceCtorEq, false_or, List.not_mem_nil, or_false] at hmem
    obtain ⟨-, rfl⟩ | ⟨-, rfl⟩ := hmem
    · exact opAttn_holds parallel layer
    · exact opMlp_holds parallel mlp

theorem initNewTbo_holds {layers : List DecoderLayer} {isPrefill : Bool}
    {strategy : OperationsStrategy}
    (h : OperationsStrategy.initNewTbo parallel layers isPrefill = .ok strategy) :
    StreamHolds half strategy.operations := by
  unfold OperationsStrategy.initNewTbo at h
  split at h
  · cases h
  · cases h
    intro name fn hmem
    obtain ⟨item, hitem, hmem⟩ := List.mem_flatMap.mp hmem
    obtain ⟨layer, -, rfl⟩ := List.mem_map.mp hitem
    exact layerStrategy_holds parallel isPrefill layer name fn hmem

/-- The ops of the stages are those of the stream. -/
theorem cutStages_holds {operations : List Operation} (h : StreamHolds half operations) :
    ∀ stage ∈ cutStages operations, ∀ fn ∈ stage, OpHolds half fn := by
  induction operations with
  | nil => simp [cutStages]
  | cons operation operations ih =>
    have ih := ih fun name fn hmem => h name fn (List.mem_cons_of_mem _ hmem)
    cases operation with
    | yield =>
      intro stage hstage
      rcases List.mem_cons.mp hstage with rfl | hstage
      · simp
      · exact ih stage hstage
    | op name fn =>
      have hfn : OpHolds half fn := h name fn List.mem_cons_self
      unfold cutStages
      split
      · simpa using hfn
      · rename_i first rest hcut
        rw [hcut] at ih
        intro stage hstage fn' hmem
        rcases List.mem_cons.mp hstage with rfl | hstage
        · rcases List.mem_cons.mp hmem with rfl | hmem
          · exact hfn
          · exact ih first List.mem_cons_self fn' hmem
        · exact ih stage (List.mem_cons_of_mem _ hstage) fn' hmem

/-- An executor of a half whose ops keep what is known of it. -/
structure StageExecutor.Holds (half : Lane) (world : World) (executor : StageExecutor) : Prop where
  ops : ∀ stage ∈ executor.stages, ∀ fn ∈ stage, OpHolds half fn
  state : Between half world executor.state

namespace StageExecutor

variable {executor a b : StageExecutor}

theorem Holds.grow (h : Holds half world executor) (hgrow : Grows world world') :
    Holds half world' executor :=
  ⟨h.ops, Between.grow h.state hgrow⟩

theorem runStage_guarantees (stage : Stage) (hops : ∀ fn ∈ stage, OpHolds half fn)
    (hcollector : world.collector = none) (hstate : Between half world state) :
    Guarantees Sound Grows world (stage.foldlM (fun state fn => fn state) state)
      fun state' world' => Between half world' state' := by
  induction stage generalizing world state with
  | nil => exact Guarantees.of_pure fun _ => hstate
  | cons fn stage ih =>
    refine (hops fn List.mem_cons_self world state hcollector hstate).bind
      fun state' mid hgrow hstate' => ?_
    exact ih (fun fn' hmem => hops fn' (List.mem_cons_of_mem _ hmem))
      (hgrow.collector.trans hcollector) hstate'

theorem next_guarantees (hcollector : world.collector = none) (h : Holds half world executor) :
    Guarantees Sound Grows world executor.next fun executor' world' =>
      Holds half world' executor' := by
  unfold next
  split
  · exact Guarantees.of_throw
  · rename_i stage hstage
    have hmem := List.mem_of_getElem? hstage
    refine (runStage_guarantees stage (h.ops stage hmem) hcollector h.state).bind
      fun state' last _ hstate' => Guarantees.of_pure fun _ => ⟨h.ops, hstate'⟩

theorem advance_guarantees (n : Nat) (hcollector : world.collector = none)
    (h : Holds half world executor) :
    Guarantees Sound Grows world (advance n executor) fun executor' world' =>
      Holds half world' executor' := by
  induction n generalizing world executor with
  | zero => exact Guarantees.of_pure fun _ => h
  | succ n ih =>
    refine (next_guarantees hcollector h).bind fun executor' mid hgrow h' => ?_
    exact ih (hgrow.collector.trans hcollector) h'

/-- Whatever one half does, what is known of the other stays. -/
theorem alternate_guarantees (n : Nat) (hcollector : world.collector = none)
    (ha : Holds .a world a) (hb : Holds .b world b) :
    Guarantees Sound Grows world (alternate n a b) fun out world' =>
      Holds .a world' out.1 ∧ Holds .b world' out.2 := by
  induction n generalizing world a b with
  | zero => exact Guarantees.of_pure fun _ => ⟨ha, hb⟩
  | succ n ih =>
    refine (next_guarantees hcollector ha).bind fun a' mid hgrow ha' => ?_
    have hcollector' := hgrow.collector.trans hcollector
    refine (next_guarantees hcollector' (hb.grow hgrow)).bind fun b' mid' hgrow' hb' => ?_
    exact ih (hgrow'.collector.trans hcollector') (ha'.grow hgrow') hb'

end StageExecutor

section Schedules

variable {operations : List Operation}

theorem executeOperations_guarantees (hops : StreamHolds half operations)
    (hcollector : world.collector = none) (hstate : Between half world state) :
    Guarantees Sound Grows world (executeOperations state operations) fun state' world' =>
      Between half world' state' := by
  refine Guarantees.lift_bind fun stages hstages => ?_
  unfold convertOperationsToStages at hstages
  split at hstages
  · cases hstages
  · cases hstages
    refine (StageExecutor.advance_guarantees _ hcollector ⟨cutStages_holds hops, hstate⟩).bind
      fun executor last _ hexecutor => ?_
    split
    · exact Guarantees.of_pure fun _ => hexecutor.state
    · exact Guarantees.of_throw

/-- The interleaved schedule keeps what is known of both halves. -/
theorem executeOverlapped_guarantees {stateA stateB : State} {deltaA deltaB : Int}
    (hops : ∀ half, StreamHolds half operations) (hcollector : world.collector = none)
    (ha : Between .a world stateA) (hb : Between .b world stateB) :
    Guarantees Sound Grows world
      (executeOverlappedOperations stateA stateB operations operations deltaA deltaB)
      fun out world' => Between .a world' out.1 ∧ Between .b world' out.2 := by
  unfold executeOverlappedOperations
  split
  · exact Guarantees.of_throw
  · split
    · exact Guarantees.of_throw
    · refine Guarantees.lift_bind fun stagesA hA => Guarantees.lift_bind fun stagesB hB => ?_
      unfold convertOperationsToStages at hA hB
      split at hA
      · cases hA
      · cases hA
        rw [if_neg ‹_›] at hB
        cases hB
        refine (StageExecutor.advance_guarantees _ hcollector
          ⟨cutStages_holds (hops .a), ha⟩).bind fun a mid hgrow ha => ?_
        have hcollector := hgrow.collector.trans hcollector
        refine (StageExecutor.alternate_guarantees _ hcollector ha
          ⟨cutStages_holds (hops .b), hb.grow hgrow⟩).bind fun both mid' hgrow' hboth => ?_
        have hcollector := hgrow'.collector.trans hcollector
        refine (StageExecutor.advance_guarantees _ hcollector hboth.2).bind
          fun b last hgrow'' hb => ?_
        split
        · exact Guarantees.of_pure fun _ => ⟨(hboth.1.grow hgrow'').state, hb.state⟩
        · exact Guarantees.of_throw

end Schedules

/-! ### A whole step -/

theorem initialState_holds (layers : List DecoderLayer) (half : Lane) :
    Between half world (initialState layers half) := by
  intro key value hdata
  cases key with
  | hiddenStates =>
    cases hdata
    exact settled_final.heldBy
  | residual =>
    cases hdata
    exact fun tensor h => (by cases h)
  | arEvents =>
    cases hdata
    rfl
  | moeCtx =>
    simp only [initialState] at hdata
    split at hdata
    · cases hdata
      exact fun tensor h => (by cases h)
    · cases hdata
  | attnOutput | expertOutput | localBatch | mlpInput | residualAfterAttn => cases hdata
  | ar | attenInfo | positionEmbeddings | tag | timeline => trivial

theorem head_guarantees (layers : List DecoderLayer) (hstate : Between half world state) :
    Guarantees Drained Grows world (head layers state) fun _ _ => True := by
  refine Guarantees.assuming fun hdrained => drained_of_quiet ?_
  -- nothing is outstanding, so the head may read every promise
  have hfenced : Fenced half world state :=
    StateHolds.carry hstate (refl world) fun _ => hdrained.settled
  refine Guarantees.lift_bind fun popped hpop => ?_
  obtain ⟨hhidden, hfenced⟩ := hfenced.pop hpop
  refine Guarantees.lift_bind fun popped' hpop' => ?_
  obtain ⟨hresidual, -⟩ := hfenced.pop hpop'
  refine Guarantees.lift_bind fun _ _ => ?_
  refine (skipRmsnorm_quiet hhidden hresidual).bind fun normed mid _ hnormed => ?_
  exact (read_quiet hnormed.1).bind fun _ _ _ _ => Guarantees.of_pure fun _ => trivial

theorem modelForwardTbo_guarantees (layers : List DecoderLayer) (isPrefill : Bool)
    (hcollector : world.collector = none) :
    Guarantees Drained Grows world (modelForwardTbo parallel layers isPrefill)
      fun _ _ => True := by
  refine Guarantees.lift_bind fun strategy hstrategy => ?_
  refine (deferredAllReduce_guarantees (Q := fun out last =>
    Between .a last out.1 ∧ Between .b last out.2) hcollector (fun start hstart => ?_) ?_).bind
    fun outputs mid _ houtputs => ?_
  · refine (executeOverlapped_guarantees (fun half => initNewTbo_holds parallel hstrategy) hstart
      (initialState_holds layers .a) (initialState_holds layers .b)).bind
      fun outputs mid _ houtputs => ?_
    refine (fence_guarantees .outstanding).bind fun _ last hgrow _ => ?_
    exact Guarantees.of_pure fun _ => ⟨houtputs.1.grow hgrow, houtputs.2.grow hgrow⟩
  · exact fun outputs _ _ hgrow h => ⟨h.1.grow hgrow, h.2.grow hgrow⟩
  · refine (head_guarantees layers houtputs.1).bind fun _ last hgrow _ => ?_
    exact (head_guarantees layers (houtputs.2.grow hgrow)).bind fun _ _ _ _ =>
      Guarantees.of_pure fun _ => trivial

theorem modelForwardNonTbo_guarantees (layers : List DecoderLayer) (isPrefill : Bool)
    (hcollector : world.collector = none) :
    Guarantees Drained Grows world (modelForwardNonTbo parallel layers isPrefill)
      fun _ _ => True := by
  refine Guarantees.lift_bind fun strategy hstrategy => ?_
  refine (deferredAllReduce_guarantees (Q := fun out last => Between .a last out) hcollector
    (fun start hstart => ?_) ?_).bind fun final mid _ hfinal => head_guarantees layers hfinal
  · refine (executeOperations_guarantees (initNewTbo_holds parallel hstrategy) hstart
      (initialState_holds layers .a)).bind fun final mid _ hfinal => ?_
    refine (fence_guarantees .outstanding).bind fun _ last hgrow _ => ?_
    exact Guarantees.of_pure fun _ => hfinal.grow hgrow
  · exact fun _ _ _ hgrow h => h.grow hgrow

/-- Before a step nothing was issued. -/
theorem drained_start : Drained {} where
  sound := {
    reads := fun past event h => absurd (List.prefix_nil.mp h) (by simp)
    numbered := rfl
    known := fun _ _ h => (by cases h)
    waited := fun _ h => (by cases h) }
  none_outstanding := rfl

/-- What the host issues about deferred reductions in one step. -/
structure ReductionsFenced (trace : List Action) : Prop where
  /-- A promise is read after a wait on its event that was issued after its post. -/
  reads : ReadsFenced trace
  /-- No posted event is left unwaited. -/
  waited : ∀ event, .post event ∈ trace → Waited trace event
  /-- An event is posted once. -/
  posted_once : (posts trace).Nodup

theorem Drained.fenced (h : Drained world) : ReductionsFenced world.trace where
  reads := h.sound.reads
  waited _ hposted := h.waited hposted
  posted_once := by
    rw [h.sound.numbered]
    exact List.nodup_range

/-- **Deferred reductions are fenced before they are read**, for every stack of layers, in both
phases, and as far as the streams run. -/
theorem deferred_reductions_fenced (layers : List DecoderLayer) (isPrefill : Bool) :
    ReductionsFenced ((modelForwardTbo parallel layers isPrefill).after {}).trace :=
  (modelForwardTbo_guarantees parallel layers isPrefill rfl drained_start).1.fenced

/-- Half `a` reads its o_proj reduction while that of half `b` is on the wire, and the heads read
the last down_proj reductions after the drain. -/
example : ((modelForwardTbo { worldSize := 2, group := some { worldSize := 2, backend := "nccl" } }
    [{ selfAttn := { oProj := {} }, mlp := .dense (.fused { downProj := {} }) }] false).after
      {}).trace =
    [.post 0, .post 1, .wait 0, .read 0, .post 2, .wait 1, .read 1, .post 3,
      .wait 2, .wait 3, .read 2, .read 3] := by decide

/-- The serial run of the same streams fences as well. -/
theorem serial_reductions_fenced (layers : List DecoderLayer) (isPrefill : Bool) :
    ReductionsFenced ((modelForwardNonTbo parallel layers isPrefill).after {}).trace :=
  (modelForwardNonTbo_guarantees parallel layers isPrefill rfl drained_start).1.fenced

end RapidLlm.Deferred
