import RapidLlm.BatchOverlap.Operations

/-!
# RapidLlm.BatchOverlap.TwoBatchOverlap

**The layer stack as op streams**: the ops of a decoder layer (`models/base.py`) and of its
expert-parallel MoE block (`modules/moe/layer.py`), the streams
`batch_overlap/operations_strategy.py` builds from them, and the states
`batch_overlap/two_batch_overlap.py` runs them over.

* A tensor is what the ranks of the group hold together, so a collective is a function on
  it; attention, the MLP, the router, the experts and the exchange are parameters of a
  layer. Reductions have their plain meaning: the events that delay a reader are left out,
  the keys they are reached through are not.
* A layer is dense, or its `mlp` is a MoE block that owns a dispatcher.

`streamsCompute_iff` says when the streams compute the stack: the decode stream always does,
the prefill stream does on stacks without an expert-parallel layer. In the prefill stream
the dispatch pops the input that the shared expert reads two ops later.
-/

namespace RapidLlm

/-- The types a layer stack computes over. -/
structure Carriers where
  Tensor : Type
  AttenInfo : Type
  PositionEmbeddings : Type
  Weights : Type
  Ids : Type
  Handle : Type
  Shape : Type

/-- Per-micro-batch state the EP op stream threads between its ops. -/
structure MoEOpContext (C : Carriers) where
  weights : Option C.Weights := none
  ids : Option C.Ids := none
  handle : Option C.Handle := none
  shared : Option C.Tensor := none
  localIds : Option C.Ids := none
  localWeights : Option C.Weights := none
  leadingShape : Option C.Shape := none

/-- What the keys of a micro-batch's state hold. -/
def KeyValue (C : Carriers) : Key → Type
  | .ar | .arEvents | .timeline => Unit
  | .tag => String
  | .attenInfo => C.AttenInfo
  | .positionEmbeddings => C.PositionEmbeddings
  | .moeCtx => MoEOpContext C
  | .residual => Option C.Tensor
  | .attnOutput | .expertOutput | .hiddenStates | .localBatch | .mlpInput | .residualAfterAttn =>
    C.Tensor

/-- A routed FFN behind an all-to-all dispatcher. -/
structure SparseMoeBlock (C : Carriers) where
  leadingShape : C.Tensor → C.Shape
  /-- `x.reshape(-1, hidden_size)`. -/
  flatten : C.Tensor → C.Tensor
  /-- `out.reshape(*(leading_shape or ()), hidden_size)`. -/
  restore : Option C.Shape → C.Tensor → C.Tensor
  route : C.Tensor → C.Weights × C.Ids
  sharedExperts : Option (C.Tensor → C.Tensor)
  runExperts : C.Tensor → C.Ids → C.Weights → C.Tensor
  dispatchA : C.Tensor → C.Ids → C.Weights → C.Handle
  dispatchB : C.Handle → C.Tensor × C.Ids × C.Weights
  combineA : C.Handle → C.Tensor → C.Handle
  combineB : C.Handle → C.Tensor
  add : C.Tensor → C.Tensor → C.Tensor

variable {C : Carriers}

namespace SparseMoeBlock

variable (block : SparseMoeBlock C)

/-- The routed result plus the shared expert's, if there is one. -/
def finalize (out : C.Tensor) (shared : Option C.Tensor) : C.Tensor :=
  match shared with
  | some shared => block.add out shared
  | none => out

/-- `SparseMoeBlock.forward` on the EP path. -/
def forward (x : C.Tensor) : C.Tensor :=
  let leadingShape := block.leadingShape x
  let x := block.flatten x
  let (weights, ids) := block.route x
  let handle := block.dispatchA x ids weights
  let (localX, localIds, localWeights) := block.dispatchB handle
  let out := block.combineB (block.combineA handle (block.runExperts localX localIds localWeights))
  let shared := block.sharedExperts.map fun shared => shared x
  block.restore (some leadingShape) (block.finalize out shared)

/-! The ops of the block, over the context of its micro-batch. -/

def opGate (x : C.Tensor) (ctx : MoEOpContext C) : C.Tensor × MoEOpContext C :=
  let leadingShape := block.leadingShape x
  let x := block.flatten x
  let (weights, ids) := block.route x
  (x, { ctx with leadingShape := some leadingShape, weights := some weights, ids := some ids })

def opDispatchA (x : C.Tensor) (ctx : MoEOpContext C) : Except Raised (MoEOpContext C) :=
  match ctx.ids, ctx.weights with
  | some ids, some weights => .ok { ctx with handle := some (block.dispatchA x ids weights) }
  | _, _ => .error (.assertionError "")

def opSharedExperts (x : C.Tensor) (ctx : MoEOpContext C) : MoEOpContext C :=
  { ctx with shared := block.sharedExperts.map fun shared => shared x }

def opDispatchB (ctx : MoEOpContext C) : Except Raised (C.Tensor × MoEOpContext C) :=
  match ctx.handle with
  | some handle =>
    let (localX, localIds, localWeights) := block.dispatchB handle
    .ok (localX, { ctx with localIds := some localIds, localWeights := some localWeights })
  | none => .error (.assertionError "")

def opExperts (localX : C.Tensor) (ctx : MoEOpContext C) : Except Raised C.Tensor :=
  match ctx.localIds, ctx.localWeights with
  | some localIds, some localWeights => .ok (block.runExperts localX localIds localWeights)
  | _, _ => .error (.attributeError "'NoneType' object has no attribute 'shape'")

def opCombineA (localOut : C.Tensor) (ctx : MoEOpContext C) : Except Raised (MoEOpContext C) :=
  match ctx.handle with
  | some handle => .ok { ctx with handle := some (block.combineA handle localOut) }
  | none => .error (.assertionError "")

def opCombineB (ctx : MoEOpContext C) : Except Raised C.Tensor :=
  match ctx.handle with
  | some handle =>
    .ok (block.restore ctx.leadingShape (block.finalize (block.combineB handle) ctx.shared))
  | none => .error (.assertionError "")

end SparseMoeBlock

/-- The second half of a layer. -/
inductive Mlp (C : Carriers)
  | dense (forward : C.Tensor → C.Tensor)
  | expertParallel (block : SparseMoeBlock C)

namespace Mlp

def forward : Mlp C → C.Tensor → C.Tensor
  | .dense forward => forward
  | .expertParallel block => block.forward

/-- Whether the block has a dispatcher. -/
def isExpertParallel : Mlp C → Bool
  | .dense _ => false
  | .expertParallel _ => true

end Mlp

structure DecoderLayer (C : Carriers) where
  /-- Input norm through the attention output. -/
  forwardAttnStage : C.Tensor → Option C.Tensor → C.AttenInfo → Nat → C.PositionEmbeddings →
    C.Tensor × C.Tensor
  postAttentionNorm : C.Tensor → C.Tensor → C.Tensor × C.Tensor
  mlp : Mlp C

namespace DecoderLayer

variable (layer : DecoderLayer C)

def forwardMlpStage (hiddenStates residual : C.Tensor) : C.Tensor × C.Tensor :=
  let (hiddenStates, residual) := layer.postAttentionNorm hiddenStates residual
  (layer.mlp.forward hiddenStates, residual)

/-- One whole block: attention stage then MLP stage, back to back. -/
def forward (hiddenStates : C.Tensor) (residual : Option C.Tensor) (attenInfo : C.AttenInfo)
    (layerIndex : Nat) (positionEmbeddings : C.PositionEmbeddings) : C.Tensor × C.Tensor :=
  let (hiddenStates, residual) :=
    layer.forwardAttnStage hiddenStates residual attenInfo layerIndex positionEmbeddings
  layer.forwardMlpStage hiddenStates residual

abbrev State (C : Carriers) := StateDict (KeyValue C)

/-- Fence the promises of this half, as far as it reads the state. -/
def fence (state : State C) : Except Raised Unit := do
  let _ ← state.read .ar
  let _ ← state.read .arEvents

/-- Open the op's region on the timeline. -/
def region (state : State C) : Except Raised Unit := do
  let _ ← state.read .timeline
  let _ ← state.read .tag

def opAttn (layerIndex : Nat) (state : State C) : Except Raised (State C) := do
  fence state
  region state
  let (hiddenStates, state) ← state.pop .hiddenStates
  let (residual, state) ← state.pop .residual
  let attenInfo ← state.read .attenInfo
  let positionEmbeddings ← state.read .positionEmbeddings
  let (attnOutput, residual) :=
    layer.forwardAttnStage hiddenStates residual attenInfo layerIndex positionEmbeddings
  let state ← state.write .attnOutput attnOutput
  state.write .residualAfterAttn residual

def opMlp (state : State C) : Except Raised (State C) := do
  fence state
  region state
  let (attnOutput, state) ← state.pop .attnOutput
  let (residual, state) ← state.pop .residualAfterAttn
  let (hiddenStates, residual) := layer.forwardMlpStage attnOutput residual
  let state ← state.write .hiddenStates hiddenStates
  state.write .residual (some residual)

variable (block : SparseMoeBlock C)

/-- Post-attention norm, then routing. -/
def opGate (state : State C) : Except Raised (State C) := do
  fence state
  region state
  let (attnOutput, state) ← state.pop .attnOutput
  let (residual, state) ← state.pop .residualAfterAttn
  let (normed, residual) := layer.postAttentionNorm attnOutput residual
  let ctx ← state.read .moeCtx
  let (mlpInput, ctx) := block.opGate normed ctx
  let state ← (state.mutate .moeCtx ctx).write .mlpInput mlpInput
  state.write .residual (some residual)

def opDispatchA (state : State C) : Except Raised (State C) := do
  region state
  let mlpInput ← state.read .mlpInput
  let ctx ← state.read .moeCtx
  let ctx ← block.opDispatchA mlpInput ctx
  return state.mutate .moeCtx ctx

def opSharedExperts (state : State C) : Except Raised (State C) := do
  region state
  let mlpInput ← state.read .mlpInput
  let ctx ← state.read .moeCtx
  return state.mutate .moeCtx (block.opSharedExperts mlpInput ctx)

def opDispatchB (state : State C) : Except Raised (State C) := do
  region state
  let (_, state) ← state.pop .mlpInput
  let ctx ← state.read .moeCtx
  let (localBatch, ctx) ← block.opDispatchB ctx
  (state.mutate .moeCtx ctx).write .localBatch localBatch

def opExperts (state : State C) : Except Raised (State C) := do
  region state
  let (localBatch, state) ← state.pop .localBatch
  let ctx ← state.read .moeCtx
  let expertOutput ← block.opExperts localBatch ctx
  state.write .expertOutput expertOutput

def opCombineA (state : State C) : Except Raised (State C) := do
  region state
  let expertOutput ← state.read .expertOutput
  let ctx ← state.read .moeCtx
  let ctx ← block.opCombineA expertOutput ctx
  return state.mutate .moeCtx ctx

def opCombineB (state : State C) : Except Raised (State C) := do
  region state
  let (_, state) ← state.pop .expertOutput
  let ctx ← state.read .moeCtx
  let hiddenStates ← block.opCombineB ctx
  state.write .hiddenStates hiddenStates

end DecoderLayer

/-! ### Streams -/

/-- One micro-batch's whole op stream, plus how far it leads. -/
structure OperationsStrategy (C : Carriers) where
  operations : List (Operation (KeyValue C))
  tboDeltaStages : Nat := 0

namespace OperationsStrategy

/-- Concatenate per-layer streams; the lead is the widest any layer wants. -/
def concat (items : List (OperationsStrategy C)) : OperationsStrategy C :=
  { operations := items.flatMap operations
    tboDeltaStages := (items.map tboDeltaStages).foldl max 0 }

/-- Attention and MLP segments, alternating strictly. -/
def denseLayerStrategy (layer : DecoderLayer C) (layerIndex : Nat) : OperationsStrategy C :=
  { operations := [
      .op "attn" (layer.opAttn layerIndex),
      .yield,
      .op "mlp" layer.opMlp]
    tboDeltaStages := 0 }

/-- The EP decode stream: yields around both exchanges. -/
def epMoeLayerStrategy (layer : DecoderLayer C) (block : SparseMoeBlock C) (layerIndex : Nat) :
    OperationsStrategy C :=
  { operations := [
      .op "attn" (layer.opAttn layerIndex),
      .yield,
      .op "gate" (layer.opGate block),
      .yield,
      .op "dispatch_a" (DecoderLayer.opDispatchA block),
      .op "shared_experts" (DecoderLayer.opSharedExperts block),
      .yield,
      .op "dispatch_b" (DecoderLayer.opDispatchB block),
      .op "experts" (DecoderLayer.opExperts block),
      .op "combine_a" (DecoderLayer.opCombineA block),
      .yield,
      .op "combine_b" (DecoderLayer.opCombineB block)]
    tboDeltaStages := 2 }

/-- The EP prefill stream: shared experts move after the combine. -/
def epMoePrefillStrategy (layer : DecoderLayer C) (block : SparseMoeBlock C) (layerIndex : Nat) :
    OperationsStrategy C :=
  { operations := [
      .op "attn" (layer.opAttn layerIndex),
      .yield,
      .op "gate" (layer.opGate block),
      .yield,
      .op "dispatch_a" (DecoderLayer.opDispatchA block),
      .yield,
      .op "dispatch_b" (DecoderLayer.opDispatchB block),
      .op "experts" (DecoderLayer.opExperts block),
      .op "combine_a" (DecoderLayer.opCombineA block),
      .yield,
      .op "shared_experts" (DecoderLayer.opSharedExperts block),
      .op "combine_b" (DecoderLayer.opCombineB block)]
    tboDeltaStages := 0 }

/-- Pick the layer's stream from its own op surface. -/
def layerStrategy (isPrefill : Bool) (layer : DecoderLayer C) (layerIndex : Nat) :
    OperationsStrategy C :=
  match layer.mlp with
  | .expertParallel block =>
    if isPrefill then epMoePrefillStrategy layer block layerIndex
    else epMoeLayerStrategy layer block layerIndex
  | .dense _ => denseLayerStrategy layer layerIndex

/-- Build the op stream for a whole layer stack. The class of the first layer picks the
builder, so an empty stack raises. -/
def initNewTbo (layers : List (DecoderLayer C)) (isPrefill : Bool) :
    Except Raised (OperationsStrategy C) :=
  if layers = [] then .error (.indexError "list index out of range")
  else .ok (concat (layers.mapIdx fun index layer => layerStrategy isPrefill layer index))

/-- The stream without its yields. -/
theorem opsOf_concat (items : List (OperationsStrategy C)) :
    opsOf (concat items).operations = items.flatMap fun item => opsOf item.operations := by
  induction items with
  | nil => rfl
  | cons item items ih =>
    rw [concat, List.flatMap_cons, opsOf_append, List.flatMap_cons, ← ih, concat]

end OperationsStrategy

/-! ### States of a step -/

/-- What one half brings to the step. -/
structure Half (C : Carriers) where
  hiddenStates : C.Tensor
  positionEmbeddings : C.PositionEmbeddings
  attenInfo : C.AttenInfo
  tag : String

/-- `_expert_parallel`: whether any layer runs MoE over a dispatcher. -/
def expertParallel (layers : List (DecoderLayer C)) : Bool :=
  layers.any fun layer => layer.mlp.isExpertParallel

/-- The keys that live as long as the step. -/
def persistentKeys (layers : List (DecoderLayer C)) : List Key :=
  [.ar, .arEvents, .attenInfo, .positionEmbeddings, .tag, .timeline] ++
    if expertParallel layers then [.moeCtx] else []

namespace Half

variable (half : Half C)

/-- The state between two layers: the plumbing, the context of the exchange, and what the
layers hand on. -/
def between (ctx : Option (MoEOpContext C)) (hiddenStates : C.Tensor)
    (residual : Option C.Tensor) : DecoderLayer.State C where
  data
    | .ar | .arEvents | .timeline => some ()
    | .tag => some half.tag
    | .attenInfo => some half.attenInfo
    | .positionEmbeddings => some half.positionEmbeddings
    | .moeCtx => ctx
    | .hiddenStates => some hiddenStates
    | .residual => some residual
    | .attnOutput | .expertOutput | .localBatch | .mlpInput | .residualAfterAttn => none

/-- `_initial_state`: the step's inputs plus the overlap plumbing. -/
def initialState (layers : List (DecoderLayer C)) : DecoderLayer.State C :=
  half.between (if expertParallel layers then some {} else none) half.hiddenStates none

/-- The layers' `forward` one after another, from the layer at `index` on. -/
def forwardFrom : Nat → List (DecoderLayer C) → C.Tensor → Option C.Tensor →
    C.Tensor × Option C.Tensor
  | _, [], hiddenStates, residual => (hiddenStates, residual)
  | index, layer :: layers, hiddenStates, residual =>
    let (hiddenStates, residual) :=
      layer.forward hiddenStates residual half.attenInfo index half.positionEmbeddings
    forwardFrom (index + 1) layers hiddenStates (some residual)

/-- The layer stack on this half. -/
def forward (layers : List (DecoderLayer C)) : C.Tensor × Option C.Tensor :=
  half.forwardFrom 0 layers half.hiddenStates none

end Half

/-! ### One layer -/

section Layer

variable (half : Half C) (layer : DecoderLayer C) (block : SparseMoeBlock C) (index : Nat)
  (ctx : Option (MoEOpContext C)) (hiddenStates : C.Tensor) (residual : Option C.Tensor)

/-- What a layer hands on. -/
private abbrev handedOn : C.Tensor × C.Tensor :=
  layer.forward hiddenStates residual half.attenInfo index half.positionEmbeddings

/-- The two segments of a layer compute it. -/
theorem runOps_dense :
    runOps (opsOf (OperationsStrategy.denseLayerStrategy layer index).operations)
        (half.between ctx hiddenStates residual) =
      .ok (half.between ctx (handedOn half layer index hiddenStates residual).1
        (some (handedOn half layer index hiddenStates residual).2)) := by
  refine congrArg Except.ok (congrArg StateDict.mk (funext fun key => ?_))
  cases key <;> rfl

/-- What the ops of an expert-parallel layer leave in the context. -/
def SparseMoeBlock.contextAfter (normed : C.Tensor) : MoEOpContext C :=
  let x := block.flatten normed
  let (weights, ids) := block.route x
  let handle := block.dispatchA x ids weights
  let (localX, localIds, localWeights) := block.dispatchB handle
  { weights := some weights
    ids := some ids
    handle := some (block.combineA handle (block.runExperts localX localIds localWeights))
    shared := block.sharedExperts.map fun shared => shared x
    localIds := some localIds
    localWeights := some localWeights
    leadingShape := some (block.leadingShape normed) }

/-- The decode stream of an expert-parallel layer computes it. -/
theorem runOps_epMoe (hmlp : layer.mlp = .expertParallel block) (ctx : MoEOpContext C) :
    ∃ ctx', runOps (opsOf (OperationsStrategy.epMoeLayerStrategy layer block index).operations)
        (half.between (some ctx) hiddenStates residual) =
      .ok (half.between (some ctx') (handedOn half layer index hiddenStates residual).1
        (some (handedOn half layer index hiddenStates residual).2)) := by
  let attn := layer.forwardAttnStage hiddenStates residual half.attenInfo index
    half.positionEmbeddings
  refine ⟨block.contextAfter (layer.postAttentionNorm attn.1 attn.2).1, ?_⟩
  have hforward : handedOn half layer index hiddenStates residual =
      (block.forward (layer.postAttentionNorm attn.1 attn.2).1,
        (layer.postAttentionNorm attn.1 attn.2).2) := by
    simp only [handedOn, DecoderLayer.forward, DecoderLayer.forwardMlpStage, hmlp, Mlp.forward, attn]
  rw [hforward]
  refine congrArg Except.ok (congrArg StateDict.mk (funext fun key => ?_))
  cases key <;> rfl

/-- The prefill stream of an expert-parallel layer raises: when the shared expert comes to
read its input, the dispatch has popped it. -/
theorem runOps_epMoePrefill (ctx : MoEOpContext C) (final : DecoderLayer.State C) :
    runOps (opsOf (OperationsStrategy.epMoePrefillStrategy layer block index).operations)
        (half.between (some ctx) hiddenStates residual) ≠ .ok final := by
  intro h
  cases h

end Layer

/-! ### The stack -/

section Stack

open OperationsStrategy

variable (half : Half C) {isPrefill : Bool} {index : Nat} {layers : List (DecoderLayer C)}
  {ctx : Option (MoEOpContext C)} {hiddenStates : C.Tensor} {residual : Option C.Tensor}

/-- The streams of the layers from the one at `index` on. -/
def streamsFrom (isPrefill : Bool) (index : Nat) (layers : List (DecoderLayer C)) :
    List (OperationsStrategy C) :=
  layers.mapIdx fun offset layer => layerStrategy isPrefill layer (index + offset)

theorem streamsFrom_cons (layer : DecoderLayer C) :
    streamsFrom isPrefill index (layer :: layers) =
      layerStrategy isPrefill layer index :: streamsFrom isPrefill (index + 1) layers := by
  simp only [streamsFrom, List.mapIdx_cons, Nat.add_zero, Nat.add_assoc, Nat.add_comm 1]

theorem initNewTbo_eq (hlayers : layers ≠ []) :
    initNewTbo layers isPrefill = .ok (concat (streamsFrom isPrefill 0 layers)) := by
  simp only [initNewTbo, if_neg hlayers, streamsFrom, Nat.zero_add]

/-- A stack runs its first layer's stream and then the others'. -/
theorem runOps_concat_cons (item : OperationsStrategy C) (items : List (OperationsStrategy C))
    (state : DecoderLayer.State C) :
    runOps (opsOf (concat (item :: items)).operations) state =
      runOps (opsOf item.operations) state >>= runOps (opsOf (concat items).operations) := by
  rw [opsOf_concat, List.flatMap_cons, runOps_append, opsOf_concat]

/-- One layer's stream computes it, unless it is an expert-parallel layer's in prefill. -/
theorem runOps_layer (layer : DecoderLayer C)
    (hok : isPrefill = true → layer.mlp.isExpertParallel = false)
    (hctx : layer.mlp.isExpertParallel = true → ctx.isSome = true) :
    ∃ ctx', ctx'.isSome = ctx.isSome ∧
      runOps (opsOf (layerStrategy isPrefill layer index).operations)
          (half.between ctx hiddenStates residual) =
        .ok (half.between ctx' (handedOn half layer index hiddenStates residual).1
          (some (handedOn half layer index hiddenStates residual).2)) := by
  unfold layerStrategy
  split
  · rename_i block hmlp
    have hep : layer.mlp.isExpertParallel = true := by rw [hmlp]; rfl
    have hdecode : ¬ isPrefill = true := fun hprefill => by
      rw [hok hprefill] at hep
      cases hep
    obtain ⟨ctx₀, rfl⟩ := Option.isSome_iff_exists.mp (hctx hep)
    obtain ⟨ctx', hrun⟩ := runOps_epMoe half layer block index hiddenStates residual hmlp ctx₀
    rw [if_neg hdecode]
    exact ⟨some ctx', rfl, hrun⟩
  · exact ⟨ctx, rfl, runOps_dense half layer index ctx hiddenStates residual⟩

/-- The streams of a stack compute its layers one after another. -/
theorem runOps_stack (index : Nat) (hiddenStates : C.Tensor) (residual : Option C.Tensor)
    (hok : isPrefill = true → expertParallel layers = false)
    (hctx : expertParallel layers = true → ctx.isSome = true) :
    ∃ ctx', ctx'.isSome = ctx.isSome ∧
      runOps (opsOf (concat (streamsFrom isPrefill index layers)).operations)
          (half.between ctx hiddenStates residual) =
        .ok (half.between ctx' (half.forwardFrom index layers hiddenStates residual).1
          (half.forwardFrom index layers hiddenStates residual).2) := by
  induction layers generalizing index ctx hiddenStates residual with
  | nil => exact ⟨ctx, rfl, rfl⟩
  | cons layer layers ih =>
    simp only [expertParallel, List.any_cons, Bool.or_eq_true, Bool.or_eq_false_iff] at hok hctx
    obtain ⟨ctx₁, hsome₁, hrun₁⟩ := runOps_layer half layer (fun h => (hok h).1)
      (fun h => hctx (.inl h))
    obtain ⟨ctx₂, hsome₂, hrun₂⟩ := ih (index + 1) _ _ (fun h => (hok h).2)
      (fun h => hsome₁.trans (hctx (.inr h)))
    refine ⟨ctx₂, hsome₂.trans hsome₁, ?_⟩
    rw [streamsFrom_cons, runOps_concat_cons, hrun₁, ok_bind]
    exact hrun₂

/-- A stack with an expert-parallel layer raises in prefill. -/
theorem runOps_stack_raises (hep : expertParallel layers = true) (hctx : ctx.isSome = true)
    (final : DecoderLayer.State C) :
    runOps (opsOf (concat (streamsFrom true index layers)).operations)
      (half.between ctx hiddenStates residual) ≠ .ok final := by
  induction layers generalizing index ctx hiddenStates residual with
  | nil => cases hep
  | cons layer layers ih =>
    rw [streamsFrom_cons, runOps_concat_cons]
    intro hrun
    obtain ⟨state, hfirst, hrest⟩ := bind_eq_ok.mp hrun
    cases hmlp : layer.mlp with
    | expertParallel block =>
      -- the first such layer raises on its own
      obtain ⟨ctx₀, rfl⟩ := Option.isSome_iff_exists.mp hctx
      rw [layerStrategy, hmlp] at hfirst
      exact runOps_epMoePrefill half layer block index hiddenStates residual ctx₀ state hfirst
    | dense forward =>
      have hdense : layer.mlp.isExpertParallel = false := by rw [hmlp]; rfl
      have hep' : expertParallel layers = true := by
        simpa only [expertParallel, List.any_cons, hdense, Bool.false_or] using hep
      rw [layerStrategy, hmlp] at hfirst
      dsimp only at hfirst
      rw [runOps_dense half layer index ctx hiddenStates residual] at hfirst
      cases hfirst
      exact ih hep' hctx hrest

/-- Every layer's stream starts with an op and has one after each of its boundaries. -/
theorem layerStrategy_shape (isPrefill : Bool) (index : Nat) (layer : DecoderLayer C) :
    startsWithOp (layerStrategy isPrefill layer index).operations = true ∧
      separated (layerStrategy isPrefill layer index).operations = true ∧
      1 ≤ yields (layerStrategy isPrefill layer index).operations ∧
      (layerStrategy isPrefill layer index).tboDeltaStages ≤ 2 := by
  unfold layerStrategy
  split
  · split
    · exact ⟨rfl, rfl, Nat.le_of_ble_eq_true rfl, Nat.le_of_ble_eq_true rfl⟩
    · exact ⟨rfl, rfl, Nat.le_of_ble_eq_true rfl, Nat.le_of_ble_eq_true rfl⟩
  · exact ⟨rfl, rfl, Nat.le_of_ble_eq_true rfl, Nat.le_of_ble_eq_true rfl⟩

theorem concat_separated (isPrefill : Bool) (index : Nat) (layers : List (DecoderLayer C)) :
    separated (concat (streamsFrom isPrefill index layers)).operations = true := by
  induction layers generalizing index with
  | nil => rfl
  | cons layer layers ih =>
    obtain ⟨-, hsep, -, -⟩ := layerStrategy_shape isPrefill index layer
    rw [streamsFrom_cons, concat, List.flatMap_cons]
    exact separated_append hsep (ih (index + 1))

/-- No layer leads by more than two stages, and neither does a stack. -/
theorem concat_lead (isPrefill : Bool) (index : Nat) (layers : List (DecoderLayer C)) :
    (concat (streamsFrom isPrefill index layers)).tboDeltaStages ≤ 2 := by
  have hle : ∀ lead ≤ 2, ((streamsFrom isPrefill index layers).map tboDeltaStages).foldl max lead
      ≤ 2 := by
    induction layers generalizing index with
    | nil => exact fun lead hlead => hlead
    | cons layer layers ih =>
      intro lead hlead
      obtain ⟨-, -, -, hlayer⟩ := layerStrategy_shape isPrefill index layer
      rw [streamsFrom_cons, List.map_cons, List.foldl_cons]
      exact ih (index + 1) _ (max_le hlead hlayer)
  exact hle 0 (Nat.zero_le 2)

/-- The stream of a stack is cut into stages, no fewer than its lead. -/
theorem stack_stages (isPrefill : Bool) (index : Nat) (hlayers : layers ≠ []) :
    convertOperationsToStages (concat (streamsFrom isPrefill index layers)).operations =
        .ok (cutStages (concat (streamsFrom isPrefill index layers)).operations) ∧
      (concat (streamsFrom isPrefill index layers)).tboDeltaStages ≤
        (cutStages (concat (streamsFrom isPrefill index layers)).operations).length := by
  obtain ⟨layer, rest, rfl⟩ := List.exists_cons_of_ne_nil hlayers
  have hsep := concat_separated isPrefill index (layer :: rest)
  have hlead := concat_lead isPrefill index (layer :: rest)
  obtain ⟨hstart, -, hyields, -⟩ := layerStrategy_shape isPrefill index layer
  have hops : (concat (streamsFrom isPrefill index (layer :: rest))).operations =
      (layerStrategy isPrefill layer index).operations ++
        (concat (streamsFrom isPrefill (index + 1) rest)).operations := by
    rw [streamsFrom_cons, concat, List.flatMap_cons, concat]
  refine ⟨convert_ok ?_ hsep, ?_⟩
  · rw [hops]
    exact startsWithOp_append hstart _
  · rw [cutStages_length, hops, yields_append]
    omega

end Stack

/-! ### The two schedules -/

/-- What a step leaves in a half's state: the persistent keys, and the layer stack's result. -/
structure Half.Leaves (half : Half C) (layers : List (DecoderLayer C))
    (state : DecoderLayer.State C) : Prop where
  keys_iff : ∀ key, (state.data key).isSome = true ↔
    key ∈ persistentKeys layers ∨ key = .hiddenStates ∨ key = .residual
  hiddenStates_eq : state.data .hiddenStates = some (half.forward layers).1
  residual_eq : state.data .residual = some (half.forward layers).2

variable {layers : List (DecoderLayer C)} {half : Half C}

theorem Half.leaves_between {ctx : Option (MoEOpContext C)}
    (hctx : ctx.isSome = expertParallel layers) :
    half.Leaves layers (half.between ctx (half.forward layers).1 (half.forward layers).2) := by
  refine ⟨fun key => ?_, rfl, rfl⟩
  by_cases hkey : key = .moeCtx
  · subst hkey
    change ctx.isSome = true ↔ _
    rw [hctx]
    cases hep : expertParallel layers <;> simp [persistentKeys, hep]
  · have hmem : key ∈ persistentKeys layers ↔
        key ∈ [Key.ar, .arEvents, .attenInfo, .positionEmbeddings, .tag, .timeline] := by
      cases hep : expertParallel layers <;> simp [persistentKeys, hep, hkey]
    rw [hmem]
    cases key with
    | moeCtx => exact absurd rfl hkey
    | attnOutput | expertOutput | localBatch | mlpInput | residualAfterAttn =>
      exact iff_of_false Bool.noConfusion (by decide)
    | _ => exact iff_of_true rfl (by decide)

/-- Both schedules run the streams to the end and leave what the layers compute. -/
def StreamsCompute (layers : List (DecoderLayer C)) (isPrefill : Bool) (a b : Half C) : Prop :=
  ∃ strategy, OperationsStrategy.initNewTbo layers isPrefill = .ok strategy ∧
    (∃ final, executeOperations (a.initialState layers) strategy.operations = .ok final ∧
      a.Leaves layers final) ∧
    ∃ finalA finalB, executeOverlappedOperations (a.initialState layers) (b.initialState layers)
        strategy.operations strategy.operations 0 strategy.tboDeltaStages = .ok (finalA, finalB) ∧
      a.Leaves layers finalA ∧ b.Leaves layers finalB

theorem initialState_isSome (layers : List (DecoderLayer C)) :
    (if expertParallel layers then some ({} : MoEOpContext C) else none).isSome =
      expertParallel layers := by
  cases expertParallel layers <;> rfl

/-- The ops of a stack's stream, from a half's initial state. -/
theorem runOps_initial {isPrefill : Bool} (hok : isPrefill = true → expertParallel layers = false)
    (half : Half C) :
    ∃ final, runOps (opsOf (OperationsStrategy.concat (streamsFrom isPrefill 0 layers)).operations)
        (half.initialState layers) = .ok final ∧ half.Leaves layers final := by
  obtain ⟨ctx, hsome, hrun⟩ := runOps_stack half 0 half.hiddenStates none hok
    (fun h => (initialState_isSome layers).trans h)
  exact ⟨_, hrun, half.leaves_between (hsome.trans (initialState_isSome layers))⟩

/-- The streams compute the layer stack exactly when the decode stream is built, or no layer
of the stack is expert-parallel. -/
theorem streamsCompute_iff (hlayers : layers ≠ []) (isPrefill : Bool) (a b : Half C) :
    StreamsCompute layers isPrefill a b ↔
      isPrefill = false ∨ ∀ layer ∈ layers, layer.mlp.isExpertParallel = false := by
  have hdense : expertParallel layers = false ↔
      ∀ layer ∈ layers, layer.mlp.isExpertParallel = false := by
    rw [expertParallel, List.any_eq_false]
    simp only [Bool.not_eq_true]
  rw [← hdense]
  obtain ⟨hcut, hlead⟩ := stack_stages isPrefill 0 hlayers
  constructor
  · rintro ⟨strategy, hinit, ⟨final, hserial, -⟩, -⟩
    rw [initNewTbo_eq hlayers] at hinit
    cases hinit
    cases hep : expertParallel layers with
    | false => exact .inr rfl
    | true =>
        left
        cases hprefill : isPrefill with
        | false => rfl
        | true =>
            subst hprefill
            exact absurd (executeOperations_inv hserial)
              (runOps_stack_raises a hep ((initialState_isSome layers).trans hep) final)
  · intro hor
    have hok : isPrefill = true → expertParallel layers = false := by
      rintro rfl
      exact hor.resolve_left Bool.noConfusion
    obtain ⟨finalA, hrunA, hA⟩ := runOps_initial hok a
    obtain ⟨finalB, hrunB, hB⟩ := runOps_initial hok b
    exact ⟨_, initNewTbo_eq hlayers, ⟨finalA, executeOperations_ok hcut hrunA, hA⟩, finalA, finalB,
      executeOverlapped_ok hcut hlead hrunA hrunB, hA, hB⟩

/-- A stack over numbers. -/
abbrev numbers : Carriers where
  Tensor := Nat
  AttenInfo := Nat
  PositionEmbeddings := Nat
  Weights := Nat
  Ids := Nat
  Handle := Nat
  Shape := Unit

/-- An expert-parallel layer over numbers, with a shared expert. -/
def numbersLayer : DecoderLayer numbers where
  forwardAttnStage hiddenStates residual attenInfo layerIndex positionEmbeddings :=
    (hiddenStates + attenInfo + layerIndex + positionEmbeddings, residual.getD 0 + hiddenStates)
  postAttentionNorm hiddenStates residual := (hiddenStates + residual, hiddenStates)
  mlp := .expertParallel {
    leadingShape := fun _ => ()
    flatten := id
    restore := fun _ out => out
    route := fun x => (x, x % 2)
    sharedExperts := some (3 * ·)
    runExperts := fun x ids weights => x * weights + ids
    dispatchA := fun x ids _ => 2 * x + ids
    dispatchB := fun handle => (handle / 2, handle % 2, 1)
    combineA := fun _ out => out
    combineB := fun handle => handle
    add := (· + ·) }

def numbersHalf : Half numbers where
  hiddenStates := (5 : Nat)
  positionEmbeddings := (1 : Nat)
  attenInfo := (2 : Nat)
  tag := "a"

/-- The decode stream computes an expert-parallel layer, the prefill stream does not. -/
theorem streamsCompute_numbers :
    StreamsCompute [numbersLayer] false numbersHalf numbersHalf ∧
      ¬ StreamsCompute [numbersLayer] true numbersHalf numbersHalf :=
  ⟨(streamsCompute_iff (List.cons_ne_nil _ _) false _ _).mpr (.inl rfl), fun h =>
    ((streamsCompute_iff (List.cons_ne_nil _ _) true _ _).mp h).elim Bool.noConfusion
      fun hdense => absurd (hdense numbersLayer (List.mem_singleton_self _)) (by decide)⟩

/-- The prefill stream of one expert-parallel layer raises in `op_shared_experts`. -/
theorem prefill_stream_raises :
    ¬ (∀ (layers : List (DecoderLayer numbers)) (isPrefill : Bool) (a b : Half numbers),
      layers ≠ [] → StreamsCompute layers isPrefill a b) := by
  intro h
  obtain ⟨strategy, hinit, ⟨final, hserial, -⟩, -⟩ :=
    h [numbersLayer] true numbersHalf numbersHalf (List.cons_ne_nil _ _)
  rw [initNewTbo_eq (List.cons_ne_nil _ _)] at hinit
  cases hinit
  have hrun := executeOperations_inv hserial
  rw [Half.initialState] at hrun
  exact runOps_stack_raises numbersHalf rfl rfl final hrun

end RapidLlm
