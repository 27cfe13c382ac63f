import Mathlib.Algebra.BigOperators.Fin
import RapidLlm.Lib.Lockstep
import RapidLlm.Lib.Windows
import RapidLlm.Distributed.SequenceParallelPass

/-!
# RapidLlm.Distributed.SequenceParallel

**A forward with its tokens sharded** (`distributed/sequence_parallel.py`, the row-parallel
dispatch of `batch_overlap/comm_overlap.py`, and the blocks and `CausalLM.forward` of
`models/base.py`).

Every rank runs the program of the source on rows of its own, and the ranks meet in three
collectives. With a region open a rank holds one shard of the padded rows between a `g-bar` and
the next `g`; with none it holds them all. What a layer reads around it, the marks of its modules
and the open region, is passed along.

A tensor is the list of its rows under its leading dimensions; a row is a value of its own, since
nothing here looks into one.
-/

namespace RapidLlm.SequenceParallel

variable {n : Nat} {A B X Q O G I : Type}

/-! ### The wire -/

/-- A collective of the tensor-parallel group, with the rows a rank brings to it. -/
inductive TpCall
  | allGather (rows : Nat)
  | reduceScatter (rows : Nat)
  | allReduce (rows : Nat)
  deriving DecidableEq, Repr

/-- The rows of all ranks, summed place by place. -/
def sumRows [AddCommMonoid X] (rows : Nat) (values : Fin n → List X) : List X :=
  (List.range rows).map fun k => ∑ rank, (values rank).getD k 0

/-- What a collective answers. Of a reduce-scatter a rank takes its own shard. -/
def tpWire [AddCommMonoid X] (call : TpCall) (values : Fin n → List X) : List X :=
  match call with
  | .allGather _ => (List.finRange n).flatMap values
  | .reduceScatter rows => sumRows rows values
  | .allReduce rows => sumRows rows values

/-- What a rank runs. -/
abbrev TpProgram (X α : Type) := ExceptT Raised (Script TpCall (List X)) α

def enterCall (call : TpCall) (rows : List X) : Script TpCall (List X) (List X) :=
  .enter call rows .done

/-- `tensor_model_parallel_all_gather`, along the rows. -/
def tensorModelParallelAllGather (worldSize : Nat) (rows : List X) : TpProgram X (List X) :=
  if worldSize ≤ 1 then pure rows
  else ExceptT.lift (enterCall (.allGather rows.length) rows)

/-- `tensor_model_parallel_all_reduce`. -/
def tensorModelParallelAllReduce (worldSize : Nat) (rows : List X) : TpProgram X (List X) :=
  if worldSize ≤ 1 then pure rows
  else ExceptT.lift (enterCall (.allReduce rows.length) rows)

/-- `reduce_scatter`, along the rows. -/
def reduceScatter (worldSize hiddenSize rank : Nat) (rows : List X) : TpProgram X (List X) :=
  if worldSize ≤ 1 then pure rows
  else if rows.length % worldSize ≠ 0 then
    throw (.valueError (s!"reduce_scatter dim 0 of shape ({rows.length}, {hiddenSize}) does not " ++
      s!"divide across {worldSize} ranks"))
  else do
    let total ← ExceptT.lift (enterCall (.reduceScatter rows.length) rows)
    return Windows.window (rows.length / worldSize) total rank

/-! ### Tensors of rows -/

/-- A tensor whose last dimension is a row: its leading dimensions and its rows in order. -/
@[ext]
structure Activations (A : Type) where
  lead : List Nat
  rows : List A
  size : lead.prod = rows.length

namespace Activations

/-- `[rows, features]`. -/
def ofRows (rows : List A) : Activations A := ⟨[rows.length], rows, by simp⟩

/-- A function of each row. -/
def map (f : A → B) (x : Activations A) : Activations B :=
  ⟨x.lead, x.rows.map f, by rw [x.size, List.length_map]⟩

@[simp] theorem ofRows_rows (rows : List A) : (ofRows rows).rows = rows := rfl

@[simp] theorem map_lead (f : A → B) (x : Activations A) : (x.map f).lead = x.lead := rfl

@[simp] theorem map_rows (f : A → B) (x : Activations A) : (x.map f).rows = x.rows.map f := rfl

/-- `x.view(*lead, -1)`. -/
def view (lead : List Nat) (x : Activations A) : Except Raised (Activations A) :=
  if h : lead.prod = x.rows.length then .ok ⟨lead, x.rows, h⟩
  else .error (.runtimeError s!"shape '{lead}' is invalid for input of {x.rows.length} rows")

end Activations

/-- A function of a whole grid of rows, of one row for each. -/
structure GridMap (A B : Type) where
  run : List A → List B
  length_run : ∀ rows, (run rows).length = rows.length

/-- A function of a grid, on a tensor. -/
def GridMap.onTensor (f : GridMap A B) (x : Activations A) : Activations B :=
  ⟨x.lead, f.run x.rows, by rw [x.size, f.length_run]⟩

/-! ### The region -/

/-- `SequenceParallelRegion`. -/
structure SequenceParallelRegion where
  numTokens : Nat
  worldSize : Nat
  rank : Nat

/-- `padded_tokens`. -/
def SequenceParallelRegion.paddedTokens (region : SequenceParallelRegion) : Nat :=
  (-(-(region.numTokens : Int) / region.worldSize) * region.worldSize).toNat

/-- `local_tokens`. -/
def SequenceParallelRegion.localTokens (region : SequenceParallelRegion) : Nat :=
  region.paddedTokens / region.worldSize

/-- `CommOverlapPolicy`. -/
structure CommOverlapPolicy where
  enabled : Bool := false
  minRows : Nat := 512
  chunks : Nat := 2

/-- `L3_MIN_CHUNK_ROWS`. -/
def l3MinChunkRows : Nat := 256

/-- `chunk_count`. -/
def CommOverlapPolicy.chunkCount (policy : CommOverlapPolicy) (rows : Nat) : Nat :=
  if policy.enabled = false ∨ rows = 0 then 1
  else max 1 (min policy.chunks (max 1 (rows / l3MinChunkRows)))

/-- What a forward reads of its process: the floor of a region, the overlap policy, whether a
deferred context is open, the device, and the width of the stream. -/
structure TpContext where
  minTokens : Nat
  policy : CommOverlapPolicy
  deferred : Bool
  onCpu : Bool
  hiddenSize : Nat

/-- `_eligible`. -/
def eligible (ctx : TpContext) (numTokens : Nat) (marked : Bool) (worldSize : Nat) : Bool :=
  if marked = false ∨ worldSize ≤ 1 ∨ numTokens < ctx.minTokens then false
  else if ctx.deferred then false
  else !(ctx.policy.enabled && decide (ctx.policy.minRows ≤ numTokens))

/-- The region `sequence_parallel_region` yields. -/
def sequenceParallelRegion (ctx : TpContext) (numTokens : Nat) (marked : Bool) (rank : Fin n) :
    Option SequenceParallelRegion :=
  if eligible ctx numTokens marked n then some ⟨numTokens, n, rank⟩ else none

/-- `_pad_rows`. -/
def padRows [Zero X] (flat : List X) (rows : Nat) : List X :=
  flat ++ List.replicate (rows - flat.length) 0

/-- `entry_scatter`. -/
def entryScatter [Zero X] (hiddenStates : Activations X) (region : SequenceParallelRegion) :
    Activations X :=
  let flat := padRows hiddenStates.rows region.paddedTokens
  let start := region.rank * region.localTokens
  let shard := (flat.take (start + region.localTokens)).drop start
  ⟨[1, shard.length], shard, by simp⟩

/-- `exit_gather`. -/
def exitGather (worldSize : Nat) (hiddenStates : Activations X) (region : SequenceParallelRegion)
    (shape : List Nat) : TpProgram X (Activations X) := do
  let full ← tensorModelParallelAllGather worldSize hiddenStates.rows
  (Activations.ofRows (full.take region.numTokens)).view shape

/-! ### Projections -/

/-- A projection: its module, and what each rank's multiply makes of a row. -/
structure Projection (n : Nat) (A B : Type) where
  node : ModuleNode
  applyLinear : Fin n → A → B

/-- `_as_input_rank`: two dimensions stay two, and of more the last leading one is replaced. -/
def asInputRank (out : List B) (like : List Nat) : Except Raised (Activations B) :=
  if like.length ≤ 1 then .ok (.ofRows out)
  else (Activations.ofRows out).view (like.dropLast ++ [out.length])

/-- `column_parallel_g`. -/
def columnParallelG (region : SequenceParallelRegion) (layer : Projection n X B) (rank : Fin n)
    (x : Activations X) : TpProgram X (Activations B) := do
  let full ← tensorModelParallelAllGather n x.rows
  asInputRank ((full.take region.numTokens).map (layer.applyLinear rank)) x.lead

/-- `LinearBase.forward`. -/
def linearForward (marks : SpMarks) (region : Option SequenceParallelRegion)
    (layer : Projection n X B) (rank : Fin n) (x : Activations X) : TpProgram X (Activations B) :=
  match region.filter fun _ => marks layer.node.id .g with
  | some region => columnParallelG region layer rank x
  | none => pure (x.map (layer.applyLinear rank))

/-- `row_parallel_g_bar`. -/
def rowParallelGBar [Zero X] (ctx : TpContext) (region : SequenceParallelRegion)
    (layer : Projection n A X) (rank : Fin n) (x : Activations A) :
    TpProgram X (Activations X) := do
  let flat := padRows (x.rows.map (layer.applyLinear rank)) region.paddedTokens
  let shard ← reduceScatter n ctx.hiddenSize rank flat
  asInputRank shard x.lead

/-- `tensor_model_parallel_all_reduce` of a tensor, which keeps its shape. -/
def allReduced (partialSum : Activations X) : TpProgram X (Activations X) := do
  let rows ← tensorModelParallelAllReduce n partialSum.rows
  (Activations.ofRows rows).view partialSum.lead

/-- The loop of `_chunk_bounds`. -/
def chunkSpans (base extra : Nat) : Nat → Nat → Nat → List (Nat × Nat)
  | 0, _, _ => []
  | count + 1, index, start =>
    let stop := start + base + if index < extra then 1 else 0
    if start < stop then (start, stop) :: chunkSpans base extra count (index + 1) stop
    else chunkSpans base extra count (index + 1) stop

/-- `_chunk_bounds`. -/
def chunkBounds (rows count : Nat) : List (Nat × Nat) :=
  chunkSpans (rows / count) (rows % count) count 0 0

/-- `_chunked_row_parallel`. The chunks' reductions are posted one after another, and each lands
in its rows of the output. -/
def chunkedRowParallel (ctx : TpContext) (layer : Projection n A X) (rank : Fin n)
    (x : Activations A) : TpProgram X (Activations X) :=
  let count := ctx.policy.chunkCount x.rows.length
  let bounds := chunkBounds x.rows.length count
  if count ≤ 1 then allReduced (n := n) (x.map (layer.applyLinear rank))
  else if bounds.isEmpty then
    throw (.assertionError "_chunk_bounds never yields an empty split")
  else do
    let chunks ← ExceptT.lift (bounds.mapM fun span =>
      let chunk := ((x.rows.take span.2).drop span.1).map (layer.applyLinear rank)
      enterCall (.allReduce chunk.length) chunk)
    (Activations.ofRows chunks.flatten).view x.lead

/-- What `_dispatch_mode` decides. -/
inductive DispatchMode
  | passthrough
  | deferred
  | chunked
  | blocking

/-- `_dispatch_mode`. -/
def dispatchMode (worldSize : Nat) (deferred : Bool) (policy : CommOverlapPolicy) (rows : Nat) :
    DispatchMode :=
  if worldSize ≤ 1 then .passthrough
  else if deferred then .deferred
  else if policy.enabled && decide (policy.minRows ≤ rows) then .chunked
  else .blocking

/-- `row_parallel_forward`. A deferred reduction is taken for its value, which is what a reader
finds once it has been fenced. -/
def rowParallelForward [Zero X] (ctx : TpContext) (marks : SpMarks)
    (region : Option SequenceParallelRegion) (layer : Projection n A X) (rank : Fin n)
    (x : Activations A) : TpProgram X (Activations X) :=
  let partialSum := x.map (layer.applyLinear rank)
  if layer.node.reduceResults = false then pure partialSum
  else
    match region.filter fun _ => marks layer.node.id .gBar with
    | some region => rowParallelGBar ctx region layer rank x
    | none =>
      if ctx.onCpu && !ctx.deferred then allReduced (n := n) partialSum
      else
        match dispatchMode n ctx.deferred ctx.policy x.rows.length with
        | .passthrough => pure partialSum
        | .deferred => allReduced (n := n) partialSum
        | .chunked => chunkedRowParallel ctx layer rank x
        | .blocking => allReduced (n := n) partialSum

/-! ### Blocks -/

/-- `skip_rmsnorm`: the normalised rows and the running sum. -/
def skipRmsnorm [Add X] (norm : X → X) (x : Activations X) (residual : Option (Activations X)) :
    Except Raised (Activations X × Activations X) :=
  match residual with
  | none => .ok (x.map norm, x)
  | some residual => do
    let residual ← residual.view x.lead
    let sum ← (Activations.ofRows (x.rows.zipWith (· + ·) residual.rows)).view x.lead
    return (sum.map norm, sum)

/-- `DecoderLayer`, with the attention of each rank over the rows of the whole grid, whatever it
reads of the step and the cache. -/
structure DecoderLayer (n : Nat) (X Q O G I : Type) where
  inputNorm : X → X
  qkvProj : Projection n X Q
  attn : Fin n → GridMap Q O
  oProj : Projection n O X
  postAttentionNorm : X → X
  gateUpProj : Projection n X G
  swiglu : G → I
  downProj : Projection n I X

/-- `CausalLM`, with the payload of `_after_layer` when the step has one. -/
structure CausalLM (n : Nat) (X Q O G I : Type) where
  layers : List (DecoderLayer n X Q O G I)
  norm : X → X
  layerContext : Option (Nat → GridMap X X)

section Forward

variable [Zero X] [Add X] (ctx : TpContext) (marks : SpMarks)
  (region : Option SequenceParallelRegion) (rank : Fin n)

/-- `Attention.forward`, with the rows its attention has seen. -/
def attentionForward (layer : DecoderLayer n X Q O G I) (x : Activations X) :
    TpProgram X (Activations X × List Q) :=
  match x.lead with
  | [batchSize, seqLen] => do
    let qkv ← linearForward marks region layer.qkvProj rank (Activations.ofRows x.rows)
    let attnOutput := Activations.ofRows ((layer.attn rank).run qkv.rows)
    let out ← rowParallelForward ctx marks region layer.oProj rank attnOutput
    let out ← out.view [batchSize, seqLen]
    return (out, qkv.rows)
  | _ => throw (.valueError s!"{x.lead.length + 1} values to unpack (expected 3)")

/-- `FusedMLP.forward`. -/
def mlpForward (layer : DecoderLayer n X Q O G I) (x : Activations X) :
    TpProgram X (Activations X) := do
  let gateUp ← linearForward marks region layer.gateUpProj rank x
  rowParallelForward ctx marks region layer.downProj rank (gateUp.map layer.swiglu)

/-- `DecoderLayer.forward`: the attention stage, then the MLP stage. -/
def layerForward (layer : DecoderLayer n X Q O G I) (hiddenStates : Activations X)
    (residual : Option (Activations X)) :
    TpProgram X ((Activations X × Activations X) × List Q) := do
  let (normed, residual) ← skipRmsnorm layer.inputNorm hiddenStates residual
  let (attnOutput, seen) ← attentionForward ctx marks region rank layer normed
  let (normed, residual) ← skipRmsnorm layer.postAttentionNorm attnOutput (some residual)
  let out ← mlpForward ctx marks region rank layer normed
  return ((out, residual), seen)

/-- The loop over the layers. -/
def layersForward (layerContext : Option (Nat → GridMap X X)) :
    Nat → List (DecoderLayer n X Q O G I) → Activations X → Option (Activations X) →
      TpProgram X ((Activations X × Option (Activations X)) × List (List Q))
  | _, [], hiddenStates, residual => pure ((hiddenStates, residual), [])
  | index, layer :: layers, hiddenStates, residual => do
    let ((hiddenStates, residual), seen) ← layerForward ctx marks region rank layer hiddenStates
      residual
    let hiddenStates := match layerContext with
      | none => hiddenStates
      | some afterLayer => (afterLayer index).onTensor hiddenStates
    let (out, rest) ← layersForward layerContext (index + 1) layers hiddenStates (some residual)
    return (out, seen :: rest)

/-- `CausalLM.forward` inside the region it has opened, or in none: the hidden grid that goes to
the head, with what the attention of each layer has seen. -/
def forwardIn (model : CausalLM n X Q O G I) (hiddenStates : Activations X) :
    TpProgram X (Activations X × List (List Q)) := do
  let gridShape := hiddenStates.lead
  let hiddenStates := match region with
    | some region => entryScatter hiddenStates region
    | none => hiddenStates
  let ((hiddenStates, residual), seen) ← layersForward ctx marks region rank model.layerContext 0
    model.layers hiddenStates none
  let (hiddenStates, _) ← skipRmsnorm model.norm hiddenStates residual
  match region with
  | some region => do
    let hiddenStates ← exitGather n hiddenStates region gridShape
    return (hiddenStates, seen)
  | none => return (hiddenStates, seen)

/-- `CausalLM.forward`, for a model whose pass has matched something or nothing. -/
def forward (matched : List String) (model : CausalLM n X Q O G I) (hiddenStates : Activations X) :
    TpProgram X (Activations X × List (List Q)) :=
  let marked := !matched.isEmpty && model.layerContext.isNone
  forwardIn ctx marks (sequenceParallelRegion ctx hiddenStates.lead.prod marked rank) rank model
    hiddenStates

end Forward

end RapidLlm.SequenceParallel
