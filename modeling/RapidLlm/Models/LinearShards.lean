import Mathlib.Algebra.BigOperators.Intervals
import Mathlib.Data.PNat.Basic
import RapidLlm.Lib.Tiling
import RapidLlm.Models.LoadCoverage

/-!
# RapidLlm.Models.LinearShards

**Quantised linear layers cut across ranks** (the layers of `modules/linear.py`, the fused pair of
`modules/mlp.py`, `QuantizationConfig.scale_shape`). A layer holds a weight and a grid with one
scale for each block of `group_n` rows and `group_k` columns. Both are filled by the same loader,
which narrows a checkpoint tensor in proportion to its own extents, so nothing but the arithmetic
of the extents keeps a scale with its elements.

A matrix at a resolution is the common form: the weight is the grid of blocks of one element.
`follows_iff` says at which resolutions the loaded grid follows the matrix, layer by layer, and
`preserved_iff` what that makes of the layer. The one test of the constructors, a local width
that is a multiple of the larger group, is beside the point: blocks along the outputs matter to
the layers that split outputs, blocks along the inputs to the one that splits inputs.
-/

namespace RapidLlm

open Finset (range)
open Tiling (numTiles)

/-! ### Construction -/

/-- `QuantizationConfig.scale_shape`. -/
def ScaleBlocks.scaleShape (quant : ScaleBlocks) (outFeatures inFeatures : Nat) :
    Except Raised (List Nat) :=
  if quant.groupN = 0 ∨ quant.groupK = 0 then
    .error (.zeroDivisionError "integer division or modulo by zero")
  else .ok [numTiles outFeatures quant.groupN, numTiles inFeatures quant.groupK]

/-- What `LinearBase.__init__` leaves: the local sizes, the weight, and its grid of scales. -/
structure LinearBase where
  inputSize : Nat
  outputSize : Nat
  weight : Parameter
  weightScaleInv : Option Parameter
  deriving DecidableEq

/-- `LinearBase.__init__` without a bias. The parameters are those of `allocate_linear_weights`,
and for no quantisation those of the unquantised method. -/
def LinearBase.create (loader : WeightLoader) (inputSize outputSize : Nat)
    (quant : Option ScaleBlocks) : Except Raised LinearBase :=
  match quant with
  | none => .ok ⟨inputSize, outputSize, ⟨loader, [outputSize, inputSize]⟩, none⟩
  | some blocks => (blocks.scaleShape outputSize inputSize).map fun shape =>
      ⟨inputSize, outputSize, ⟨loader, [outputSize, inputSize]⟩, some ⟨loader, shape⟩⟩

/-- `ColumnParallelLinear.__init__`. -/
def createColumnParallel (grid : TpGrid) (quant : Option ScaleBlocks) (inputSize outputSize : Nat)
    (what : String) : Except Raised LinearBase := do
  let localOut ← divide outputSize grid.tpSize what
  checkShardAlignment quant localOut what
  LinearBase.create .column inputSize localOut quant

/-- `RowParallelLinear.__init__`. -/
def createRowParallel (grid : TpGrid) (quant : Option ScaleBlocks) (inputSize outputSize : Nat)
    (what : String) : Except Raised LinearBase := do
  let localIn ← divide inputSize grid.tpSize what
  checkShardAlignment quant localIn what
  LinearBase.create .row localIn outputSize quant

/-- A layer and its sizes, none of them zero. -/
inductive LinearGeometry
  | column (inputSize outputSize : ℕ+)
  | gateUp (hidden inter : ℕ+)
  | qkv (hiddenSize numHeads numKvHeads headDim : ℕ+)
  | row (inputSize outputSize : ℕ+)

namespace LinearGeometry

/-- The layer on a rank of a grid. The pair is built by `FusedMLP.__init__`, which looks at one
half before the layer looks at both. -/
def create (geom : LinearGeometry) (grid : TpGrid) (quant : Option ScaleBlocks) :
    Except Raised LinearBase :=
  match geom with
  | column inputSize outputSize =>
    createColumnParallel grid quant inputSize outputSize "output features"
  | gateUp hidden inter => do
    let localInter ← divide inter grid.tpSize "MLP intermediate"
    checkShardAlignment quant localInter "MLP intermediate"
    createColumnParallel grid quant hidden (2 * inter) "MLP intermediate"
  | qkv hiddenSize numHeads numKvHeads headDim => do
    let proj ← QKVParallelLinear.create grid quant numHeads numKvHeads headDim
    LinearBase.create (.qkv proj.qSize proj.kvSize) hiddenSize (proj.qSize + 2 * proj.kvSize) quant
  | row inputSize outputSize => createRowParallel grid quant inputSize outputSize "input features"

end LinearGeometry

/-! ### Loading -/

section Loading

variable {A : Type}

/-- The tensors of one parameter loaded in the order they come, into what the memory happens to
hold. -/
def Parameter.load (param : Parameter) (env : LoadRank) :
    List (Option ShardId × CkptTensor A) → (List Nat → A) → Except Raised (List Nat → A)
  | [], values => .ok values
  | entry :: stream, values =>
    (param.weightLoader env entry.1 entry.2).bind fun fill =>
      param.load env stream (fill.write values)

/-- The contents of a layer's parameters. -/
structure LoadedLinear (A : Type) where
  weight : List Nat → A
  scale : List Nat → A

/-- The tensors of a layer loaded. The two parameters share no memory. -/
def LinearBase.load (layer : LinearBase) (env : LoadRank)
    (weights scales : List (Option ShardId × CkptTensor A)) (start : LoadedLinear A) :
    Except Raised (LoadedLinear A) := do
  let weight ← layer.weight.load env weights start.weight
  let scale ← match layer.weightScaleInv with
    | none => pure start.scale
    | some param => param.load env scales start.scale
  pure ⟨weight, scale⟩

end Loading

/-! ### The full matrices -/

/-- A matrix of the checkpoint and the rows of the layer that come from it: `count` rows from
`start` on hold, on each of its `shards`, the matrix from a first row and column on. -/
structure LinearBlock where
  shardId : Option ShardId
  rows : Nat
  cols : Nat
  start : Nat
  count : Nat
  shards : Nat
  shard : Nat → Nat
  firstRow : Nat → Nat
  firstCol : Nat → Nat

/-- A matrix whose rows are split. -/
def LinearBlock.ofRows (shardId : Option ShardId) (rows cols start shards : Nat)
    (shard : Nat → Nat) : LinearBlock where
  shardId := shardId
  rows := rows
  cols := cols
  start := start
  count := rows / shards
  shards := shards
  shard := shard
  firstRow := fun rank => shard rank * (rows / shards)
  firstCol := fun _ => 0

/-- A matrix whose columns are split. -/
def LinearBlock.ofCols (rows cols shards : Nat) : LinearBlock where
  shardId := none
  rows := rows
  cols := cols
  start := 0
  count := rows
  shards := shards
  shard := fun rank => rank
  firstRow := fun _ => 0
  firstCol := fun rank => rank * (cols / shards)

/-- The matrices of a layer, in the order of its local rows. -/
def LinearGeometry.blocks (grid : TpGrid) : LinearGeometry → List LinearBlock
  | column inputSize outputSize => [.ofRows none outputSize inputSize 0 grid.tpSize id]
  | gateUp hidden inter =>
    [.ofRows (some (.block 0)) inter hidden 0 grid.tpSize id,
      .ofRows (some (.block 1)) inter hidden (inter / grid.tpSize) grid.tpSize id]
  | qkv hiddenSize numHeads numKvHeads headDim =>
    let q := numHeads * headDim / grid.tpSize
    let kv := numKvHeads * headDim / grid.kvShardCount
    [.ofRows (some (.block 0)) (numHeads * headDim) hiddenSize 0 grid.tpSize id,
      .ofRows (some (.block 1)) (numKvHeads * headDim) hiddenSize q grid.kvShardCount
        grid.kvShardIndex,
      .ofRows (some (.block 2)) (numKvHeads * headDim) hiddenSize (q + kv) grid.kvShardCount
        grid.kvShardIndex]
  | row inputSize outputSize => [.ofCols outputSize inputSize grid.tpSize]

/-- The entries of a matrix under group sizes `n` and `k`, as the checkpoint stores them. -/
def LinearBlock.tensor {A : Type} (block : LinearBlock) (n k : Nat)
    (values : Option ShardId → Nat → Nat → A) : Option ShardId × CkptTensor A :=
  (block.shardId, ⟨[numTiles block.rows n, numTiles block.cols k],
    fun index => values block.shardId (index.getD 0 0) (index.getD 1 0)⟩)

/-- A checkpoint of a layer: its matrices and their scales. -/
structure LinearCheckpoint (A : Type) where
  weight : Option ShardId → Nat → Nat → A
  scale : Option ShardId → Nat → Nat → A

namespace LinearCheckpoint

variable {A : Type} (ckpt : LinearCheckpoint A)

/-- The weight tensors. -/
def weights (blocks : List LinearBlock) : List (Option ShardId × CkptTensor A) :=
  blocks.map fun block => (block.shardId, ⟨[block.rows, block.cols],
    fun index => ckpt.weight block.shardId (index.getD 0 0) (index.getD 1 0)⟩)

/-- The scale tensors. -/
def scales (quant : Option ScaleBlocks) (blocks : List LinearBlock) :
    List (Option ShardId × CkptTensor A) :=
  match quant with
  | none => []
  | some groups => blocks.map fun block => block.tensor groups.groupN groups.groupK ckpt.scale

end LinearCheckpoint

section Products

variable {A : Type} [CommRing A]

/-- An element of the matrix a checkpoint stands for. -/
def LinearCheckpoint.dequant (ckpt : LinearCheckpoint A) (quant : Option ScaleBlocks)
    (shardId : Option ShardId) (i j : Nat) : A :=
  match quant with
  | none => ckpt.weight shardId i j
  | some groups =>
    ckpt.weight shardId i j * ckpt.scale shardId (i / groups.groupN) (j / groups.groupK)

/-- An element of the matrix a loaded layer multiplies by. -/
def LoadedLinear.dequant (loaded : LoadedLinear A) (quant : Option ScaleBlocks) (i j : Nat) : A :=
  match quant with
  | none => loaded.weight [i, j]
  | some groups => loaded.weight [i, j] * loaded.scale [i / groups.groupN, j / groups.groupK]

/-- An output of the full matrix. -/
def LinearBlock.product (block : LinearBlock) (quant : Option ScaleBlocks)
    (ckpt : LinearCheckpoint A) (x : Nat → A) (i : Nat) : A :=
  ∑ j ∈ range block.cols, x j * ckpt.dequant quant block.shardId i j

/-- Output `i` of a block on a rank, `apply_linear` on the inputs that are the rank's. -/
def LinearBlock.localProduct (block : LinearBlock) (quant : Option ScaleBlocks)
    (layer : LinearBase) (loaded : LoadedLinear A) (rank : Nat) (x : Nat → A) (i : Nat) : A :=
  ∑ j ∈ range layer.inputSize,
    x (block.firstCol rank + j) * loaded.dequant quant (block.start + i) j

end Products

/-! ### Preservation -/

section Preservation

variable {A : Type} [CommRing A]

/-- Each element of a block on a rank is the one of the full matrix, and the local grid has for
it the scale the checkpoint has for that one. -/
structure LinearBlock.Paired (block : LinearBlock) (quant : Option ScaleBlocks) (layer : LinearBase)
    (ckpt : LinearCheckpoint A) (rank : Nat) (loaded : LoadedLinear A) : Prop where
  weight : ∀ i < block.count, ∀ j < layer.inputSize, loaded.weight [block.start + i, j] =
    ckpt.weight block.shardId (block.firstRow rank + i) (block.firstCol rank + j)
  scale : ∀ groups, quant = some groups → ∀ i < block.count, ∀ j < layer.inputSize,
    loaded.scale [(block.start + i) / groups.groupN, j / groups.groupK] =
      ckpt.scale block.shardId ((block.firstRow rank + i) / groups.groupN)
        ((block.firstCol rank + j) / groups.groupK)

/-- The outputs of the ranks make up those of the full matrices: the ranks' rows in the order of
their shards where rows are split, the sums of the ranks where columns are. -/
def LinearGeometry.Multiplies (geom : LinearGeometry) (grid : TpGrid) (quant : Option ScaleBlocks)
    (layer : LinearBase) (ckpt : LinearCheckpoint A) (loaded : Nat → LoadedLinear A)
    (x : Nat → A) : Prop :=
  match geom with
  | row .. => ∀ block ∈ geom.blocks grid, ∀ i < block.count,
      ∑ rank ∈ range grid.tpSize, block.localProduct quant layer (loaded rank) rank x i =
        block.product quant ckpt x i
  | _ => ∀ block ∈ geom.blocks grid, ∀ holder : Nat → Nat,
      (∀ s < block.shards, holder s < grid.tpSize ∧ block.shard (holder s) = s) →
        ((List.range block.shards).flatMap fun s => (List.range block.count).map
          (block.localProduct quant layer (loaded (holder s)) (holder s) x)) =
            (List.range block.rows).map (block.product quant ckpt x)

/-- Every checkpoint loads on every rank, its tensors in any order, with every element and its
scale in place, and the ranks' products make up the full ones. -/
structure LinearGeometry.Preserved (A : Type) [CommRing A] (geom : LinearGeometry) (grid : TpGrid)
    (quant : Option ScaleBlocks) (layer : LinearBase) : Prop where
  tiles : ((geom.blocks grid).flatMap fun block => List.range' block.start block.count) =
    List.range layer.outputSize
  loads : ∀ (ckpt : LinearCheckpoint A) (weights scales : Nat → List LinearBlock)
    (start : Nat → LoadedLinear A),
    (∀ rank, (weights rank).Perm (geom.blocks grid) ∧ (scales rank).Perm (geom.blocks grid)) →
      ∃ loaded : Nat → LoadedLinear A,
        (∀ rank (h : rank < grid.tpSize), layer.load ⟨grid, rank, h⟩ (ckpt.weights (weights rank))
          (ckpt.scales quant (scales rank)) (start rank) = .ok (loaded rank) ∧
            ∀ block ∈ geom.blocks grid, block.Paired quant layer ckpt rank (loaded rank)) ∧
        ∀ x, geom.Multiplies grid quant layer ckpt loaded x

/-- A split that leaves the blocks of `n` rows and `k` columns whole, in each matrix by itself. -/
def LinearGeometry.Whole (geom : LinearGeometry) (grid : TpGrid) (n k : Nat) : Prop :=
  match geom with
  | column _ outputSize => grid.tpSize = 1 ∨ n ∣ outputSize / grid.tpSize
  | gateUp _ inter => n ∣ inter / grid.tpSize
  | qkv _ numHeads numKvHeads headDim => n ∣ numHeads / grid.tpSize * headDim ∧
      n ∣ numKvHeads / grid.kvShardCount * headDim
  | row inputSize _ => grid.tpSize = 1 ∨ k ∣ inputSize / grid.tpSize

/-- A split that leaves the scale blocks whole. -/
def LinearGeometry.BlocksWhole (geom : LinearGeometry) (grid : TpGrid) : Option ScaleBlocks → Prop
  | none => True
  | some groups => geom.Whole grid groups.groupN groups.groupK

end Preservation

/-! ### One parameter -/

section Load

variable {A : Type} {param : Parameter} {env : LoadRank}
  {stream : List (Option ShardId × CkptTensor A)} {values values' : List Nat → A}

/-- An element after a load: nothing of the stream goes there, or something does and it is what
its shard rule puts there. -/
theorem Parameter.load_inv (h : param.load env stream values = .ok values') (index : List Nat) :
    ((∀ entry ∈ stream, ¬ (param.block entry.1).Has (index.headD 0)) ∧
        values' index = values index) ∨
      ∃ entry ∈ stream, (param.block entry.1).Has (index.headD 0) ∧
        values' index = entry.2.entry (param.sourceIndex env entry.1 entry.2.shape index) := by
  induction stream generalizing values with
  | nil =>
    cases h
    exact .inl ⟨nofun, rfl⟩
  | cons entry stream ih =>
    obtain ⟨fill, hfill, hrest⟩ := bind_eq_ok.mp h
    have hfills := Parameter.weightLoader_inv hfill
    rcases ih hrest with ⟨hnone, hvalue⟩ | ⟨later, hlater, hhas, hvalue⟩
    · by_cases hcovers : fill.Covers index
      · refine .inr ⟨entry, List.mem_cons_self, hfills.span_eq ▸ hcovers, ?_⟩
        rw [hvalue, Fill.write, if_pos hcovers, hfills.entry_eq]
      · refine .inl ⟨List.forall_mem_cons.mpr ⟨hfills.span_eq ▸ hcovers, hnone⟩, ?_⟩
        rw [hvalue, Fill.write, if_neg hcovers]
    · exact .inr ⟨later, List.mem_cons_of_mem _ hlater, hhas, hvalue⟩

/-- A load returns if its tensors fit. -/
theorem Parameter.load_total (values : List Nat → A)
    (h : ∀ entry ∈ stream, ∃ fill, param.weightLoader env entry.1 entry.2 = .ok fill) :
    ∃ values', param.load env stream values = .ok values' := by
  induction stream generalizing values with
  | nil => exact ⟨values, rfl⟩
  | cons entry stream ih =>
    obtain ⟨⟨fill, hfill⟩, hrest⟩ := List.forall_mem_cons.mp h
    obtain ⟨values', hvalues⟩ := ih (fill.write values) hrest
    exact ⟨values', bind_eq_ok.mpr ⟨fill, hfill, hvalues⟩⟩

/-- The tensors of a load that returns fit. -/
theorem Parameter.load_fits (h : param.load env stream values = .ok values') :
    ∀ entry ∈ stream, ∃ fill, param.weightLoader env entry.1 entry.2 = .ok fill := by
  induction stream generalizing values with
  | nil => nofun
  | cons entry stream ih =>
    obtain ⟨fill, hfill, hrest⟩ := bind_eq_ok.mp h
    exact List.forall_mem_cons.mpr ⟨⟨fill, hfill⟩, ih hrest⟩

end Load

namespace LinearGeometry

/-- The loader of a layer's parameters. -/
def loader (grid : TpGrid) : LinearGeometry → WeightLoader
  | column .. | gateUp .. => .column
  | qkv _ numHeads numKvHeads headDim =>
    .qkv (numHeads / grid.tpSize * headDim) (numKvHeads / grid.kvShardCount * headDim)
  | row .. => .row

/-- The outputs of a rank. -/
def localOut (grid : TpGrid) : LinearGeometry → Nat
  | column _ outputSize => outputSize / grid.tpSize
  | gateUp _ inter => 2 * inter / grid.tpSize
  | qkv _ numHeads numKvHeads headDim => numHeads / grid.tpSize * headDim +
      2 * (numKvHeads / grid.kvShardCount * headDim)
  | row _ outputSize => outputSize

/-- The inputs of a rank. -/
def localIn (grid : TpGrid) : LinearGeometry → Nat
  | column inputSize _ | gateUp inputSize _ | qkv inputSize .. => inputSize
  | row inputSize _ => inputSize / grid.tpSize

/-- The extents divide across the ranks. -/
def Divides (grid : TpGrid) : LinearGeometry → Prop
  | column _ extent | gateUp _ extent | row extent _ => grid.tpSize ∣ extent
  | qkv _ numHeads numKvHeads _ => grid.tpSize ∣ numHeads ∧ grid.kvShardCount ∣ numKvHeads

/-- The parameter of a layer for the matrix at a resolution. -/
def param (geom : LinearGeometry) (grid : TpGrid) (n k : Nat) : Parameter :=
  ⟨geom.loader grid, [numTiles (geom.localOut grid) n, numTiles (geom.localIn grid) k]⟩

/-- The tensors load, in any order, and every element of the layer finds at its place in the local
grid the entry of its place in the full one. -/
def Follows (A : Type) (geom : LinearGeometry) (grid : TpGrid) (n k : Nat) : Prop :=
  ∀ (values : Option ShardId → Nat → Nat → A) (start : List Nat → A) (order : List LinearBlock)
    (rank : Nat) (hrank : rank < grid.tpSize), order.Perm (geom.blocks grid) →
    ∃ loaded, (geom.param grid n k).load ⟨grid, rank, hrank⟩
        (order.map fun block => block.tensor n k values) start = .ok loaded ∧
      ∀ block ∈ geom.blocks grid, ∀ i < block.count, ∀ j < geom.localIn grid,
        loaded [(block.start + i) / n, j / k] =
          values block.shardId ((block.firstRow rank + i) / n) ((block.firstCol rank + j) / k)

/-- A rank's views and shares, seen from its elements. -/
structure Sourced (A : Type) (geom : LinearGeometry) (grid : TpGrid) (n k rank : Nat)
    (hrank : rank < grid.tpSize) : Prop where
  fits : ∀ block ∈ geom.blocks grid, ∀ values : Option ShardId → Nat → Nat → A,
    ∃ fill, (geom.param grid n k).weightLoader ⟨grid, rank, hrank⟩ block.shardId
      (block.tensor n k values).2 = .ok fill
  covers : ∀ block ∈ geom.blocks grid, ∀ i < block.count,
    ((geom.param grid n k).block block.shardId).Has ((block.start + i) / n)
  source : ∀ block ∈ geom.blocks grid, ∀ i < block.count, ∀ j < geom.localIn grid,
    ∀ index, index = (geom.param grid n k).sourceIndex ⟨grid, rank, hrank⟩ block.shardId
        [numTiles block.rows n, numTiles block.cols k] [(block.start + i) / n, j / k] →
      index.getD 0 0 = (block.firstRow rank + i) / n ∧
        index.getD 1 0 = (block.firstCol rank + j) / k

variable {A : Type} {geom : LinearGeometry} {grid : TpGrid} {n k rank place : Nat}
  {block block' : LinearBlock} {hrank : rank < grid.tpSize}

/-- No row of a parameter belongs to two blocks. -/
theorem block_unique (hblock : block ∈ geom.blocks grid) (hblock' : block' ∈ geom.blocks grid)
    (h : ((geom.param grid n k).block block.shardId).Has place)
    (h' : ((geom.param grid n k).block block'.shardId).Has place) : block = block' := by
  have happart : ∀ {span span' : Span},
      (geom.param grid n k).piece block.shardId = some span →
        (geom.param grid n k).piece block'.shardId = some span' →
          block.shardId = block'.shardId := by
    intro span span' hpiece hpiece'
    by_contra hne
    unfold Parameter.block at h h'
    rw [hpiece] at h
    rw [hpiece'] at h'
    exact Parameter.pieces_apart hpiece hpiece' hne place ⟨h, h'⟩
  cases geom with
  | column | row => exact (List.mem_singleton.mp hblock).trans (List.mem_singleton.mp hblock').symm
  | gateUp hidden inter =>
    simp only [blocks, List.mem_cons, List.not_mem_nil, or_false] at hblock hblock'
    rcases hblock with rfl | rfl <;> rcases hblock' with rfl | rfl
    all_goals first | rfl | cases happart rfl rfl
  | qkv hiddenSize numHeads numKvHeads headDim =>
    simp only [blocks, List.mem_cons, List.not_mem_nil, or_false] at hblock hblock'
    rcases hblock with rfl | rfl | rfl <;> rcases hblock' with rfl | rfl | rfl
    all_goals first | rfl | cases happart rfl rfl

theorem Sourced.follows (h : ∀ rank hrank, geom.Sourced A grid n k rank hrank) :
    geom.Follows A grid n k := by
  intro values start order rank hrank horder
  obtain ⟨hfits, hcovers, hsource⟩ := h rank hrank
  have htotal : ∀ entry ∈ order.map fun block => block.tensor n k values,
      ∃ fill, (geom.param grid n k).weightLoader ⟨grid, rank, hrank⟩ entry.1 entry.2 =
        .ok fill := by
    intro entry hentry
    obtain ⟨block, hblock, rfl⟩ := List.mem_map.mp hentry
    exact hfits block (horder.mem_iff.mp hblock) values
  obtain ⟨loaded, hloaded⟩ := Parameter.load_total start htotal
  refine ⟨loaded, hloaded, fun block hblock i hi j hj => ?_⟩
  rcases Parameter.load_inv hloaded [(block.start + i) / n, j / k] with
    ⟨hnone, -⟩ | ⟨entry, hentry, hhas, hvalue⟩
  · refine absurd (hcovers block hblock i hi) (hnone (block.tensor n k values) ?_)
    exact List.mem_map_of_mem (horder.mem_iff.mpr hblock)
  · obtain ⟨block', hblock', rfl⟩ := List.mem_map.mp hentry
    obtain rfl := block_unique hblock (horder.mem_iff.mp hblock') (hcovers block hblock i hi) hhas
    obtain ⟨hrow, hcol⟩ := hsource block hblock i hi j hj _ rfl
    rw [hvalue, ← hrow, ← hcol]
    rfl

/-- A grid that follows the matrix takes every entry from its own place. -/
theorem Follows.sourced {A : Type} [Zero A] [One A] [NeZero (1 : A)]
    (h : geom.Follows A grid n k) (hin : 0 < geom.localIn grid) (rank : Nat)
    (hrank : rank < grid.tpSize) : geom.Sourced A grid n k rank hrank := by
  -- one entry of one matrix is 1, and nothing else, the memory included
  have hentry : ∀ block ∈ geom.blocks grid, ∀ i < block.count, ∀ j < geom.localIn grid,
      ((geom.param grid n k).block block.shardId).Has ((block.start + i) / n) ∧
        ∀ index, index = (geom.param grid n k).sourceIndex ⟨grid, rank, hrank⟩ block.shardId
            [numTiles block.rows n, numTiles block.cols k] [(block.start + i) / n, j / k] →
          index.getD 0 0 = (block.firstRow rank + i) / n ∧
            index.getD 1 0 = (block.firstCol rank + j) / k := by
    intro block hblock i hi j hj
    let values : Option ShardId → Nat → Nat → A := fun shardId r c =>
      if shardId = block.shardId ∧ r = (block.firstRow rank + i) / n ∧
        c = (block.firstCol rank + j) / k then 1 else 0
    obtain ⟨loaded, hloaded, hvalue⟩ :=
      h values (fun _ => 0) (geom.blocks grid) rank hrank (List.Perm.refl _)
    have hone : loaded [(block.start + i) / n, j / k] = 1 :=
      (hvalue block hblock i hi j hj).trans (if_pos ⟨rfl, rfl, rfl⟩)
    rcases Parameter.load_inv hloaded [(block.start + i) / n, j / k] with
      ⟨-, hzero⟩ | ⟨entry, hentry, hhas, hfrom⟩
    · exact absurd (hzero.symm.trans hone) zero_ne_one
    · obtain ⟨block', hblock', rfl⟩ := List.mem_map.mp hentry
      have hplace := hfrom.symm.trans hone
      dsimp only [LinearBlock.tensor, values] at hplace
      split at hplace
      · next hsame =>
        obtain ⟨hid, hrow, hcol⟩ := hsame
        dsimp only [LinearBlock.tensor] at hhas
        obtain rfl := block_unique hblock hblock' (hid ▸ hhas) hhas
        refine ⟨hhas, fun index hindex => ?_⟩
        rw [hindex]
        exact ⟨hrow, hcol⟩
      · exact absurd hplace zero_ne_one
  refine ⟨fun block hblock values => ?_,
    fun block hblock i hi => (hentry block hblock i hi 0 hin).1,
    fun block hblock i hi j hj => (hentry block hblock i hi j hj).2⟩
  obtain ⟨loaded, hloaded, -⟩ :=
    h values (fun _ => 0) (geom.blocks grid) rank hrank (List.Perm.refl _)
  exact Parameter.load_fits hloaded _ (List.mem_map_of_mem hblock)

/-! ### Where views and shares lie -/

theorem shareIndex_rows {shards place extent width : Nat} (h : place < shards) (i j : Nat) :
    CkptTensor.shareIndex 0 shards place [extent, width] [i, j] =
      [place * (extent / shards) + i, j] := by
  unfold CkptTensor.shareIndex
  split
  · rfl
  · obtain rfl : place = 0 := by omega
    rw [Nat.zero_mul, Nat.zero_add]

theorem shareIndex_cols {shards place extent width : Nat} (h : place < shards) (i j : Nat) :
    CkptTensor.shareIndex 1 shards place [width, extent] [i, j] =
      [i, place * (extent / shards) + j] := by
  unfold CkptTensor.shareIndex
  split
  · rfl
  · obtain rfl : place = 0 := by omega
    rw [Nat.zero_mul, Nat.zero_add]

theorem share_rows {t : CkptTensor A} {shards extent width : Nat} (place : Nat)
    (hshards : 0 < shards) (hshape : t.shape = [extent, width]) :
    ∃ share, t.share 0 shards place = .ok share ∧ share.shape = [extent / shards, width] := by
  unfold CkptTensor.share
  rw [hshape]
  split
  · exact ⟨_, rfl, by simp [CkptTensor.narrow, hshape]⟩
  · obtain rfl : shards = 1 := by omega
    exact ⟨t, rfl, by rw [hshape, Nat.div_one]⟩

theorem share_cols {t : CkptTensor A} {shards extent width : Nat} (place : Nat)
    (hshards : 0 < shards) (hshape : t.shape = [width, extent]) :
    ∃ share, t.share 1 shards place = .ok share ∧ share.shape = [width, extent / shards] := by
  unfold CkptTensor.share
  rw [hshape]
  split
  · exact ⟨_, rfl, by simp [CkptTensor.narrow, hshape]⟩
  · obtain rfl : shards = 1 := by omega
    exact ⟨t, rfl, by rw [hshape, Nat.div_one]⟩

/-- A copy goes through exactly if the shapes agree. -/
theorem copyInto_fits {view : Span × List Nat} {loaded : CkptTensor A} :
    (∃ fill, Parameter.copyInto view loaded = .ok fill) ↔ view.2 = loaded.shape := by
  unfold Parameter.copyInto
  by_cases h : view.2 = loaded.shape
  · rw [if_neg (not_not_intro h)]
    exact iff_of_true ⟨_, rfl⟩ h
  · rw [if_pos h]
    exact iff_of_false nofun h

section Fits

variable {param : Parameter} {env : LoadRank} {loaded : CkptTensor A}
  {paramRows paramCols loadedRows loadedCols : Nat}

/-- Whether a tensor fits behind a view, once the view is taken. -/
theorem fits_iff {view : Span × List Nat} {share : CkptTensor A} {shape : List Nat}
    {viewed : Except Raised (Span × List Nat)} {shared : Except Raised (CkptTensor A)}
    (hview : viewed = .ok view) (hshare : shared = .ok share) (hshape : share.shape = shape) :
    (∃ fill, (do
      let view ← viewed
      let loaded ← shared
      Parameter.copyInto view loaded) = .ok fill) ↔ view.2 = shape := by
  subst hview hshare hshape
  exact copyInto_fits

theorem column_fits (hloader : param.loader = .column)
    (hparam : param.shape = [paramRows, paramCols])
    (hloaded : loaded.shape = [loadedRows, loadedCols]) :
    (∃ fill, param.weightLoader env none loaded = .ok fill) ↔
      [paramRows, paramCols] = [loadedRows / env.grid.tpSize, loadedCols] := by
  obtain ⟨share, hshare, hshape⟩ := share_rows env.rank env.grid.tpSize_pos hloaded
  unfold Parameter.weightLoader
  rw [hloader]
  exact (fits_iff rfl hshare hshape).trans (by rw [Parameter.whole, hparam])

theorem row_fits (hloader : param.loader = .row) (hparam : param.shape = [paramRows, paramCols])
    (hloaded : loaded.shape = [loadedRows, loadedCols]) :
    (∃ fill, param.weightLoader env none loaded = .ok fill) ↔
      [paramRows, paramCols] = [loadedRows, loadedCols / env.grid.tpSize] := by
  obtain ⟨share, hshare, hshape⟩ := share_cols env.rank env.grid.tpSize_pos hloaded
  unfold Parameter.weightLoader
  rw [hloader]
  exact (fits_iff rfl hshare hshape).trans (by rw [Parameter.whole, hparam])

theorem narrowRows_ok {start count : Nat} (h : start + count ≤ param.rows)
    (hparam : param.shape = [paramRows, paramCols]) :
    param.narrowRows start count = .ok (⟨start, count⟩, [count, paramCols]) := by
  unfold Parameter.narrowRows
  rw [if_neg (Nat.not_lt_of_le h), hparam]
  rfl

/-- A half of a pair. -/
theorem half_fits {index : Nat} (hindex : index < 2) (hloader : param.loader = .column)
    (hparam : param.shape = [paramRows, paramCols])
    (hloaded : loaded.shape = [loadedRows, loadedCols])
    (h : [paramRows / 2, paramCols] = [loadedRows / env.grid.tpSize, loadedCols]) :
    ∃ fill, param.weightLoader env (some (.block index)) loaded = .ok fill := by
  obtain ⟨share, hshare, hshape⟩ := share_rows env.rank env.grid.tpSize_pos hloaded
  have hrows : param.rows = paramRows := by rw [Parameter.rows, hparam]; rfl
  have hinside : index * (paramRows / 2) + paramRows / 2 ≤ param.rows := by
    have := Nat.mul_le_mul_right (paramRows / 2) (Nat.le_of_lt_succ hindex)
    omega
  have hview : param.columnView (some (.block index)) =
      .ok (⟨index * (paramRows / 2), paramRows / 2⟩, [paramRows / 2, paramCols]) := by
    unfold Parameter.columnView
    rw [hparam]
    exact narrowRows_ok hinside hparam
  unfold Parameter.weightLoader
  rw [hloader]
  exact (fits_iff hview hshare hshape).mpr h

/-- A block of `[q | k | v]`. -/
theorem qkv_fits {qSize kvSize index factor offset count : Nat}
    (hloader : param.loader = .qkv qSize kvSize) (hparam : param.shape = [paramRows, paramCols])
    (hloaded : loaded.shape = [loadedRows, loadedCols])
    (hrows : 0 < paramRows) (hfactor : (qSize + 2 * kvSize) / paramRows = factor)
    (hpos : 0 < factor)
    (hblock : Parameter.qkvBlock (qSize / factor) (kvSize / factor) index = some (offset, count))
    (hinside : offset + count ≤ paramRows)
    (hshards : 0 < (Parameter.qkvShards env (some (.block index))).1)
    (h : [count, paramCols] =
      [loadedRows / (Parameter.qkvShards env (some (.block index))).1, loadedCols]) :
    ∃ fill, param.weightLoader env (some (.block index)) loaded = .ok fill := by
  obtain ⟨share, hshare, hshape⟩ :=
    share_rows (Parameter.qkvShards env (some (.block index))).2 hshards hloaded
  have hparamRows : param.rows = paramRows := by rw [Parameter.rows, hparam]; rfl
  have hview : param.qkvView qSize kvSize (some (.block index)) =
      .ok (⟨offset, count⟩, [count, paramCols]) := by
    unfold Parameter.qkvView
    simp only [hparam, hfactor, hblock]
    rw [if_neg (by omega)]
    exact narrowRows_ok (hparamRows ▸ hinside) hparam
  unfold Parameter.weightLoader
  rw [hloader]
  exact (fits_iff hview hshare hshape).mpr h

end Fits

/-! ### Layer by layer -/

variable {inputSize outputSize hidden inter numHeads numKvHeads headDim : ℕ+}

theorem column_sourced_iff [Zero A] (hn : 0 < n) (hdiv : grid.tpSize ∣ outputSize) :
    (∀ rank hrank, (column inputSize outputSize).Sourced A grid n k rank hrank) ↔
      (column inputSize outputSize).Whole grid n k := by
  have htp := grid.tpSize_pos
  obtain ⟨width, hwidth⟩ := hdiv
  have hlocal : (outputSize : Nat) / grid.tpSize = width := by
    rw [hwidth, Nat.mul_div_cancel_left _ htp]
  have hpos : 0 < width := Nat.pos_of_mul_pos_left (hwidth ▸ outputSize.pos)
  have hmem : ∀ block, block ∈ (column inputSize outputSize).blocks grid ↔
      block = .ofRows none outputSize inputSize 0 grid.tpSize id := fun _ => List.mem_singleton
  have hparam : ((column inputSize outputSize).param grid n k).shape =
      [numTiles width n, numTiles inputSize k] := by rw [← hlocal]; rfl
  have hsourceIndex : ∀ (rank : Nat) (hrank : rank < grid.tpSize) (i j : Nat),
      ((column inputSize outputSize).param grid n k).sourceIndex ⟨grid, rank, hrank⟩ none
        [numTiles outputSize n, numTiles inputSize k] [i, j] =
          [rank * (numTiles (grid.tpSize * width) n / grid.tpSize) + i, j] :=
    fun rank hrank i j => (shareIndex_rows hrank i j).trans (by rw [hwidth])
  have hfits_iff : ∀ (rank : Nat) (hrank : rank < grid.tpSize)
      (values : Option ShardId → Nat → Nat → A),
      (∃ fill, ((column inputSize outputSize).param grid n k).weightLoader ⟨grid, rank, hrank⟩ none
        ((LinearBlock.ofRows none outputSize inputSize 0 grid.tpSize id).tensor n k values).2 =
          .ok fill) ↔ numTiles (grid.tpSize * width) n / grid.tpSize = numTiles width n := by
    intro rank hrank values
    refine (column_fits rfl hparam rfl).trans ?_
    rw [← hwidth]
    simp [LinearBlock.ofRows, eq_comm]
  simp only [Whole, hlocal]
  constructor
  · intro h
    refine or_iff_not_imp_left.mpr fun hone => ?_
    have hrank : 1 < grid.tpSize := by omega
    obtain ⟨hfits, -, hsource⟩ := h 1 hrank
    have hcount := (hfits_iff 1 hrank fun _ _ _ => 0).mp (hfits _ ((hmem _).mpr rfl) _)
    obtain ⟨hrow, -⟩ := hsource _ ((hmem _).mpr rfl) 0 (hpos.trans_eq hlocal.symm) 0
      inputSize.pos _
      (hsourceIndex 1 hrank _ _).symm
    rw [hcount] at hrow
    refine Tiling.dvd_of_numTiles_le hn (le_of_eq ?_)
    simpa [LinearBlock.ofRows, hlocal] using hrow
  · intro h rank hrank
    have hruns := Tiling.numTiles_runs hn hrank h
    refine ⟨fun block hblock values => ?_, fun block hblock i hi => ?_,
      fun block hblock i hi j hj index hindex => ?_⟩
    all_goals obtain rfl := (hmem block).mp hblock
    · exact (hfits_iff rank hrank values).mpr (hruns 0).1
    · have hwhole : ((column inputSize outputSize).param grid n k).rows = numTiles width n := by
        rw [Parameter.rows, hparam]
        rfl
      refine ⟨Nat.zero_le _, ?_⟩
      change (0 + i) / n < 0 + ((column inputSize outputSize).param grid n k).rows
      rw [hwhole, Nat.zero_add, Nat.zero_add]
      exact Tiling.lt_numTiles hn (hi.trans_eq hlocal)
    · rw [hindex]
      refine (congrArg (fun index => index.getD 0 0 = _ ∧ index.getD 1 0 = _)
        (hsourceIndex rank hrank _ _)).mpr ?_
      dsimp only [LinearBlock.ofRows, List.getD_cons_zero, List.getD_cons_succ, id]
      rw [hlocal, (hruns i).2, Nat.zero_add, Nat.zero_add]
      exact ⟨rfl, rfl⟩

theorem row_sourced_iff [Zero A] (hn : 0 < n) (hk : 0 < k) (hdiv : grid.tpSize ∣ inputSize) :
    (∀ rank hrank, (row inputSize outputSize).Sourced A grid n k rank hrank) ↔
      (row inputSize outputSize).Whole grid n k := by
  have htp := grid.tpSize_pos
  obtain ⟨width, hwidth⟩ := hdiv
  have hlocal : (inputSize : Nat) / grid.tpSize = width := by
    rw [hwidth, Nat.mul_div_cancel_left _ htp]
  have hpos : 0 < width := Nat.pos_of_mul_pos_left (hwidth ▸ inputSize.pos)
  have hmem : ∀ block, block ∈ (row inputSize outputSize).blocks grid ↔
      block = .ofCols outputSize inputSize grid.tpSize := fun _ => List.mem_singleton
  have hparam : ((row inputSize outputSize).param grid n k).shape =
      [numTiles outputSize n, numTiles width k] := by rw [← hlocal]; rfl
  have hsourceIndex : ∀ (rank : Nat) (hrank : rank < grid.tpSize) (i j : Nat),
      ((row inputSize outputSize).param grid n k).sourceIndex ⟨grid, rank, hrank⟩ none
        [numTiles outputSize n, numTiles inputSize k] [i, j] =
          [i, rank * (numTiles (grid.tpSize * width) k / grid.tpSize) + j] :=
    fun rank hrank i j => (shareIndex_cols hrank i j).trans (by rw [hwidth])
  have hfits_iff : ∀ (rank : Nat) (hrank : rank < grid.tpSize)
      (values : Option ShardId → Nat → Nat → A),
      (∃ fill, ((row inputSize outputSize).param grid n k).weightLoader ⟨grid, rank, hrank⟩ none
        ((LinearBlock.ofCols outputSize inputSize grid.tpSize).tensor n k values).2 = .ok fill) ↔
          numTiles (grid.tpSize * width) k / grid.tpSize = numTiles width k := by
    intro rank hrank values
    refine (row_fits rfl hparam rfl).trans ?_
    rw [← hwidth]
    simp [LinearBlock.ofCols, eq_comm]
  simp only [Whole, hlocal]
  constructor
  · intro h
    refine or_iff_not_imp_left.mpr fun hone => ?_
    have hrank : 1 < grid.tpSize := by omega
    obtain ⟨hfits, -, hsource⟩ := h 1 hrank
    have hcount := (hfits_iff 1 hrank fun _ _ _ => 0).mp (hfits _ ((hmem _).mpr rfl) _)
    obtain ⟨-, hcol⟩ := hsource _ ((hmem _).mpr rfl) 0 outputSize.pos 0
      (hpos.trans_eq hlocal.symm) _ (hsourceIndex 1 hrank _ _).symm
    rw [hcount] at hcol
    refine Tiling.dvd_of_numTiles_le hk (le_of_eq ?_)
    simpa [LinearBlock.ofCols, hlocal] using hcol
  · intro h rank hrank
    have hruns := Tiling.numTiles_runs hk hrank h
    refine ⟨fun block hblock values => ?_, fun block hblock i hi => ?_,
      fun block hblock i hi j hj index hindex => ?_⟩
    all_goals obtain rfl := (hmem block).mp hblock
    · exact (hfits_iff rank hrank values).mpr (hruns 0).1
    · have hwhole : ((row inputSize outputSize).param grid n k).rows = numTiles outputSize n := rfl
      refine ⟨Nat.zero_le _, ?_⟩
      change (0 + i) / n < 0 + ((row inputSize outputSize).param grid n k).rows
      rw [hwhole, Nat.zero_add, Nat.zero_add]
      exact Tiling.lt_numTiles hn hi
    · rw [hindex]
      refine (congrArg (fun index => index.getD 0 0 = _ ∧ index.getD 1 0 = _)
        (hsourceIndex rank hrank _ _)).mpr ?_
      dsimp only [LinearBlock.ofCols, List.getD_cons_zero, List.getD_cons_succ]
      rw [hlocal, (hruns j).2]
      exact ⟨rfl, rfl⟩

theorem gateUp_sourced_iff (hn : 0 < n) (hdiv : grid.tpSize ∣ inter) :
    (∀ rank hrank, (gateUp hidden inter).Sourced A grid n k rank hrank) ↔
      (gateUp hidden inter).Whole grid n k := by
  have htp := grid.tpSize_pos
  obtain ⟨half, hhalf⟩ := hdiv
  have hlocal : (inter : Nat) / grid.tpSize = half := by
    rw [hhalf, Nat.mul_div_cancel_left _ htp]
  have hpos : 0 < half := Nat.pos_of_mul_pos_left (hhalf ▸ inter.pos)
  have hboth : 2 * (inter : Nat) / grid.tpSize = 2 * half := by
    rw [hhalf, Nat.mul_left_comm, Nat.mul_div_cancel_left _ htp]
  have hmem : ∀ block, block ∈ (gateUp hidden inter).blocks grid ↔ ∃ index < 2,
      block = .ofRows (some (.block index)) inter hidden (index * half) grid.tpSize id := by
    intro block
    simp only [blocks, List.mem_cons, List.not_mem_nil, or_false, hlocal]
    constructor
    · rintro (rfl | rfl)
      · exact ⟨0, Nat.zero_lt_two, by rw [Nat.zero_mul]⟩
      · exact ⟨1, Nat.one_lt_two, by rw [Nat.one_mul]⟩
    · rintro ⟨index, hindex, rfl⟩
      rcases Nat.le_one_iff_eq_zero_or_eq_one.mp (Nat.le_of_lt_succ hindex) with rfl | rfl
      · exact .inl (by rw [Nat.zero_mul])
      · exact .inr (by rw [Nat.one_mul])
  have hparam : ((gateUp hidden inter).param grid n k).shape =
      [numTiles (2 * half) n, numTiles hidden k] := by rw [← hboth]; rfl
  have hview : ∀ index, ((gateUp hidden inter).param grid n k).block (some (.block index)) =
      ⟨index * (numTiles (2 * half) n / 2), numTiles (2 * half) n / 2⟩ := by
    intro index
    rw [← hboth]
    rfl
  have hsourceIndex : ∀ (rank : Nat) (hrank : rank < grid.tpSize) (index i j : Nat),
      ((gateUp hidden inter).param grid n k).sourceIndex ⟨grid, rank, hrank⟩ (some (.block index))
        [numTiles inter n, numTiles hidden k] [i, j] =
          [rank * (numTiles inter n / grid.tpSize) +
            (i - index * (numTiles (2 * half) n / 2)), j] := by
    intro rank hrank index i j
    rw [← shareIndex_rows hrank]
    have hstart := congrArg Span.start (hview index)
    dsimp only at hstart
    rw [← hstart]
    rfl
  simp only [Whole, hlocal]
  constructor
  · intro h
    obtain ⟨-, hcovers, -⟩ := h 0 htp
    have hlast := hcovers _ ((hmem _).mpr ⟨0, Nat.zero_lt_two, rfl⟩) (half - 1)
      ((Nat.sub_lt hpos Nat.one_pos).trans_eq hlocal.symm)
    have hfirst := hcovers _ ((hmem _).mpr ⟨1, Nat.one_lt_two, rfl⟩) 0 (hpos.trans_eq hlocal.symm)
    simp only [LinearBlock.ofRows, hview, Span.Has, Nat.zero_mul, Nat.one_mul, Nat.zero_add,
      Nat.add_zero] at hlast hfirst
    exact Tiling.dvd_of_div_lt hpos (hlast.2.trans_le hfirst.1)
  · intro h rank hrank
    obtain ⟨q, rfl⟩ := h
    have hq : numTiles (2 * (n * q)) n / 2 = q := by
      rw [Tiling.numTiles_of_dvd hn ((Dvd.intro _ rfl).mul_left 2), Nat.mul_left_comm,
        Nat.mul_div_cancel_left _ hn, Nat.mul_div_cancel_left _ Nat.zero_lt_two]
    have hshare : numTiles inter n / grid.tpSize = q := by
      rw [hhalf, (Tiling.numTiles_runs hn hrank (.inr (Dvd.intro _ rfl)) 0).1,
        Tiling.numTiles_of_dvd hn (Dvd.intro _ rfl), Nat.mul_div_cancel_left _ hn]
    refine ⟨fun block hblock values => ?_, fun block hblock i hi => ?_,
      fun block hblock i hi j hj index' hindex' => ?_⟩
    all_goals obtain ⟨index, hindex, rfl⟩ := (hmem block).mp hblock
    · refine half_fits hindex rfl hparam rfl ?_
      rw [hq]
      exact congrArg (fun r => [r, _]) hshare.symm
    · have hplace : (index * (n * q) + i) / n = index * q + i / n := by
        rw [Nat.mul_left_comm, Nat.mul_add_div hn]
      have hi : i / n < q := Nat.div_lt_of_lt_mul (hi.trans_eq hlocal)
      simp only [LinearBlock.ofRows, hview, Span.Has, hq, hplace]
      exact ⟨Nat.le_add_right _ _, Nat.add_lt_add_left hi _⟩
    · have hplace : (index * (n * q) + i) / n = index * q + i / n := by
        rw [Nat.mul_left_comm, Nat.mul_add_div hn]
      rw [hindex']
      refine (congrArg (fun index => index.getD 0 0 = _ ∧ index.getD 1 0 = _)
        (hsourceIndex rank hrank _ _ _)).mpr ?_
      dsimp only [LinearBlock.ofRows, List.getD_cons_zero, List.getD_cons_succ, id]
      rw [hshare, hq, hplace, hlocal, Nat.mul_left_comm rank, Nat.mul_add_div hn,
        Nat.add_sub_cancel_left, Nat.zero_add]
      exact ⟨rfl, rfl⟩

/-! The three blocks of `[q | k | v]`, by their index: the rows on a rank, where they start, the
ways the block is split and the share of a rank. -/

def qkvCount (q kv index : Nat) : Nat := if index = 0 then q else kv

def qkvStart (q kv index : Nat) : Nat := if index = 0 then 0 else if index = 1 then q else q + kv

def qkvWays (grid : TpGrid) (index : Nat) : Nat :=
  if index = 0 then grid.tpSize else grid.kvShardCount

def qkvPlace (grid : TpGrid) (index : Nat) : Nat → Nat :=
  if index = 0 then id else grid.kvShardIndex

theorem qkvWays_pos (grid : TpGrid) (index : Nat) : 0 < qkvWays grid index := by
  unfold qkvWays
  split
  · exact grid.tpSize_pos
  · exact grid.kvShardCount_pos

theorem qkvPlace_lt (index : Nat) (hrank : rank < grid.tpSize) :
    qkvPlace grid index rank < qkvWays grid index := by
  unfold qkvPlace qkvWays
  split
  · exact hrank
  · exact grid.kvShardIndex_lt hrank

theorem qkvShards_eq (hrank : rank < grid.tpSize) (index : Nat) :
    Parameter.qkvShards ⟨grid, rank, hrank⟩ (some (.block index)) =
      (qkvWays grid index, qkvPlace grid index rank) := by
  unfold Parameter.qkvShards qkvWays qkvPlace
  by_cases hzero : index = 0
  · simp [hzero]
  · simp [hzero]

/-- A fused projection with its local widths. -/
structure QkvWidths (grid : TpGrid) (numHeads numKvHeads headDim : ℕ+) (q kv : Nat) : Prop where
  q_eq : (numHeads : Nat) / grid.tpSize * headDim = q
  kv_eq : (numKvHeads : Nat) / grid.kvShardCount * headDim = kv
  full : (numHeads : Nat) * headDim = grid.tpSize * q
  fullKv : (numKvHeads : Nat) * headDim = grid.kvShardCount * kv
  q_pos : 0 < q
  kv_pos : 0 < kv

theorem qkvWidths (hheads : grid.tpSize ∣ numHeads) (hkvHeads : grid.kvShardCount ∣ numKvHeads) :
    QkvWidths grid numHeads numKvHeads headDim (numHeads / grid.tpSize * headDim)
      (numKvHeads / grid.kvShardCount * headDim) where
  q_eq := rfl
  kv_eq := rfl
  full := by rw [← Nat.mul_assoc, Nat.mul_div_cancel' hheads]
  fullKv := by rw [← Nat.mul_assoc, Nat.mul_div_cancel' hkvHeads]
  q_pos := Nat.mul_pos (Nat.div_pos (Nat.le_of_dvd numHeads.pos hheads) grid.tpSize_pos) headDim.pos
  kv_pos := Nat.mul_pos (Nat.div_pos (Nat.le_of_dvd numKvHeads.pos hkvHeads) grid.kvShardCount_pos)
    headDim.pos

section Qkv

variable {hiddenSize : ℕ+} {q kv index : Nat}

/-- Block `index` of a fused projection. -/
def qkvBlockAt (grid : TpGrid) (hiddenSize : ℕ+) (q kv index : Nat) : LinearBlock :=
  .ofRows (some (.block index)) (qkvWays grid index * qkvCount q kv index) hiddenSize
    (qkvStart q kv index) (qkvWays grid index) (qkvPlace grid index)

theorem qkvBlockAt_count : (qkvBlockAt grid hiddenSize q kv index).count = qkvCount q kv index :=
  Nat.mul_div_cancel_left _ (qkvWays_pos grid index)

/-- With whole tiles in each block the views are the blocks, tile for tile. -/
theorem qkvSpan_tiles {a b : Nat} (hn : 0 < n) (hindex : index < 3) (hpos : 0 < a) :
    (n * a + 2 * (n * b)) / numTiles (n * a + 2 * (n * b)) n = n ∧
      numTiles (n * a + 2 * (n * b)) n = a + 2 * b ∧
      Parameter.qkvBlock (n * a / n) (n * b / n) index =
        some (qkvStart a b index, qkvCount a b index) ∧
      qkvStart a b index + qkvCount a b index ≤ a + 2 * b := by
  have hrows : numTiles (n * a + 2 * (n * b)) n = a + 2 * b := by
    rw [Nat.mul_left_comm, ← Nat.mul_add, Tiling.numTiles_of_dvd hn (Dvd.intro _ rfl),
      Nat.mul_div_cancel_left _ hn]
  refine ⟨?_, hrows, ?_, ?_⟩
  · rw [hrows, Nat.mul_left_comm, ← Nat.mul_add]
    exact Nat.mul_div_cancel _ (Nat.add_pos_left hpos _)
  · rw [Nat.mul_div_cancel_left _ hn, Nat.mul_div_cancel_left _ hn]
    obtain rfl | rfl | rfl : index = 0 ∨ index = 1 ∨ index = 2 := by omega
    all_goals rfl
  · obtain rfl | rfl | rfl : index = 0 ∨ index = 1 ∨ index = 2 := by omega
    all_goals simp only [qkvStart, qkvCount, if_true, Nat.one_ne_zero, if_false,
      OfNat.ofNat_ne_zero, OfNat.ofNat_ne_one]
    all_goals omega

theorem qkvCount_mul (a b : Nat) : qkvCount (n * a) (n * b) index = n * qkvCount a b index := by
  unfold qkvCount
  split <;> rfl

theorem qkvStart_mul (a b : Nat) : qkvStart (n * a) (n * b) index = n * qkvStart a b index := by
  unfold qkvStart
  split
  · rfl
  · split
    · rfl
    · exact (Nat.mul_add n a b).symm

variable (w : QkvWidths grid numHeads numKvHeads headDim q kv)

include w

theorem blocks_qkv : (qkv hiddenSize numHeads numKvHeads headDim).blocks grid =
    (List.range 3).map (qkvBlockAt grid hiddenSize q kv) := by
  dsimp only [blocks]
  rw [w.full, w.fullKv, Nat.mul_div_cancel_left _ grid.tpSize_pos,
    Nat.mul_div_cancel_left _ grid.kvShardCount_pos]
  rfl

theorem mem_blocks_qkv : block ∈ (qkv hiddenSize numHeads numKvHeads headDim).blocks grid ↔
    ∃ index < 3, block = qkvBlockAt grid hiddenSize q kv index := by
  rw [blocks_qkv w, List.mem_map]
  simp only [List.mem_range, eq_comm]

theorem param_qkv : (qkv hiddenSize numHeads numKvHeads headDim).param grid n k =
    ⟨.qkv q kv, [numTiles (q + 2 * kv) n, numTiles hiddenSize k]⟩ := by
  rw [← w.q_eq, ← w.kv_eq]
  rfl

/-- Blocks whose views hold the rows of their elements start and end where tiles do. -/
theorem dvd_of_covers (h : ∀ index < 3, ∀ i < qkvCount q kv index,
    (Parameter.qkvSpan q kv (numTiles (q + 2 * kv) n) index).Has ((qkvStart q kv index + i) / n)) :
    n ∣ q ∧ n ∣ kv := by
  have hqLast := h 0 (by omega) (q - 1) (Nat.sub_lt w.q_pos Nat.one_pos)
  have hkFirst := h 1 (by omega) 0 w.kv_pos
  have hkLast := h 1 (by omega) (kv - 1) (Nat.sub_lt w.kv_pos Nat.one_pos)
  have hvFirst := h 2 (by omega) 0 w.kv_pos
  simp only [Parameter.qkvSpan, Parameter.qkvBlock, Span.Has, qkvStart, if_true, Nat.zero_add,
    Nat.add_zero, Nat.one_ne_zero, if_false, OfNat.ofNat_ne_zero, OfNat.ofNat_ne_one]
    at hqLast hkFirst hkLast hvFirst
  have hdvdQ : n ∣ q := Tiling.dvd_of_div_lt w.q_pos (hqLast.2.trans_le hkFirst.1)
  have hdvdSum : n ∣ q + kv := by
    refine Tiling.dvd_of_div_lt (Nat.add_pos_left w.q_pos kv) ?_
    rw [Nat.add_sub_assoc w.kv_pos]
    exact hkLast.2.trans_le hvFirst.1
  exact ⟨hdvdQ, (Nat.dvd_add_right hdvdQ).mp hdvdSum⟩

theorem qkv_sourced_iff (hn : 0 < n) :
    (∀ rank hrank, (qkv hiddenSize numHeads numKvHeads headDim).Sourced A grid n k rank hrank) ↔
      (qkv hiddenSize numHeads numKvHeads headDim).Whole grid n k := by
  have hwhole : (qkv hiddenSize numHeads numKvHeads headDim).Whole grid n k ↔ n ∣ q ∧ n ∣ kv := by
    simp only [Whole, w.q_eq, w.kv_eq]
  rw [hwhole]
  constructor
  · intro h
    obtain ⟨-, hcovers, -⟩ := h 0 grid.tpSize_pos
    refine dvd_of_covers w fun index hindex i hi => ?_
    have hhas := hcovers _ ((mem_blocks_qkv w).mpr ⟨index, hindex, rfl⟩) i
      (hi.trans_eq qkvBlockAt_count.symm)
    rw [param_qkv w] at hhas
    exact hhas
  · rintro ⟨⟨a, rfl⟩, ⟨b, rfl⟩⟩ rank hrank
    have ha : 0 < a := Nat.pos_of_mul_pos_left w.q_pos
    have hspan : ∀ index < 3, Parameter.qkvSpan (n * a) (n * b)
        (numTiles (n * a + 2 * (n * b)) n) index = ⟨qkvStart a b index, qkvCount a b index⟩ := by
      intro index hindex
      obtain ⟨hfactor, -, hblock, -⟩ := qkvSpan_tiles (b := b) hn hindex ha
      unfold Parameter.qkvSpan
      rw [hfactor, hblock]
    have hshare : ∀ index, numTiles (qkvWays grid index * qkvCount (n * a) (n * b) index) n /
        qkvWays grid index = qkvCount a b index := by
      intro index
      rw [qkvCount_mul, (Tiling.numTiles_runs hn (qkvPlace_lt index hrank) (.inr (Dvd.intro _ rfl))
        0).1, Tiling.numTiles_of_dvd hn (Dvd.intro _ rfl), Nat.mul_div_cancel_left _ hn]
    have hplace : ∀ index i, (qkvStart (n * a) (n * b) index + i) / n =
        qkvStart a b index + i / n := by
      intro index i
      rw [qkvStart_mul, Nat.mul_add_div hn]
    refine ⟨fun block hblock values => ?_, fun block hblock i hi => ?_,
      fun block hblock i hi j hj index' hindex' => ?_⟩
    all_goals
      obtain ⟨index, hindex, rfl⟩ := (mem_blocks_qkv w).mp hblock
      rw [param_qkv w] at *
    · obtain ⟨hfactor, hrows, hblock, hinside⟩ := qkvSpan_tiles (b := b) hn hindex ha
      refine qkv_fits rfl rfl rfl (hrows ▸ Nat.add_pos_left ha _) hfactor hn hblock
        (hinside.trans_eq hrows.symm) ?_ ?_
      · rw [qkvShards_eq]
        exact qkvWays_pos grid index
      · rw [qkvShards_eq]
        exact congrArg (fun r => [r, _]) (hshare index).symm
    · have hi : i / n < qkvCount a b index :=
        Nat.div_lt_of_lt_mul (hi.trans_eq (qkvBlockAt_count.trans (qkvCount_mul a b)))
      change (Parameter.qkvSpan (n * a) (n * b) (numTiles (n * a + 2 * (n * b)) n) index).Has
        ((qkvStart (n * a) (n * b) index + i) / n)
      rw [hspan index hindex, hplace]
      exact ⟨Nat.le_add_right _ _, Nat.add_lt_add_left hi _⟩
    · have hindex'' : index' = [qkvPlace grid index rank * qkvCount a b index + i / n, j / k] := by
        rw [hindex']
        change CkptTensor.shareIndex 0
          (Parameter.qkvShards ⟨grid, rank, hrank⟩ (some (.block index))).1
          (Parameter.qkvShards ⟨grid, rank, hrank⟩ (some (.block index))).2
          [numTiles (qkvWays grid index * qkvCount (n * a) (n * b) index) n, _]
          [(qkvStart (n * a) (n * b) index + i) / n - (Parameter.qkvSpan (n * a) (n * b)
            (numTiles (n * a + 2 * (n * b)) n) index).start, j / k] = _
        rw [qkvShards_eq, shareIndex_rows (qkvPlace_lt index hrank), hshare, hspan index hindex,
          hplace, Nat.add_sub_cancel_left]
      rw [hindex'']
      dsimp only [qkvBlockAt, LinearBlock.ofRows, List.getD_cons_zero, List.getD_cons_succ]
      rw [Nat.mul_div_cancel_left _ (qkvWays_pos grid index), qkvCount_mul, Nat.mul_left_comm,
        Nat.mul_add_div hn, Nat.zero_add]
      exact ⟨rfl, rfl⟩

end Qkv

/-! ### Every layer -/

theorem localIn_pos (hdiv : geom.Divides grid) : 0 < geom.localIn grid := by
  cases geom with
  | column inputSize | gateUp inputSize | qkv inputSize => exact inputSize.pos
  | row inputSize => exact Nat.div_pos (Nat.le_of_dvd inputSize.pos hdiv) grid.tpSize_pos

theorem follows_iff [Zero A] [One A] [NeZero (1 : A)] (hdiv : geom.Divides grid) (hn : 0 < n)
    (hk : 0 < k) : geom.Follows A grid n k ↔ geom.Whole grid n k := by
  have hsourced : geom.Follows A grid n k ↔ ∀ rank hrank, geom.Sourced A grid n k rank hrank :=
    ⟨fun h => h.sourced (localIn_pos hdiv), Sourced.follows⟩
  rw [hsourced]
  cases geom with
  | column => exact column_sourced_iff hn hdiv
  | gateUp => exact gateUp_sourced_iff hn hdiv
  | qkv => exact qkv_sourced_iff (qkvWidths hdiv.1 hdiv.2) hn
  | row => exact row_sourced_iff hn hk hdiv

/-- Blocks of one element are always whole. -/
theorem whole_one (geom : LinearGeometry) (grid : TpGrid) : geom.Whole grid 1 1 := by
  cases geom with
  | column | row => exact .inr (one_dvd _)
  | gateUp => exact one_dvd _
  | qkv => exact ⟨one_dvd _, one_dvd _⟩

/-- What a constructor that returns has made. -/
structure Created (geom : LinearGeometry) (grid : TpGrid) (quant : Option ScaleBlocks)
    (layer : LinearBase) : Prop where
  divides : geom.Divides grid
  layer_eq : layer = ⟨geom.localIn grid, geom.localOut grid,
    ⟨geom.loader grid, [geom.localOut grid, geom.localIn grid]⟩,
    quant.map fun groups => geom.param grid groups.groupN groups.groupK⟩
  groups_pos : ∀ groups, quant = some groups → 0 < groups.groupN ∧ 0 < groups.groupK

theorem divide_ok {a b c : Nat} {what : String} (h : divide a b what = .ok c) :
    b ∣ a ∧ c = a / b := by
  obtain ⟨hb, rfl⟩ := divide_inv h
  exact ⟨Dvd.intro_left _ rfl, (Nat.mul_div_cancel c hb).symm⟩

theorem base_created {quant : Option ScaleBlocks} {layer : LinearBase}
    (hdiv : geom.Divides grid) (h : LinearBase.create (geom.loader grid) (geom.localIn grid)
      (geom.localOut grid) quant = .ok layer) : geom.Created grid quant layer := by
  cases quant with
  | none =>
    cases h
    exact ⟨hdiv, rfl, nofun⟩
  | some groups =>
    unfold LinearBase.create ScaleBlocks.scaleShape at h
    dsimp only at h
    split at h
    · cases h
    · next hgroups =>
      cases h
      refine ⟨hdiv, rfl, fun _ heq => ?_⟩
      cases heq
      omega

theorem create_inv {quant : Option ScaleBlocks} {layer : LinearBase}
    (h : geom.create grid quant = .ok layer) : geom.Created grid quant layer := by
  cases geom with
  | column inputSize outputSize =>
    obtain ⟨localOut, hlocal, h⟩ := bind_eq_ok.mp h
    obtain ⟨-, -, h⟩ := bind_eq_ok.mp h
    obtain ⟨hdiv, rfl⟩ := divide_ok hlocal
    exact base_created hdiv h
  | gateUp hidden inter =>
    obtain ⟨localInter, hlocal, h⟩ := bind_eq_ok.mp h
    obtain ⟨-, -, h⟩ := bind_eq_ok.mp h
    obtain ⟨localOut, hboth, h⟩ := bind_eq_ok.mp h
    obtain ⟨-, -, h⟩ := bind_eq_ok.mp h
    obtain ⟨-, rfl⟩ := divide_ok hboth
    exact base_created (divide_ok hlocal).1 h
  | qkv hiddenSize numHeads numKvHeads headDim =>
    obtain ⟨proj, hproj, h⟩ := bind_eq_ok.mp h
    obtain ⟨localHeads, hheads, hproj⟩ := bind_eq_ok.mp hproj
    obtain ⟨localKvHeads, hkvHeads, hproj⟩ := bind_eq_ok.mp hproj
    obtain ⟨-, -, hproj⟩ := bind_eq_ok.mp hproj
    obtain ⟨-, -, hproj⟩ := bind_eq_ok.mp hproj
    cases hproj
    obtain ⟨hdiv, rfl⟩ := divide_ok hheads
    obtain ⟨hdivKv, rfl⟩ := divide_ok hkvHeads
    exact base_created ⟨hdiv, hdivKv⟩ h
  | row inputSize outputSize =>
    obtain ⟨localIn, hlocal, h⟩ := bind_eq_ok.mp h
    obtain ⟨-, -, h⟩ := bind_eq_ok.mp h
    obtain ⟨hdiv, rfl⟩ := divide_ok hlocal
    exact base_created hdiv h

theorem blocks_tile (hdiv : geom.Divides grid) :
    ((geom.blocks grid).flatMap fun block => List.range' block.start block.count) =
      List.range (geom.localOut grid) := by
  rw [List.range_eq_range']
  cases geom with
  | column | row => exact List.append_nil _
  | gateUp hidden inter =>
    obtain ⟨half, hhalf⟩ := hdiv
    have hboth : 2 * (inter : Nat) / grid.tpSize = half + half := by
      rw [hhalf, Nat.mul_left_comm, Nat.mul_div_cancel_left _ grid.tpSize_pos, Nat.two_mul]
    simp only [blocks, LinearBlock.ofRows, localOut, hboth, List.flatMap_cons, List.flatMap_nil,
      List.append_nil]
    rw [hhalf, Nat.mul_div_cancel_left _ grid.tpSize_pos]
    exact (congrArg _ (by rw [Nat.zero_add])).trans List.range'_append_1
  | qkv hiddenSize numHeads numKvHeads headDim =>
    have w : QkvWidths grid numHeads numKvHeads headDim _ _ := qkvWidths hdiv.1 hdiv.2
    have happend : ∀ q kv : Nat, List.range' 0 q ++ (List.range' q kv ++ List.range' (q + kv) kv) =
        List.range' 0 (q + 2 * kv) := by
      intro q kv
      have hkv : List.range' q kv ++ List.range' (q + kv) kv = List.range' (0 + q) (kv + kv) := by
        rw [List.range'_append_1, Nat.zero_add]
      rw [hkv, List.range'_append_1, Nat.two_mul]
    rw [blocks_qkv w, List.flatMap_map, localOut, ← happend]
    simp only [qkvBlockAt_count]
    exact congrArg (_ ++ ·) (congrArg (_ ++ ·) (List.append_nil _))

/-! ### Products -/

section Products

variable {A : Type} [CommRing A] {quant : Option ScaleBlocks} {layer : LinearBase}
  {ckpt : LinearCheckpoint A} {loaded : LoadedLinear A}

/-- A paired block multiplies by its part of the full matrix. -/
theorem Paired.localProduct (h : block.Paired quant layer ckpt rank loaded) {i : Nat}
    (hi : i < block.count) (x : Nat → A) :
    block.localProduct quant layer loaded rank x i = ∑ j ∈ range layer.inputSize,
      x (block.firstCol rank + j) *
        ckpt.dequant quant block.shardId (block.firstRow rank + i) (block.firstCol rank + j) := by
  refine Finset.sum_congr rfl fun j hj => congrArg _ ?_
  have hj := Finset.mem_range.mp hj
  cases quant with
  | none => exact h.weight i hi j hj
  | some groups =>
    dsimp only [LoadedLinear.dequant, LinearCheckpoint.dequant]
    rw [h.weight i hi j hj, h.scale groups rfl i hi j hj]

theorem multiplies {loaded : Nat → LoadedLinear A} (hdiv : geom.Divides grid)
    (hin : layer.inputSize = geom.localIn grid)
    (h : ∀ rank < grid.tpSize, ∀ block ∈ geom.blocks grid,
      block.Paired quant layer ckpt rank (loaded rank)) (x : Nat → A) :
    geom.Multiplies grid quant layer ckpt loaded x := by
  -- rows that are split lie in the full matrix shard after shard
  have hrows : ∀ block ∈ geom.blocks grid, block.cols = geom.localIn grid →
      block.rows = block.shards * block.count →
      (∀ rank, block.firstRow rank = block.shard rank * block.count ∧ block.firstCol rank = 0) →
      ∀ holder : Nat → Nat,
        (∀ s < block.shards, holder s < grid.tpSize ∧ block.shard (holder s) = s) →
          ((List.range block.shards).flatMap fun s => (List.range block.count).map
            (block.localProduct quant layer (loaded (holder s)) (holder s) x)) =
              (List.range block.rows).map (block.product quant ckpt x) := by
    intro block hblock hcols hall hfirst holder hholder
    rw [hall, ← Tiling.flatMap_tiles, List.map_flatMap]
    refine List.flatMap_congr fun s hs => ?_
    obtain ⟨hlt, hshard⟩ := hholder s (List.mem_range.mp hs)
    rw [List.map_map]
    refine List.map_congr_left fun i hi => ?_
    rw [Paired.localProduct (h _ hlt block hblock) (List.mem_range.mp hi), hin, ← hcols]
    simp only [(hfirst _).1, (hfirst _).2, hshard, Nat.zero_add]
    rfl
  have hcount : ∀ {a b : Nat}, b ∣ a → a = b * (a / b) :=
    fun hdvd => (Nat.mul_div_cancel' hdvd).symm
  cases geom with
  | column inputSize outputSize =>
    intro block hblock
    obtain rfl := List.mem_singleton.mp hblock
    exact hrows _ hblock rfl (hcount hdiv) fun _ => ⟨rfl, rfl⟩
  | gateUp hidden inter =>
    intro block hblock
    have hcases := hblock
    simp only [blocks, List.mem_cons, List.not_mem_nil, or_false] at hcases
    rcases hcases with rfl | rfl
    · exact hrows _ hblock rfl (hcount hdiv) fun _ => ⟨rfl, rfl⟩
    · exact hrows _ hblock rfl (hcount hdiv) fun _ => ⟨rfl, rfl⟩
  | qkv hiddenSize numHeads numKvHeads headDim =>
    intro block hblock
    have hcases := hblock
    simp only [blocks, List.mem_cons, List.not_mem_nil, or_false] at hcases
    rcases hcases with rfl | rfl | rfl
    · exact hrows _ hblock rfl (hcount (hdiv.1.mul_right _)) fun _ => ⟨rfl, rfl⟩
    · exact hrows _ hblock rfl (hcount (hdiv.2.mul_right _)) fun _ => ⟨rfl, rfl⟩
    · exact hrows _ hblock rfl (hcount (hdiv.2.mul_right _)) fun _ => ⟨rfl, rfl⟩
  | row inputSize outputSize =>
    intro block hblock i hi
    obtain rfl := List.mem_singleton.mp hblock
    let full : Nat → A := fun j => x j * ckpt.dequant quant none i j
    have hsum : ∀ rank ∈ range grid.tpSize,
        (LinearBlock.ofCols outputSize inputSize grid.tpSize).localProduct quant layer (loaded rank)
          rank x i = ∑ j ∈ range (inputSize / grid.tpSize),
            full (rank * (inputSize / grid.tpSize) + j) := by
      intro rank hrank
      rw [Paired.localProduct (h rank (Finset.mem_range.mp hrank) _ hblock) hi, hin]
      simp only [LinearBlock.ofCols, localIn, Nat.zero_add, full]
    rw [Finset.sum_congr rfl hsum, Tiling.sum_equal_runs, Nat.mul_div_cancel' hdiv]
    rfl

omit [CommRing A] in
theorem weights_eq (blocks : List LinearBlock) :
    ckpt.weights blocks = blocks.map fun block => block.tensor 1 1 ckpt.weight := by
  simp only [LinearCheckpoint.weights, LinearBlock.tensor, Tiling.numTiles_one]

/-- A rank loads a checkpoint whose scale blocks the split leaves whole. -/
theorem exists_loaded [Nontrivial A] (hdiv : geom.Divides grid)
    (hgroups : ∀ groups, quant = some groups → 0 < groups.groupN ∧ 0 < groups.groupK)
    (hlayer : layer = ⟨geom.localIn grid, geom.localOut grid,
      ⟨geom.loader grid, [geom.localOut grid, geom.localIn grid]⟩,
      quant.map fun groups => geom.param grid groups.groupN groups.groupK⟩)
    (hwhole : geom.BlocksWhole grid quant) {weights scales : List LinearBlock}
    (hweights : weights.Perm (geom.blocks grid)) (hscales : scales.Perm (geom.blocks grid))
    (ckpt : LinearCheckpoint A) (start : LoadedLinear A) (hrank : rank < grid.tpSize) :
    ∃ loaded, layer.load ⟨grid, rank, hrank⟩ (ckpt.weights weights) (ckpt.scales quant scales)
        start = .ok loaded ∧
      ∀ block ∈ geom.blocks grid, block.Paired quant layer ckpt rank loaded := by
  subst hlayer
  obtain ⟨weight, hweight, hfollows⟩ := (follows_iff hdiv Nat.one_pos Nat.one_pos).mpr
    (geom.whole_one grid) ckpt.weight start.weight weights rank hrank hweights
  rw [← weights_eq] at hweight
  simp only [param, Tiling.numTiles_one, Nat.div_one] at hweight hfollows
  unfold LinearBase.load
  dsimp only
  rw [hweight]
  cases quant with
  | none => exact ⟨⟨weight, start.scale⟩, rfl, fun block hblock => ⟨hfollows block hblock, nofun⟩⟩
  | some groups =>
    obtain ⟨hn, hk⟩ := hgroups groups rfl
    obtain ⟨scale, hscale, hscales⟩ := (follows_iff hdiv hn hk).mpr hwhole ckpt.scale start.scale
      scales rank hrank hscales
    refine ⟨⟨weight, scale⟩, bind_eq_ok.mpr ⟨weight, rfl, bind_eq_ok.mpr ⟨scale, hscale, rfl⟩⟩, ?_⟩
    refine fun block hblock => ⟨hfollows block hblock, fun _ heq => ?_⟩
    cases heq
    exact hscales block hblock

/-- **Shards of a quantised matrix.** The layers of all ranks load every checkpoint and multiply
by its dequantised matrix exactly if the split leaves the scale blocks whole. -/
theorem preserved_iff [Nontrivial A] {layer : LinearBase} {quant : Option ScaleBlocks}
    (h : geom.create grid quant = .ok layer) :
    geom.Preserved A grid quant layer ↔ geom.BlocksWhole grid quant := by
  obtain ⟨hdiv, rfl, hgroups⟩ := create_inv h
  constructor
  · rintro ⟨-, hloads⟩
    cases quant with
    | none => trivial
    | some groups =>
      obtain ⟨hn, hk⟩ := hgroups groups rfl
      refine (follows_iff (A := A) hdiv hn hk).mp fun values start order rank hrank horder => ?_
      obtain ⟨loaded, hloaded, -⟩ := hloads ⟨fun _ _ _ => 0, values⟩ (fun _ => geom.blocks grid)
        (fun _ => order) (fun _ => ⟨fun _ => 0, start⟩) fun _ => ⟨List.Perm.refl _, horder⟩
      obtain ⟨hload, hpaired⟩ := hloaded rank hrank
      obtain ⟨weight, -, hload⟩ := bind_eq_ok.mp hload
      obtain ⟨scale, hscale, hload⟩ := bind_eq_ok.mp hload
      have hsame : scale = (loaded rank).scale := congrArg LoadedLinear.scale (Except.ok.inj hload)
      exact ⟨scale, hscale, fun block hblock => hsame ▸ (hpaired block hblock).scale groups rfl⟩
  · intro hwhole
    refine ⟨blocks_tile hdiv, fun ckpt weights scales start hperm => ?_⟩
    choose loaded hload hpaired using fun rank (hrank : rank < grid.tpSize) =>
      exists_loaded hdiv hgroups rfl hwhole (hperm rank).1 (hperm rank).2 ckpt (start rank) hrank
    let all : Nat → LoadedLinear A := fun rank =>
      if hrank : rank < grid.tpSize then loaded rank hrank else start rank
    have hall : ∀ rank (hrank : rank < grid.tpSize), all rank = loaded rank hrank :=
      fun rank hrank => dif_pos hrank
    refine ⟨all, fun rank hrank => ?_, multiplies hdiv rfl fun rank hrank => ?_⟩
    · rw [hall rank hrank]
      exact ⟨hload rank hrank, hpaired rank hrank⟩
    · rw [hall rank hrank]
      exact hpaired rank hrank

end Products

/-- Two tensor-parallel ranks. -/
def twoRanks : TpGrid where
  tpSize := 2
  dcpSize := 1
  tpSize_pos := Nat.zero_lt_two
  dcpSize_dvd := one_dvd _

/-- A gate/up pair of two ranks with scale blocks of 128 by 128, two of them in each half. -/
theorem gateUp_preserved : (gateUp 128 512).Preserved ℚ twoRanks (some ⟨"fp8", 128, 128⟩)
    ⟨128, 512, ⟨.column, [512, 128]⟩, some ⟨.column, [4, 1]⟩⟩ :=
  (preserved_iff rfl).mpr (show 128 ∣ 512 / 2 by decide)

/-- The scale of each output, and the inputs split in two. -/
def perChannelRow : LinearBase :=
  ⟨2, 2, ⟨.row, [2, 2]⟩, some ⟨.row, [2, 1]⟩⟩

/-- Scales for whole rows on two ranks that split the columns: both constructors accept the layer,
and a rank's share of the one column of scales is no column. -/
theorem perChannel_row_raises :
    (row 4 2).create twoRanks (some ⟨"w8a8_int8", 1, 2 ^ 30⟩) = .ok perChannelRow ∧
      ¬ (row 4 2).Preserved ℚ twoRanks (some ⟨"w8a8_int8", 1, 2 ^ 30⟩) perChannelRow := by
  refine ⟨rfl, fun h => ?_⟩
  obtain ⟨loaded, hloaded, -⟩ := h.loads ⟨fun _ _ _ => 1, fun _ _ _ => 1⟩
    (fun _ => (row 4 2).blocks twoRanks) (fun _ => (row 4 2).blocks twoRanks)
    (fun _ => ⟨fun _ => 0, fun _ => 0⟩) fun _ => ⟨List.Perm.refl _, List.Perm.refl _⟩
  obtain ⟨hload, -⟩ := hloaded 0 Nat.zero_lt_two
  obtain ⟨weight, -, hrest⟩ := bind_eq_ok.mp hload
  obtain ⟨scale, hscale, -⟩ := bind_eq_ok.mp hrest
  have hraises : false = true := congrArg Except.isOk hscale
  cases hraises

end LinearGeometry

end RapidLlm
