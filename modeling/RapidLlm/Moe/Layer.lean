import Mathlib.Algebra.BigOperators.Group.Finset.Sigma
import Mathlib.Algebra.BigOperators.GroupWithZero.Action
import RapidLlm.Distributed.DpAttention
import RapidLlm.Moe.AllToAll

/-!
# RapidLlm.Moe.Layer

**The four ways through a MoE block** (`SparseMoeBlock.forward`, `modules/moe/layer.py`) on a
grid of `dpSize` replicas with `tpSize` lanes: dense with a TP all-reduce, the expert-parallel
exchange over a replica's lanes, and under DP-attention the pooled exchange and the
all-gather/reduce-scatter over the whole grid.

Routing is a function of a row, an expert is the sum of its TP slices, and so is the shared
expert. The dispatchers have the default, unbounded capacity.

`forward_agrees_iff` says that every rank gets the block's value on its replica's rows, on
every path and for all row counts, but for the two that go through the exchange: there it
raises when it has no slot to carry.
-/

namespace RapidLlm

open Finset (range)
open Rectangle

/-- A MoE block on a grid of ranks. -/
structure MoeGrid (R V : Type) [Semiring R] [AddCommMonoid V] [Module R V] where
  dpSize : Nat
  tpSize : Nat
  numExperts : Nat
  topK : Nat
  /-- `_route`: the weights and expert ids of a row. -/
  route : V → (Nat → R) × (Nat → Nat)
  /-- What a lane's slice of an expert adds to its output. -/
  expertSlice : Nat → Nat → V → V
  sharedSlice : Option (Nat → V → V)
  fused : Bool
  capacitySlack : Int
  dpSize_pos : 0 < dpSize
  tpSize_pos : 0 < tpSize
  route_lt : ∀ x, ∀ j < topK, (route x).2 j < numExperts

/-- What a dispatch depends on besides its tokens. -/
structure PlacementEnv (V : Type) where
  isCuda : Bool
  unitStride : Bool
  grants : List Nat
  stale : Nat → V

variable {R V : Type} [Semiring R] [AddCommMonoid V] [Module R V]

/-- An even split of the experts over `ranks` ranks. -/
structure ExpertSplit (grid : MoeGrid R V) (ranks : Nat) where
  numLocalExperts : Nat
  pos : 0 < numLocalExperts
  tiles : grid.numExperts = ranks * numLocalExperts

namespace MoeGrid

variable (grid : MoeGrid R V)

/-- A whole expert. -/
def expert (e : Nat) (x : V) : V := ∑ lane ∈ range grid.tpSize, grid.expertSlice e lane x

/-- The weighted routed experts of a row. -/
def routed (x : V) : V :=
  ∑ j ∈ range grid.topK, (grid.route x).1 j • grid.expert ((grid.route x).2 j) x

/-- The block on one row: the routed experts plus the shared one. -/
def value (x : V) : V :=
  match grid.sharedSlice with
  | some slice => grid.routed x + ∑ lane ∈ range grid.tpSize, slice lane x
  | none => grid.routed x

/-- The rows of every replica, in rank order. -/
def sizes (x : Nat → List V) : List Nat := (List.range grid.dpSize).map fun r => (x r).length

/-- The sum `forward` ends with; the shared expert reduces over the lanes on its own. -/
def addShared (x out : List V) : List V :=
  match grid.sharedSlice with
  | some slice =>
    List.zipWith (· + ·) out (tensorModelParallelAllReduce grid.tpSize fun lane =>
      x.map (slice lane))
  | none => out

/-- The dense path: every lane runs its slices of the experts, the all-reduce sums them. -/
def forwardDense (x : List V) : List V :=
  let localOut := fun lane => (List.range x.length).map
    (runExperts (fun e => grid.expertSlice e lane) grid.topK (fun row => x.getD row 0)
      (fun row j => ((grid.route (x.getD row 0)).2 j : Int))
      fun row => (grid.route (x.getD row 0)).1)
  grid.addShared x (tensorModelParallelAllReduce grid.tpSize localOut)

/-- What a rank dispatches for the rows `x`. -/
def call (env : PlacementEnv V) (x : List V) : DispatchCall R V where
  x row := x.getD row 0
  topkIds row := (grid.route (x.getD row 0)).2
  topkWeights row := (grid.route (x.getD row 0)).1
  isCuda := env.isCuda
  unitStride := env.unitStride
  grants := env.grants
  stale := env.stale

/-- The expert-parallel group of `ranks` ranks. -/
def epGroup {ranks : Nat} (split : ExpertSplit grid ranks) (hranks : 0 < ranks) : EpGroup where
  epSize := ranks
  numLocalExperts := split.numLocalExperts
  capacityFactor := none
  capacitySlack := grid.capacitySlack
  fused := grid.fused
  epSize_pos := hranks
  numLocalExperts_pos := split.pos

/-- A rank's window onto the pooled global ids, `-1` outside. -/
def windowId (numLocalExperts rank id : Nat) : Int :=
  let localId := (id : Int) - (rank * numLocalExperts : Nat)
  if 0 ≤ localId ∧ localId < numLocalExperts then localId else -1

/-- `_forward_dp_attention_agrs` up to the shared expert. -/
def forwardDpAttentionAgrs (split : ExpertSplit grid (grid.dpSize * grid.tpSize))
    (x : Nat → List V) (replica : Nat) : Except Raised (List V) := do
  let sizes := grid.sizes x
  let (poolX, poolWeights, poolIds) ← dpDispatch grid.dpSize sizes x
    (fun r => (x r).map fun row => (grid.route row).1)
    (fun r => (x r).map fun row => (grid.route row).2)
  let pooledOut := fun peer lane =>
    let rank := peer * grid.tpSize + lane
    (List.range poolX.length).map
      (runExperts (fun localId => grid.expert (rank * split.numLocalExperts + localId)) grid.topK
        (fun row => poolX.getD row 0)
        (fun row j => windowId split.numLocalExperts rank (poolIds.getD row 0 j))
        fun row => poolWeights.getD row 0)
  dpCombine grid.dpSize grid.tpSize sizes pooledOut replica

theorem numRanks_pos : 0 < grid.dpSize * grid.tpSize := Nat.mul_pos grid.dpSize_pos grid.tpSize_pos

end MoeGrid

/-- Backend and pooling of a block: `get_moe_a2a_backend`, and whether DP-attention is on. -/
inductive MoePath (grid : MoeGrid R V)
  | dense
  | expertParallel (split : ExpertSplit grid grid.tpSize)
  | dpAttentionA2A (split : ExpertSplit grid (grid.dpSize * grid.tpSize))
  | dpAttentionAgrs (split : ExpertSplit grid (grid.dpSize * grid.tpSize))

namespace MoePath

variable {grid : MoeGrid R V}

/-- `SparseMoeBlock.forward` returns `out` on one rank. `env` is each rank's, `x` each
replica's rows. -/
def Returns (path : MoePath grid) (env : Nat → Nat → PlacementEnv V) (x : Nat → List V)
    (replica lane : Nat) (out : List V) : Prop :=
  match path with
  | dense => out = grid.forwardDense (x replica)
  | expertParallel split =>
    ∃ run : ExchangeRun (grid.epGroup split grid.tpSize_pos) (x replica).length grid.topK
        (fun lane => grid.call (env replica lane) (x replica)) grid.expert,
      out = grid.addShared (x replica) ((List.range (x replica).length).map (run.out lane))
  | dpAttentionA2A split =>
    ∃ pooled, dpGather grid.dpSize (grid.sizes x) x = .ok pooled ∧
      ∃ run : ExchangeRun (grid.epGroup split grid.numRanks_pos) pooled.length grid.topK
          (fun rank => grid.call (env (rank / grid.tpSize) (rank % grid.tpSize)) pooled) grid.expert,
        out = grid.addShared (x replica) (dpScatter
          ((List.range pooled.length).map (run.out (replica * grid.tpSize + lane)))
          { numTokensAcrossDp := grid.sizes x, rank := replica })
  | dpAttentionAgrs split =>
    ∃ routed, grid.forwardDpAttentionAgrs split x replica = .ok routed ∧
      out = grid.addShared (x replica) routed

/-- Rows a dispatch of the path carries. -/
def dispatchRows (path : MoePath grid) (x : Nat → List V) (replica : Nat) : Nat :=
  match path with
  | expertParallel _ => (x replica).length
  | dpAttentionA2A _ => grid.dpSize * (grid.sizes x).foldl max 0
  | dense | dpAttentionAgrs _ => 0

/-- Every slot of every dispatch takes one ticket. -/
def Granted (path : MoePath grid) (env : Nat → Nat → PlacementEnv V) (x : Nat → List V) : Prop :=
  ∀ replica < grid.dpSize, ∀ lane < grid.tpSize,
    (env replica lane).grants.Perm (List.range (path.dispatchRows x replica * grid.topK))

/-- The exchanges of the path have a slot to carry. -/
def HasSlots (path : MoePath grid) (x : Nat → List V) : Prop :=
  match path with
  | dense | dpAttentionAgrs _ => True
  | expertParallel _ => ∀ replica < grid.dpSize, 0 < (x replica).length * grid.topK
  | dpAttentionA2A _ => ∃ replica < grid.dpSize, 0 < (x replica).length * grid.topK

/-- On every rank the block returns, and returns its value on that rank's rows. -/
def Agrees (path : MoePath grid) (env : Nat → Nat → PlacementEnv V) (x : Nat → List V) : Prop :=
  ∀ replica < grid.dpSize, ∀ lane < grid.tpSize, (∃ out, path.Returns env x replica lane out) ∧
    ∀ out, path.Returns env x replica lane out → out = (x replica).map grid.value

end MoePath

/-! ### Row-wise tensors -/

section Rows

/-- A row-wise function of a tensor, row by row. -/
theorem map_range_rows {A B : Type} (f : A → B) (x : List A) (z : A) :
    ((List.range x.length).map fun i => f (x.getD i z)) = x.map f := by
  refine List.ext_getElem (by simp) fun i hi hi' => ?_
  have hlen : i < x.length := by simpa using hi
  rw [List.getElem_map, List.getElem_range, List.getElem_map, List.getD_eq_getElem _ _ hlen]

/-- The lanes' row-wise results, summed. -/
theorem allReduce_map (tpSize : Nat) (f : Nat → V → V) (x : List V) :
    tensorModelParallelAllReduce tpSize (fun lane => x.map (f lane)) =
      x.map fun row => ∑ lane ∈ range tpSize, f lane row := by
  rw [tensorModelParallelAllReduce, List.length_map, ← map_range_rows _ x 0]
  refine List.map_congr_left fun i hi => Finset.sum_congr rfl fun lane _ => ?_
  have hlen : i < x.length := List.mem_range.mp hi
  rw [List.getD_eq_getElem _ _ (by rwa [List.length_map]), List.getElem_map,
    List.getD_eq_getElem _ _ hlen]

/-- A slice of a tensor given row by row. -/
theorem slice_map_range {A : Type} (f : Nat → A) {n start count : Nat} (h : start + count ≤ n) :
    (((List.range n).map f).drop start).take count =
      (List.range count).map fun t => f (start + t) := by
  refine List.ext_getElem (by simp; omega) fun i hi hi' => ?_
  simp

end Rows

/-! ### The paths -/

namespace MoeGrid

variable {grid : MoeGrid R V}

/-- With the routed sums in place, adding the shared expert completes the block's value. -/
theorem addShared_eq (x : List V) : grid.addShared x (x.map grid.routed) = x.map grid.value := by
  unfold addShared
  split
  · rename_i slice hslice
    rw [allReduce_map, List.zipWith_map_left, List.zipWith_map_right, List.zipWith_self]
    refine List.map_congr_left fun row _ => ?_
    simp only [value, hslice]
  · rename_i hslice
    refine List.map_congr_left fun row _ => ?_
    simp only [value, hslice]

/-- The lanes' slices of the routed experts add up to the experts. -/
theorem forwardDense_eq (x : List V) : grid.forwardDense x = x.map grid.value := by
  have hlocal : ∀ lane, (List.range x.length).map
      (runExperts (fun e => grid.expertSlice e lane) grid.topK (fun row => x.getD row 0)
        (fun row j => ((grid.route (x.getD row 0)).2 j : Int))
        fun row => (grid.route (x.getD row 0)).1) =
      x.map fun row => ∑ j ∈ range grid.topK,
        (grid.route row).1 j • grid.expertSlice ((grid.route row).2 j) lane row := by
    intro lane
    rw [← map_range_rows _ x 0]
    refine List.map_congr_left fun i _ => Finset.sum_congr rfl fun j _ => ?_
    have hne : ((grid.route (x.getD i 0)).2 j : Int) ≠ -1 := by omega
    rw [if_neg hne, Int.toNat_natCast]
  have hsum : ∀ row, (∑ lane ∈ range grid.tpSize, ∑ j ∈ range grid.topK,
      (grid.route row).1 j • grid.expertSlice ((grid.route row).2 j) lane row) =
        grid.routed row := by
    intro row
    rw [Finset.sum_comm, routed]
    exact Finset.sum_congr rfl fun j _ => (Finset.smul_sum ..).symm
  rw [forwardDense, funext hlocal, allReduce_map, List.map_congr_left fun row _ => hsum row, addShared_eq]

variable {ranks : Nat} {split : ExpertSplit grid ranks} {hranks : 0 < ranks}

/-- The ids a rank dispatches are experts of the group. -/
theorem call_ids_lt (env : PlacementEnv V) (x : List V) {t j : Nat} (hj : j < grid.topK) :
    (grid.call env x).topkIds t j < (grid.epGroup split hranks).numExperts :=
  (grid.route_lt (x.getD t 0) j hj).trans_eq split.tiles

/-- What an exchange returns for a row is the routed sum of that row. -/
theorem run_out_eq {rows rank t : Nat} (x : Nat → List V) {env : Nat → PlacementEnv V}
    (run : ExchangeRun (grid.epGroup split hranks) rows grid.topK
      (fun rank => grid.call (env rank) (x rank)) grid.expert)
    (hgrants : ∀ rank < ranks, (env rank).grants.Perm (List.range (rows * grid.topK)))
    (hrank : rank < ranks) (ht : t < rows) :
    run.out rank t = grid.routed ((x rank).getD t 0) :=
  run.out_eq_of_unbounded ⟨fun _ _ _ _ _ hj => call_ids_lt _ _ hj, hgrants⟩ rfl hrank ht

/-- An exchange with a slot to carry gets to its end. -/
theorem run_exists (split : ExpertSplit grid ranks) (hranks : 0 < ranks) {rows : Nat}
    (x : Nat → List V) {env : Nat → PlacementEnv V}
    (hgrants : ∀ rank < ranks, (env rank).grants.Perm (List.range (rows * grid.topK)))
    (hn : 0 < rows * grid.topK) :
    Nonempty (ExchangeRun (grid.epGroup split hranks) rows grid.topK
      (fun rank => grid.call (env rank) (x rank)) grid.expert) :=
  exchangeRun_exists ⟨fun _ _ _ _ _ hj => call_ids_lt _ _ hj, hgrants⟩ hn
    (Int.natCast_nonneg _) grid.expert

/-- Every replica's count, in rank order. -/
theorem sizes_getD (x : Nat → List V) {r : Nat} (hr : r < grid.dpSize) :
    (grid.sizes x).getD r 0 = (x r).length := by
  rw [sizes, List.getD_eq_getElem _ _ (by simpa using hr), List.getElem_map, List.getElem_range]

theorem sizes_length (x : Nat → List V) : (grid.sizes x).length = grid.dpSize := by
  rw [sizes, List.length_map, List.length_range]

theorem row_le_padded (x : Nat → List V) {r : Nat} (hr : r < grid.dpSize) :
    (x r).length ≤ (grid.sizes x).foldl max 0 := by
  rw [← sizes_getD x hr]
  exact getD_le_padded (grid.sizes x) r

theorem pooled_length (x : Nat → List V) :
    ((List.range grid.dpSize).flatMap fun r =>
      pad 0 ((grid.sizes x).foldl max 0) (x r)).length =
        grid.dpSize * (grid.sizes x).foldl max 0 := by
  rw [List.length_flatMap, List.map_congr_left fun r hr =>
    pad_length (row_le_padded x (List.mem_range.mp hr)), List.map_const', List.length_range,
    List.sum_replicate_nat]

/-- A replica's rows in the rectangle are its own. -/
theorem pooled_getD (x : Nat → List V) {r t : Nat} (hr : r < grid.dpSize)
    (ht : t < (x r).length) :
    ((List.range grid.dpSize).flatMap fun r =>
      pad 0 ((grid.sizes x).foldl max 0) (x r)).getD (r * (grid.sizes x).foldl max 0 + t) 0 =
        (x r).getD t 0 := by
  have hle := row_le_padded x hr
  rw [getD_row (fun r hr => pad_length (row_le_padded x hr)) hr (by omega), pad_getD ht]

/-! The windows of the ranks tile the experts. -/

theorem windowId_eq {numLocal rank id : Nat} (hpos : 0 < numLocal) :
    windowId numLocal rank id =
      if id / numLocal = rank then ((id - rank * numLocal : Nat) : Int) else -1 := by
  have hdiv := Nat.div_add_mod id numLocal
  have hmod := Nat.mod_lt id hpos
  unfold windowId
  dsimp only
  by_cases hrank : id / numLocal = rank
  · have hle : rank * numLocal ≤ id := by
      rw [← hrank]
      exact Nat.div_mul_le_self id numLocal
    have hlt : id < rank * numLocal + numLocal := by
      rw [← hrank, Nat.mul_comm]
      omega
    rw [if_pos hrank, if_pos (by omega)]
    omega
  · rw [if_neg hrank, if_neg]
    rintro ⟨hge, hlt⟩
    refine hrank ?_
    rw [Nat.div_eq_iff hpos]
    omega

/-- Over the grid every id lies in the window of exactly one rank. -/
theorem sum_windows {dp tp g : Nat} (htp : 0 < tp) (hg : g < dp * tp) (y : V) :
    (∑ lane ∈ range tp, ∑ peer ∈ range dp, if g = peer * tp + lane then y else 0) = y := by
  have hsplit : g / tp * tp + g % tp = g := by
    rw [Nat.mul_comm]
    exact Nat.div_add_mod g tp
  have hpeer : g / tp < dp := (Nat.div_lt_iff_lt_mul htp).mpr hg
  have hlane : g % tp < tp := Nat.mod_lt g htp
  rw [Finset.sum_eq_single_of_mem (g % tp) (Finset.mem_range.mpr hlane),
    Finset.sum_eq_single_of_mem (g / tp) (Finset.mem_range.mpr hpeer), if_pos hsplit.symm]
  · intro peer _ hne
    refine if_neg fun heq => hne ?_
    rw [heq, (segment_div peer hlane).1]
  · intro lane hlane' hne
    refine Finset.sum_eq_zero fun peer _ => if_neg fun heq => hne ?_
    rw [heq, (segment_div peer (Finset.mem_range.mp hlane')).2]

/-- What one rank adds to a row: the experts of its window. -/
def rankSum (numLocal rank : Nat) (row : V) : V :=
  ∑ j ∈ range grid.topK,
    if (grid.route row).2 j / numLocal = rank
    then (grid.route row).1 j • grid.expert ((grid.route row).2 j) row else 0

/-- The windows of all ranks together give the routed sum. -/
theorem sum_rankSum (split : ExpertSplit grid (grid.dpSize * grid.tpSize)) (row : V) :
    (∑ lane ∈ range grid.tpSize, ∑ peer ∈ range grid.dpSize,
      grid.rankSum split.numLocalExperts (peer * grid.tpSize + lane) row) = grid.routed row := by
  simp only [rankSum]
  calc (∑ lane ∈ range grid.tpSize, ∑ peer ∈ range grid.dpSize, ∑ j ∈ range grid.topK, _)
      = ∑ lane ∈ range grid.tpSize, ∑ j ∈ range grid.topK, ∑ peer ∈ range grid.dpSize, _ :=
        Finset.sum_congr rfl fun lane _ => Finset.sum_comm
    _ = ∑ j ∈ range grid.topK, ∑ lane ∈ range grid.tpSize, ∑ peer ∈ range grid.dpSize, _ :=
        Finset.sum_comm
    _ = grid.routed row := by
        refine Finset.sum_congr rfl fun j hj => sum_windows grid.tpSize_pos ?_ _
        have hid := grid.route_lt row j (Finset.mem_range.mp hj)
        rw [split.tiles] at hid
        exact (Nat.div_lt_iff_lt_mul split.pos).mpr hid

/-- A rank's grouped GEMM over the pool. -/
theorem runExperts_window {numLocal rank : Nat} (hpos : 0 < numLocal) (pool : List V) :
    ((List.range pool.length).map (runExperts
      (fun localId => grid.expert (rank * numLocal + localId)) grid.topK
      (fun row => pool.getD row 0)
      (fun row j => windowId numLocal rank ((pool.map fun row => (grid.route row).2).getD row 0 j))
      fun row => (pool.map fun row => (grid.route row).1).getD row 0)) =
        pool.map (grid.rankSum numLocal rank) := by
  rw [← map_range_rows (grid.rankSum numLocal rank) pool 0]
  refine List.map_congr_left fun i hi => Finset.sum_congr rfl fun j _ => ?_
  have hlen : i < pool.length := List.mem_range.mp hi
  have hids : (pool.map fun row => (grid.route row).2).getD i 0 = (grid.route (pool.getD i 0)).2 := by
    rw [List.getD_eq_getElem _ _ (by rwa [List.length_map]), List.getElem_map,
      List.getD_eq_getElem _ _ hlen]
  have hweights : (pool.map fun row => (grid.route row).1).getD i 0 =
      (grid.route (pool.getD i 0)).1 := by
    rw [List.getD_eq_getElem _ _ (by rwa [List.length_map]), List.getElem_map,
      List.getD_eq_getElem _ _ hlen]
  beta_reduce
  rw [hids, hweights, windowId_eq hpos]
  by_cases hrank : (grid.route (pool.getD i 0)).2 j / numLocal = rank
  · have hle : rank * numLocal ≤ (grid.route (pool.getD i 0)).2 j := by
      rw [← hrank]
      exact Nat.div_mul_le_self _ numLocal
    rw [if_pos hrank, if_pos hrank, if_neg (by omega), Int.toNat_natCast,
      Nat.add_sub_cancel' hle]
  · rw [if_neg hrank, if_neg hrank, if_pos rfl]

/-- The all-gather/reduce-scatter path gives every replica the routed sums of its rows. -/
theorem forwardDpAttentionAgrs_eq (split : ExpertSplit grid (grid.dpSize * grid.tpSize))
    (x : Nat → List V) {replica : Nat} (hreplica : replica < grid.dpSize) :
    grid.forwardDpAttentionAgrs split x replica = .ok ((x replica).map grid.routed) := by
  have hsizes : ∀ r < grid.dpSize, (x r).length = (grid.sizes x).getD r 0 := fun r hr =>
    (sizes_getD x hr).symm
  have hmapped : ∀ {A : Type} (f : V → A), ∀ r < grid.dpSize,
      ((x r).map f).length = (grid.sizes x).getD r 0 := fun f r hr => by
    rw [List.length_map, hsizes r hr]
  rw [forwardDpAttentionAgrs]
  dsimp only
  rw [dpDispatch_eq grid.dpSize_pos (sizes_length x) hsizes (hmapped _) (hmapped _), ok_bind]
  dsimp only
  rw [← List.map_flatMap, ← List.map_flatMap]
  have hwindow : ∀ peer lane, ((List.range ((List.range grid.dpSize).flatMap x).length).map
      (runExperts (fun localId => grid.expert
          ((peer * grid.tpSize + lane) * split.numLocalExperts + localId)) grid.topK
        (fun row => ((List.range grid.dpSize).flatMap x).getD row 0)
        (fun row j => windowId split.numLocalExperts (peer * grid.tpSize + lane)
          ((((List.range grid.dpSize).flatMap x).map fun row => (grid.route row).2).getD row 0 j))
        fun row => (((List.range grid.dpSize).flatMap x).map fun row =>
          (grid.route row).1).getD row 0)) =
      (List.range grid.dpSize).flatMap fun r =>
        (x r).map (grid.rankSum split.numLocalExperts (peer * grid.tpSize + lane)) := by
    intro peer lane
    rw [runExperts_window split.pos, List.map_flatMap]
  rw [dpCombine_eq grid.tpSize_pos (sizes_length x) hreplica (fun peer _ lane _ => hwindow peer lane)
    fun peer _ lane _ r hr => hmapped _ r hr, sizes_getD x hreplica]
  refine congrArg Except.ok ((List.map_congr_left fun i hi => ?_).trans
    (map_range_rows grid.routed (x replica) 0))
  have hlen : i < (x replica).length := List.mem_range.mp hi
  rw [← sum_rankSum split]
  refine Finset.sum_congr rfl fun lane _ => Finset.sum_congr rfl fun peer _ => ?_
  rw [List.getD_eq_getElem _ _ (by rwa [List.length_map]), List.getElem_map,
    List.getD_eq_getElem _ _ hlen]

end MoeGrid

/-! ### The paths agree -/

section Paths

variable {grid : MoeGrid R V} {env : Nat → Nat → PlacementEnv V} {x : Nat → List V}

theorem dense_agrees : (MoePath.dense : MoePath grid).Agrees env x := fun replica _ _ _ =>
  ⟨⟨_, rfl⟩, fun _ hout => hout.trans (MoeGrid.forwardDense_eq (x replica))⟩

theorem dpAttentionAgrs_agrees (split : ExpertSplit grid (grid.dpSize * grid.tpSize)) :
    (MoePath.dpAttentionAgrs split).Agrees env x := by
  intro replica hreplica lane _
  have hrouted := MoeGrid.forwardDpAttentionAgrs_eq split x hreplica
  refine ⟨⟨_, _, hrouted, rfl⟩, ?_⟩
  rintro out ⟨routed, hreturned, rfl⟩
  rw [hrouted] at hreturned
  cases hreturned
  exact MoeGrid.addShared_eq (x replica)

theorem expertParallel_agrees_iff (split : ExpertSplit grid grid.tpSize)
    (hgrants : (MoePath.expertParallel split).Granted env x) :
    (MoePath.expertParallel split).Agrees env x ↔ (MoePath.expertParallel split).HasSlots x := by
  constructor
  · intro h replica hreplica
    obtain ⟨⟨out, run, -⟩, -⟩ := h replica hreplica 0 grid.tpSize_pos
    exact run.slots_pos
  · intro hslots replica hreplica lane hlane
    obtain ⟨run⟩ := MoeGrid.run_exists split grid.tpSize_pos (fun _ => x replica)
      (hgrants replica hreplica) (hslots replica hreplica)
    refine ⟨⟨_, run, rfl⟩, ?_⟩
    rintro out ⟨run, rfl⟩
    have hout : (List.range (x replica).length).map (run.out lane) =
        (x replica).map grid.routed := by
      refine (List.map_congr_left fun t ht => ?_).trans (map_range_rows grid.routed (x replica) 0)
      exact MoeGrid.run_out_eq (fun _ => x replica) run (hgrants replica hreplica) hlane
        (List.mem_range.mp ht)
    rw [hout]
    exact MoeGrid.addShared_eq (x replica)

theorem dpAttentionA2A_agrees_iff (split : ExpertSplit grid (grid.dpSize * grid.tpSize))
    (hgrants : (MoePath.dpAttentionA2A split).Granted env x) :
    (MoePath.dpAttentionA2A split).Agrees env x ↔ (MoePath.dpAttentionA2A split).HasSlots x := by
  let pooled := (List.range grid.dpSize).flatMap fun r =>
    pad 0 ((grid.sizes x).foldl max 0) (x r)
  have hgather : dpGather grid.dpSize (grid.sizes x) x = .ok pooled :=
    dpGather_eq fun r hr => (MoeGrid.sizes_getD x hr).symm
  have hlength : pooled.length = grid.dpSize * (grid.sizes x).foldl max 0 :=
    MoeGrid.pooled_length x
  have hranks : ∀ rank < grid.dpSize * grid.tpSize,
      (env (rank / grid.tpSize) (rank % grid.tpSize)).grants.Perm
        (List.range (pooled.length * grid.topK)) := by
    intro rank hrank
    have hgrant := hgrants (rank / grid.tpSize) ((Nat.div_lt_iff_lt_mul grid.tpSize_pos).mpr hrank)
      (rank % grid.tpSize) (Nat.mod_lt rank grid.tpSize_pos)
    rwa [MoePath.dispatchRows, ← hlength] at hgrant
  constructor
  · intro h
    obtain ⟨⟨out, pooled', hpooled, run, -⟩, -⟩ := h 0 grid.dpSize_pos 0 grid.tpSize_pos
    rw [hgather] at hpooled
    cases hpooled
    have hslots := run.slots_pos
    have hpos : 0 < pooled.length := Nat.pos_of_mul_pos_right hslots
    have hk : 0 < grid.topK := Nat.pos_of_mul_pos_left hslots
    rw [hlength] at hpos
    obtain ⟨r, hr, hrow⟩ := exists_of_padded_pos (Nat.pos_of_mul_pos_left hpos)
    rw [MoeGrid.sizes_length] at hr
    rw [MoeGrid.sizes_getD x hr] at hrow
    exact ⟨r, hr, Nat.mul_pos hrow hk⟩
  · rintro ⟨r, hr, hrow⟩ replica hreplica lane hlane
    have hslots : 0 < pooled.length * grid.topK := by
      have hle := MoeGrid.row_le_padded x hr
      have hk : 0 < grid.topK := Nat.pos_of_mul_pos_left hrow
      have hpos : 0 < (x r).length := Nat.pos_of_mul_pos_right hrow
      rw [hlength]
      exact Nat.mul_pos (Nat.mul_pos grid.dpSize_pos (Nat.lt_of_lt_of_le hpos hle)) hk
    obtain ⟨run⟩ := MoeGrid.run_exists split grid.numRanks_pos (fun _ => pooled) hranks hslots
    refine ⟨⟨_, pooled, hgather, run, rfl⟩, ?_⟩
    rintro out ⟨pooled', hpooled, run, rfl⟩
    rw [hgather] at hpooled
    cases hpooled
    have hwindow : replica * (grid.sizes x).foldl max 0 + (x replica).length ≤ pooled.length := by
      rw [hlength]
      have hle := MoeGrid.row_le_padded x hreplica
      calc replica * (grid.sizes x).foldl max 0 + (x replica).length
          ≤ (replica + 1) * (grid.sizes x).foldl max 0 := by rw [Nat.succ_mul]; omega
        _ ≤ grid.dpSize * (grid.sizes x).foldl max 0 := Nat.mul_le_mul_right _ hreplica
    have hout : dpScatter ((List.range pooled.length).map
        (run.out (replica * grid.tpSize + lane)))
          { numTokensAcrossDp := grid.sizes x, rank := replica } =
        (x replica).map grid.routed := by
      rw [dpScatter, DPMetadata.localTokens, DPMetadata.paddedOffset, DPMetadata.paddedTokens]
      dsimp only
      rw [MoeGrid.sizes_getD x hreplica, slice_map_range _ hwindow]
      refine (List.map_congr_left fun t ht => ?_).trans (map_range_rows grid.routed (x replica) 0)
      have ht := List.mem_range.mp ht
      rw [← MoeGrid.pooled_getD x hreplica ht]
      exact MoeGrid.run_out_eq (fun _ => pooled) run hranks (segment_lt hreplica hlane)
        (by omega)
    rw [hout]
    exact MoeGrid.addShared_eq (x replica)

/-- Every path gives every rank the block's value on its rows, exactly when its exchanges have
a slot to carry. -/
theorem forward_agrees_iff (path : MoePath grid) (hgrants : path.Granted env x) :
    path.Agrees env x ↔ path.HasSlots x := by
  cases path with
  | dense => exact iff_of_true dense_agrees trivial
  | expertParallel split => exact expertParallel_agrees_iff split hgrants
  | dpAttentionA2A split => exact dpAttentionA2A_agrees_iff split hgrants
  | dpAttentionAgrs split => exact iff_of_true (dpAttentionAgrs_agrees split) trivial

end Paths

/-- Two replicas of two lanes, with two experts and one route for every row. -/
def squareGrid : MoeGrid ℤ ℤ where
  dpSize := 2
  tpSize := 2
  numExperts := 2
  topK := 1
  route := fun _ => (fun _ => 3, fun _ => 1)
  expertSlice := fun e lane x => (e + 1) * x + lane
  sharedSlice := some fun lane x => x - lane
  fused := true
  capacitySlack := 8
  dpSize_pos := Nat.two_pos
  tpSize_pos := Nat.two_pos
  route_lt := fun _ _ _ => Nat.one_lt_two

def squareSplit : ExpertSplit squareGrid squareGrid.tpSize where
  numLocalExperts := 1
  pos := Nat.one_pos
  tiles := rfl

/-- Ranks whose exchanges carry `slots` slots. -/
def squareEnv (slots : Nat) (_ _ : Nat) : PlacementEnv ℤ where
  isCuda := true
  unitStride := true
  grants := List.range slots
  stale := fun _ => 0

/-- With a row on every replica the exchange gives the block's value. -/
theorem forward_agrees_square :
    (MoePath.expertParallel squareSplit).Agrees (squareEnv 1) (fun replica => [(replica : ℤ)]) :=
  (forward_agrees_iff _ fun _ _ _ _ => List.Perm.refl _).mpr fun _ _ => Nat.one_pos

/-- A replica without rows makes the exchange of its lanes raise. -/
theorem empty_replica_raises :
    ¬ ∀ (grid : MoeGrid ℤ ℤ) (path : MoePath grid) (env : Nat → Nat → PlacementEnv ℤ)
      (x : Nat → List ℤ), path.Granted env x → path.Agrees env x := by
  intro h
  have hagrees := h squareGrid (.expertParallel squareSplit) (squareEnv 0) (fun _ => [])
    fun _ _ _ _ => List.Perm.refl _
  obtain ⟨⟨out, run, -⟩, -⟩ := hagrees 0 (by decide) 0 (by decide)
  exact absurd run.slots_pos (by decide)

end RapidLlm
