import Mathlib.Algebra.BigOperators.Group.Finset.Basic
import Mathlib.Algebra.Group.Pi.Basic
import Mathlib.Algebra.GroupWithZero.Nat
import Mathlib.Data.List.Dedup
import RapidLlm.Lib.Outcome
import RapidLlm.Lib.Rectangle
import RapidLlm.Engine.BlockPool

/-!
# RapidLlm.Distributed.DpAttention

**Pooling the tokens of the replicas** (`distributed/dp_attention.py`, with the ragged
collectives of `distributed/parallel_state.py`).

A collective is a function of what every rank of its group contributes: rank `r`'s tensor is
`shards r`, a list of rows. The wire is equal-length, so a ragged collective pads its rows to
a rectangle and compacts it on the other side; `allGatherv_eq` and `reduceScatterv_eq` say
that nothing of this shows.
-/

namespace RapidLlm

open Finset (range)
open Segments Rectangle

/-- How many tokens each DP rank brought to this step. -/
structure DPMetadata where
  numTokensAcrossDp : List Nat
  rank : Nat

namespace DPMetadata

variable (metadata : DPMetadata)

/-- Rows this rank brought. -/
def localTokens : Nat := metadata.numTokensAcrossDp.getD metadata.rank 0

/-- Rows every rank contributes to the rectangle, the largest count. -/
def paddedTokens : Nat := metadata.numTokensAcrossDp.foldl max 0

/-- Where this rank's rows start in the rectangle. -/
def paddedOffset : Nat := metadata.rank * metadata.paddedTokens

end DPMetadata

/-! ### Collectives -/

section Collectives

variable {A V : Type}

/-- `len(set(sizes)) == 1`. -/
def uniformSizes (sizes : List Nat) : Bool := sizes.dedup.length = 1

/-- `_ragged_plan`: positions of the pool's rows in the `world x padded` rectangle. -/
def raggedPlan (sizes : List Nat) (padded : Nat) : List Nat :=
  plan (fun r => sizes.getD r 0) padded sizes.length

/-- Gather uneven shards into one ragged concatenation. -/
def allGatherv [Zero A] (world : Nat) (sizes : List Nat) (shards : Nat → List A) :
    Except Raised (List A) :=
  if world ≤ 1 then .ok (shards 0)
  else if sizes.length ≠ world then
    .error (.valueError s!"all_gatherv got {sizes.length} sizes for {world} ranks")
  else if (List.range world).any fun rank => (shards rank).length ≠ sizes.getD rank 0 then
    .error (.valueError "all_gatherv shard does not hold the rows this rank declared")
  else if uniformSizes sizes then .ok ((List.range world).flatMap shards)
  else
    let padded := sizes.foldl max 0
    let gathered := (List.range world).flatMap fun rank => pad 0 padded (shards rank)
    .ok ((raggedPlan sizes padded).map fun p => gathered.getD p 0)

variable [AddCommMonoid V]

/-- Sum across ranks, then keep this rank's shard. -/
def reduceScatter (world : Nat) (tensors : Nat → List V) (rank : Nat) : Except Raised (List V) :=
  if (tensors rank).length % world ≠ 0 then
    .error (.valueError s!"reduce_scatter does not divide across {world} ranks")
  else
    let rows := (tensors rank).length / world
    .ok ((List.range rows).map fun i =>
      ∑ peer ∈ range world, (tensors peer).getD (rank * rows + i) 0)

/-- Sum the ragged pool across ranks, keeping this rank's shard. -/
def reduceScatterv (world : Nat) (sizes : List Nat) (pools : Nat → List V) (rank : Nat) :
    Except Raised (List V) :=
  if world ≤ 1 then .ok (pools rank)
  else if sizes.length ≠ world then
    .error (.valueError s!"reduce_scatterv got {sizes.length} sizes for {world} ranks")
  else if (pools rank).length ≠ sizes.sum then
    .error (.valueError (s!"reduce_scatterv pool with {(pools rank).length} rows along dim 0 " ++
      s!"does not hold the declared {sizes.sum}"))
  else if uniformSizes sizes then reduceScatter world pools rank
  else
    let padded := sizes.foldl max 0
    let places := raggedPlan sizes padded
    let buf := fun peer => scatter (pools peer).length (fun i => places.getD i 0)
      (fun i => (pools peer).getD i 0) fun _ => 0
    let shard := (List.range padded).map fun i =>
      ∑ peer ∈ range world, buf peer (rank * padded + i)
    .ok (shard.take (sizes.getD rank 0))

/-- `tensor_model_parallel_all_reduce`. -/
def tensorModelParallelAllReduce (tpSize : Nat) (tensors : Nat → List V) : List V :=
  (List.range (tensors 0).length).map fun i => ∑ lane ∈ range tpSize, (tensors lane).getD i 0

/-! ### Pooling -/

/-- Pool the replicas' rows into the step's padded rectangle. -/
def dpGather (world : Nat) (sizes : List Nat) (x : Nat → List V) : Except Raised (List V) :=
  if (List.range world).any fun rank =>
      (x rank).length ≠ DPMetadata.localTokens { numTokensAcrossDp := sizes, rank } then
    .error (.valueError "DP gather expected the rows this rank declared for the step")
  else
    .ok ((List.range world).flatMap fun rank =>
      pad 0 (DPMetadata.paddedTokens { numTokensAcrossDp := sizes, rank }) (x rank))

/-- Take this rank's rows out of the rectangle's routed result. -/
def dpScatter (x : List V) (metadata : DPMetadata) : List V :=
  (x.drop metadata.paddedOffset).take metadata.localTokens

/-- Pool the hidden states and the ranks' routing into the ragged pool. -/
def dpDispatch [Zero A] (world : Nat) (sizes : List Nat) (x : Nat → List V)
    (topkWeights : Nat → List A) (topkIds : Nat → List (Nat → Nat)) :
    Except Raised (List V × List A × List (Nat → Nat)) :=
  if (List.range world).any fun rank =>
      (x rank).length ≠ DPMetadata.localTokens { numTokensAcrossDp := sizes, rank } then
    .error (.valueError "DP dispatch expected the rows this rank declared for the step")
  else do
    let poolX ← allGatherv world sizes x
    let poolWeights ← allGatherv world sizes topkWeights
    let poolIds ← allGatherv world sizes topkIds
    return (poolX, poolWeights, poolIds)

/-- Sum the ragged pool's expert output and keep this replica's rows: a reduce-scatter over
each lane's DP group, and over several lanes an all-reduce. -/
def dpCombine (dpSize tpSize : Nat) (sizes : List Nat) (pooledOut : Nat → Nat → List V)
    (replica : Nat) : Except Raised (List V) := do
  let shards ← (List.range tpSize).mapM fun lane =>
    reduceScatterv dpSize sizes (fun peer => pooledOut peer lane) replica
  if 1 < tpSize then return tensorModelParallelAllReduce tpSize fun lane => shards.getD lane []
  else return shards.getD 0 []

end Collectives

/-! ### What the collectives come to -/

section Pooling

variable {A V : Type} {world rank : Nat} {sizes : List Nat}

/-- A rank's size is at most the largest. -/
theorem getD_le_padded (sizes : List Nat) (rank : Nat) :
    sizes.getD rank 0 ≤ sizes.foldl max 0 := by
  have hfold : ∀ (l : List Nat) (m : Nat), m ≤ l.foldl max m ∧ ∀ a ∈ l, a ≤ l.foldl max m := by
    intro l
    induction l with
    | nil => exact fun m => ⟨le_rfl, fun a ha => absurd ha List.not_mem_nil⟩
    | cons b l ih =>
      intro m
      obtain ⟨hm, hall⟩ := ih (max m b)
      refine ⟨(le_max_left m b).trans hm, fun a ha => ?_⟩
      rcases List.mem_cons.mp ha with rfl | ha
      · exact (le_max_right m a).trans hm
      · exact hall a ha
  by_cases hrank : rank < sizes.length
  · rw [List.getD_eq_getElem _ _ hrank]
    exact (hfold sizes 0).2 _ (List.getElem_mem hrank)
  · rw [List.getD_eq_default _ _ (Nat.le_of_not_lt hrank)]
    exact Nat.zero_le _

/-- The largest size, if it is not zero, is some rank's. -/
theorem exists_of_padded_pos (h : 0 < sizes.foldl max 0) :
    ∃ r < sizes.length, 0 < sizes.getD r 0 := by
  have hfold : ∀ (l : List Nat) (m : Nat), m < l.foldl max m → ∃ a ∈ l, m < a := by
    intro l
    induction l with
    | nil => exact fun m hm => absurd hm (lt_irrefl m)
    | cons b l ih =>
      intro m hm
      by_cases hb : m < b
      · exact ⟨b, List.mem_cons_self .., hb⟩
      · rw [List.foldl_cons, Nat.max_eq_left (Nat.le_of_not_lt hb)] at hm
        obtain ⟨a, ha, hlt⟩ := ih m hm
        exact ⟨a, .tail b ha, hlt⟩
  obtain ⟨a, ha, hpos⟩ := hfold sizes 0 h
  obtain ⟨r, hr, rfl⟩ := List.getElem_of_mem ha
  exact ⟨r, hr, by rwa [List.getD_eq_getElem _ _ hr]⟩

/-- Equal sizes are one size. -/
theorem uniformSizes_getD (h : uniformSizes sizes = true) {r : Nat} (hr : r < sizes.length)
    (hrank : rank < sizes.length) : sizes.getD r 0 = sizes.getD rank 0 := by
  obtain ⟨size, hsize⟩ := List.length_eq_one_iff.mp (of_decide_eq_true h)
  have hall : ∀ a ∈ sizes, a = size := fun a ha =>
    List.mem_singleton.mp (hsize ▸ List.mem_dedup.mpr ha)
  rw [List.getD_eq_getElem _ _ hr, List.getD_eq_getElem _ _ hrank,
    hall _ (List.getElem_mem hr), hall _ (List.getElem_mem hrank)]

/-- The plan of the sizes is the plan of pieces that have them. -/
theorem raggedPlan_eq {pieces : Nat → List A} {padded : Nat} (hlen : sizes.length = world)
    (hpieces : ∀ r < world, (pieces r).length = sizes.getD r 0) :
    raggedPlan sizes padded = plan (fun r => (pieces r).length) padded world := by
  rw [raggedPlan, plan, plan, hlen]
  refine List.flatMap_congr fun r hr => ?_
  rw [hpieces r (List.mem_range.mp hr)]

/-- Gathering gives the shards in rank order. -/
theorem allGatherv_eq [Zero A] {shards : Nat → List A} (hworld : 0 < world)
    (hlen : sizes.length = world) (hsizes : ∀ r < world, (shards r).length = sizes.getD r 0) :
    allGatherv world sizes shards = .ok ((List.range world).flatMap shards) := by
  unfold allGatherv
  by_cases hone : world ≤ 1
  · obtain rfl : world = 1 := by omega
    rw [if_pos hone]
    simp
  have hdeclared : ¬ ((List.range world).any fun r =>
      decide ((shards r).length ≠ sizes.getD r 0)) = true := by
    rw [List.any_eq_true]
    rintro ⟨r, hr, hne⟩
    exact of_decide_eq_true hne (hsizes r (List.mem_range.mp hr))
  rw [if_neg hone, if_neg (fun h => h hlen), if_neg hdeclared]
  by_cases huniform : uniformSizes sizes = true
  · rw [if_pos huniform]
  · rw [if_neg huniform]
    dsimp only
    rw [raggedPlan_eq hlen hsizes, compact fun r hr => by
      rw [hsizes r hr]
      exact getD_le_padded sizes r]

variable [AddCommMonoid V] {pools : Nat → List V} {chunks : Nat → Nat → List V}

/-- Reducing and scattering gives a rank the sum of its own chunks. -/
theorem reduceScatterv_eq (hlen : sizes.length = world) (hrank : rank < world)
    (hpools : ∀ peer < world, pools peer = (List.range world).flatMap (chunks peer))
    (hchunks : ∀ peer < world, ∀ r < world, (chunks peer r).length = sizes.getD r 0) :
    reduceScatterv world sizes pools rank = .ok ((List.range (sizes.getD rank 0)).map fun i =>
      ∑ peer ∈ range world, (chunks peer rank).getD i 0) := by
  unfold reduceScatterv
  by_cases hone : world ≤ 1
  · obtain rfl : world = 1 := by omega
    obtain rfl : rank = 0 := by omega
    rw [if_pos hone, hpools 0 hrank, ← hchunks 0 hrank 0 hrank]
    simp only [Finset.sum_range_one, map_range_getD]
    simp
  have hsum : (pools rank).length = sizes.sum := by
    rw [hpools rank hrank, List.length_flatMap]
    refine congrArg List.sum (List.ext_getElem (by simp [hlen]) fun i hi hi' => ?_)
    have hi : i < world := by simpa using hi
    rw [List.getElem_map, List.getElem_range, hchunks rank hrank i hi,
      List.getD_eq_getElem _ _ hi']
  rw [if_neg hone, if_neg (fun h => h hlen), if_neg (fun h => h hsum)]
  by_cases huniform : uniformSizes sizes = true
  · -- equal chunks: the shard is a stride of the pool
    have hwidth : ∀ peer < world, ∀ r < world, (chunks peer r).length = sizes.getD rank 0 :=
      fun peer hpeer r hr => (hchunks peer hpeer r hr).trans
        (uniformSizes_getD huniform (hlen.symm ▸ hr) (hlen.symm ▸ hrank))
    have htotal : (pools rank).length = world * sizes.getD rank 0 := by
      rw [hpools rank hrank, List.length_flatMap,
        List.map_congr_left fun r hr => hwidth rank hrank r (List.mem_range.mp hr),
        List.map_const', List.sum_replicate_nat, List.length_range]
    have hrows : (pools rank).length / world = sizes.getD rank 0 := by
      rw [htotal, Nat.mul_div_cancel_left _ (by omega)]
    have hdvd : ¬ (pools rank).length % world ≠ 0 := fun h =>
      h (by rw [htotal, Nat.mul_mod_right])
    rw [if_pos huniform, reduceScatter, if_neg hdvd, hrows]
    refine congrArg Except.ok (List.map_congr_left fun i hi => ?_)
    have hi := List.mem_range.mp hi
    refine Finset.sum_congr rfl fun peer hpeer => ?_
    have hpeer := Finset.mem_range.mp hpeer
    rw [hpools peer hpeer, getD_row (hwidth peer hpeer) hrank hi]
  · rw [if_neg huniform]
    have hle := getD_le_padded sizes rank
    dsimp only
    rw [← List.map_take, List.take_range, Nat.min_eq_left hle]
    refine congrArg Except.ok (List.map_congr_left fun i hi => ?_)
    have hi := List.mem_range.mp hi
    refine Finset.sum_congr rfl fun peer hpeer => ?_
    have hpeer := Finset.mem_range.mp hpeer
    rw [raggedPlan_eq hlen (hchunks peer hpeer), hpools peer hpeer]
    exact spread (fun r hr => by rw [hchunks peer hpeer r hr]; exact getD_le_padded sizes r) hrank
      (by rw [hchunks peer hpeer rank hrank]; exact hi)

/-- The rectangle holds the replicas' rows, each padded to the largest count. -/
theorem dpGather_eq {x : Nat → List V} (hsizes : ∀ r < world, (x r).length = sizes.getD r 0) :
    dpGather world sizes x =
      .ok ((List.range world).flatMap fun r => pad 0 (sizes.foldl max 0) (x r)) := by
  have hdeclared : ¬ ((List.range world).any fun r => decide ((x r).length ≠
      DPMetadata.localTokens { numTokensAcrossDp := sizes, rank := r })) = true := by
    rw [List.any_eq_true]
    rintro ⟨r, hr, hne⟩
    exact of_decide_eq_true hne (hsizes r (List.mem_range.mp hr))
  rw [dpGather, if_neg hdeclared]
  rfl

/-- The pool holds the replicas' rows and their routing, in rank order. -/
theorem dpDispatch_eq [Zero A] {x : Nat → List V} {topkWeights : Nat → List A}
    {topkIds : Nat → List (Nat → Nat)} (hworld : 0 < world) (hlen : sizes.length = world)
    (hsizes : ∀ r < world, (x r).length = sizes.getD r 0)
    (hweights : ∀ r < world, (topkWeights r).length = sizes.getD r 0)
    (hids : ∀ r < world, (topkIds r).length = sizes.getD r 0) :
    dpDispatch world sizes x topkWeights topkIds =
      .ok ((List.range world).flatMap x, (List.range world).flatMap topkWeights,
        (List.range world).flatMap topkIds) := by
  have hdeclared : ¬ ((List.range world).any fun r => decide ((x r).length ≠
      DPMetadata.localTokens { numTokensAcrossDp := sizes, rank := r })) = true := by
    rw [List.any_eq_true]
    rintro ⟨r, hr, hne⟩
    exact of_decide_eq_true hne (hsizes r (List.mem_range.mp hr))
  rw [dpDispatch, if_neg hdeclared, allGatherv_eq hworld hlen hsizes, ok_bind,
    allGatherv_eq hworld hlen hweights, ok_bind, allGatherv_eq hworld hlen hids, ok_bind,
    pure_eq_ok]

/-- The sum over a lane's group and then over the lanes takes in every rank once. -/
theorem dpCombine_eq {dpSize tpSize replica : Nat} {pooledOut : Nat → Nat → List V}
    {chunks : Nat → Nat → Nat → List V} (htp : 0 < tpSize) (hlen : sizes.length = dpSize)
    (hreplica : replica < dpSize)
    (hpools : ∀ peer < dpSize, ∀ lane < tpSize,
      pooledOut peer lane = (List.range dpSize).flatMap (chunks peer lane))
    (hchunks : ∀ peer < dpSize, ∀ lane < tpSize, ∀ r < dpSize,
      (chunks peer lane r).length = sizes.getD r 0) :
    dpCombine dpSize tpSize sizes pooledOut replica =
      .ok ((List.range (sizes.getD replica 0)).map fun i =>
        ∑ lane ∈ range tpSize, ∑ peer ∈ range dpSize, (chunks peer lane replica).getD i 0) := by
  let shard := fun lane => (List.range (sizes.getD replica 0)).map fun i =>
    ∑ peer ∈ range dpSize, (chunks peer lane replica).getD i 0
  have hshards : (List.range tpSize).mapM (fun lane =>
      reduceScatterv dpSize sizes (fun peer => pooledOut peer lane) replica) =
        .ok ((List.range tpSize).map shard) := by
    refine mapM_ok fun lane hlane => ?_
    have hlane := List.mem_range.mp hlane
    exact reduceScatterv_eq hlen hreplica (fun peer hpeer => hpools peer hpeer lane hlane)
      fun peer hpeer => hchunks peer hpeer lane hlane
  have hget : ∀ lane < tpSize, ((List.range tpSize).map shard).getD lane [] = shard lane := by
    intro lane hlane
    rw [List.getD_eq_getElem _ _ (by simpa using hlane), List.getElem_map, List.getElem_range]
  rw [dpCombine, hshards, ok_bind]
  by_cases hone : 1 < tpSize
  · rw [if_pos hone, pure_eq_ok, tensorModelParallelAllReduce, hget 0 htp]
    refine congrArg Except.ok ?_
    simp only [shard, List.length_map, List.length_range]
    refine List.map_congr_left fun i hi => Finset.sum_congr rfl fun lane hlane => ?_
    have hi := List.mem_range.mp hi
    have hentry := hget lane (Finset.mem_range.mp hlane)
    simp only [shard] at hentry
    rw [hentry, List.getD_eq_getElem _ _ (by simpa using hi), List.getElem_map,
      List.getElem_range]
  · obtain rfl : tpSize = 1 := by omega
    rw [if_neg hone, pure_eq_ok, hget 0 htp]
    simp only [shard, Finset.sum_range_one]

end Pooling

end RapidLlm
