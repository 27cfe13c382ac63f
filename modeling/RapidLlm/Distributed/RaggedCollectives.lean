import RapidLlm.Lib.Lockstep
import RapidLlm.Lib.Tensor
import RapidLlm.Distributed.DpAttention

/-!
# RapidLlm.Distributed.RaggedCollectives

**The ragged collectives, rank by rank** (`all_gatherv` and `reduce_scatterv` of
`distributed/parallel_state.py`, and the pooling of `distributed/dp_attention.py` over them).

`DpAttention` takes a collective for a function of what all the ranks bring, rows of one axis.
Here every rank of the group runs the source's function on a tensor of any shape, along any
axis and with the plans its own process has cached, and the ranks meet in the two equal-length
collectives of the wire. A missing group is a group of one rank: both have no peer to talk to.
-/

namespace RapidLlm

/-- Where this rank's rows start in the ragged pool. -/
def DPMetadata.localOffset (metadata : DPMetadata) : Nat :=
  (metadata.numTokensAcrossDp.take metadata.rank).sum

/-- A collective of the wire, with the shape of what a rank brings to it. -/
inductive WireCall
  | allGather (shape : List Nat)
  | reduceScatterTensor (shape : List Nat)
  deriving DecidableEq, Repr

/-- `_RAGGED_PLANS`: the plans this process has built. -/
structure RaggedPlans (Device : Type) where
  plan : List Nat × Nat × Device → Option (List Nat)
  coherent : ∀ sizes padded device p, plan (sizes, padded, device) = some p →
    p = raggedPlan sizes padded

namespace RaggedPlans

variable {Device : Type}

/-- No plan built yet. -/
def empty : RaggedPlans Device := ⟨fun _ => none, fun _ _ _ _ h => nomatch h⟩

variable [DecidableEq Device] (plans : RaggedPlans Device) (sizes : List Nat) (padded : Nat)
  (device : Device)

/-- `_RAGGED_PLANS[key] = plan`. -/
def insert : RaggedPlans Device where
  plan := fun key =>
    if key = (sizes, padded, device) then some (raggedPlan sizes padded) else plans.plan key
  coherent := by
    intro sizes' padded' device' p h
    split at h
    · next heq =>
        rw [Prod.mk.injEq, Prod.mk.injEq] at heq
        obtain ⟨rfl, rfl, -⟩ := heq
        exact (Option.some.inj h).symm
    · exact plans.coherent _ _ _ _ h

/-- `_ragged_plan`: the plan of these sizes, built when it is not there yet. -/
def lookup : List Nat × RaggedPlans Device :=
  match plans.plan (sizes, padded, device) with
  | some p => (p, plans)
  | none => (raggedPlan sizes padded, plans.insert sizes padded device)

/-- A cached plan is the plan. -/
@[simp] theorem lookup_fst : (plans.lookup sizes padded device).1 = raggedPlan sizes padded := by
  rw [lookup]
  split
  · next p h => exact plans.coherent _ _ _ _ h
  · rfl

end RaggedPlans

namespace ParallelState

open Tensor

variable {A Device : Type}

/-! ### The wire -/

/-- What the collectives of the wire answer: the ranks' tensors in rank order, or the sum of
them, cut into the ranks' equal shares of rows. -/
def wire {world : Nat} [AddCommMonoid A] (call : WireCall)
    (values : Fin world → List (Tensor A)) : List (Tensor A) :=
  match call with
  | .allGather _ => (List.finRange world).flatMap values
  | .reduceScatterTensor shape =>
      let total := Tensor.sum shape fun rank => (values rank).headD default
      let rows := shape.getD 0 0 / world
      (List.range world).map fun rank => total.narrow 0 (rank * rows) rows

section Source

variable [Zero A]

/-- `dist.all_gather(parts, tensor)`. -/
def distAllGather (tensor : Tensor A) : Script WireCall (List (Tensor A)) (List (Tensor A)) :=
  .enter (.allGather tensor.shape) [tensor] .done

/-- `dist.reduce_scatter_tensor(shard, tensor)`. -/
def distReduceScatterTensor (rank : Nat) (tensor : Tensor A) :
    Script WireCall (List (Tensor A)) (Tensor A) :=
  .enter (.reduceScatterTensor tensor.shape) [tensor] fun shares =>
    .done (shares.getD rank default)

/-! ### The source's functions -/

/-- Concatenate the ranks' tensors. -/
def dataParallelAllGather (world : Nat) (tensor : Tensor A) (d : Nat) :
    Script WireCall (List (Tensor A)) (Tensor A) :=
  if world ≤ 1 then .done tensor
  else do
    let parts ← distAllGather tensor
    return cat d parts

/-- Sum across ranks, then keep this rank's shard. The axis has been brought into range by the
caller. -/
def reduceScatter (world rank : Nat) (tensor : Tensor A) (d : Nat) :
    Script WireCall (List (Tensor A)) (Except Raised (Tensor A)) :=
  if world ≤ 1 then .done (.ok tensor)
  else if tensor.size d % world ≠ 0 then
    .done (.error (.valueError (s!"reduce_scatter dim {d} of shape {tensor.shape} does not " ++
      s!"divide across {world} ranks")))
  else do
    let moved := tensor.movedim d 0
    let shard ← distReduceScatterTensor rank moved
    return .ok (shard.movedim 0 d)

/-- `dim % tensor.dim()`. -/
def axisOf (d : Int) (dims : Nat) : Nat := (d % (dims : Int)).toNat

/-- The first tensor whose shard axis does not hold the length this rank declared. -/
def checkShards (d declared : Nat) : List (Tensor A) → Except Raised Unit
  | [] => .ok ()
  | tensor :: tensors =>
      match tensor.shape[d]? with
      | none => .error (.indexError "tuple index out of range")
      | some rows =>
          if rows ≠ declared then
            .error (.valueError (s!"all_gatherv shard with {rows} rows along dim {d} does not " ++
              s!"hold the {declared} rows this rank declared"))
          else checkShards d declared tensors

/-- A shard with the zeros it needs to hold `padded` rows along the axis. -/
def paddedShard (d padded : Nat) (tensor : Tensor A) : Tensor A :=
  let pads := padsAfter tensor.dim d (padded - tensor.size d)
  if pads.any fun count => count ≠ 0 then tensor.pad pads else tensor

variable [DecidableEq Device]

/-- Gather uneven shards into one ragged concatenation per tensor. -/
def allGatherv (world rank : Nat) (device : Device) (plans : RaggedPlans Device)
    (tensors : List (Tensor A)) (dim : Int) (sizes : Option (List Nat)) :
    Script WireCall (List (Tensor A)) (Except Raised (List (Tensor A)) × RaggedPlans Device) :=
  if world ≤ 1 then .done (.ok tensors, plans)
  else match tensors with
    | [] => .done (.error (.indexError "list index out of range"), plans)
    | first :: _ =>
        if first.dim = 0 then .done (.error (.zeroDivisionError "modulo by zero"), plans)
        else
          let d := axisOf dim first.dim
          let sizes := sizes.getD (List.replicate world (first.size d))
          if sizes.length ≠ world then
            .done (.error (.valueError
              s!"all_gatherv got {sizes.length} sizes for {world} ranks"), plans)
          else match checkShards d (sizes.getD rank 0) tensors with
            | .error e => .done (.error e, plans)
            | .ok () =>
                if uniformSizes sizes then do
                  let gathered ← tensors.mapM fun tensor => dataParallelAllGather world tensor d
                  return (.ok gathered, plans)
                else
                  let padded := sizes.foldl max 0
                  let (plan, plans) := plans.lookup sizes padded device
                  do
                    let gathered ← tensors.mapM fun tensor => do
                      let gathered ←
                        dataParallelAllGather world (paddedShard d padded tensor) d
                      return gathered.indexSelect d plan
                    return (.ok gathered, plans)

/-- Sum the ragged pool across ranks, keeping this rank's shard. -/
def reduceScatterv (world rank : Nat) (device : Device) (plans : RaggedPlans Device)
    (tensor : Tensor A) (sizes : List Nat) (dim : Int) :
    Script WireCall (List (Tensor A)) (Except Raised (Tensor A) × RaggedPlans Device) :=
  if world ≤ 1 then .done (.ok tensor, plans)
  else if sizes.length ≠ world then
    .done (.error (.valueError
      s!"reduce_scatterv got {sizes.length} sizes for {world} ranks"), plans)
  else if tensor.dim = 0 then .done (.error (.zeroDivisionError "modulo by zero"), plans)
  else
    let d := axisOf dim tensor.dim
    if tensor.size d ≠ sizes.sum then
      .done (.error (.valueError (s!"reduce_scatterv pool with {tensor.size d} rows along dim " ++
        s!"{d} does not hold the declared {sizes.sum}")), plans)
    else if uniformSizes sizes then do
      let shard ← reduceScatter world rank tensor d
      return (shard, plans)
    else
      let moved := tensor.movedim d 0
      let padded := sizes.foldl max 0
      let (plan, plans) := plans.lookup sizes padded device
      let buf := (zeros (padded * world :: moved.shape.tail)).indexCopy plan moved
      do
        let shard ← distReduceScatterTensor rank buf
        return (.ok ((shard.narrow 0 0 (sizes.getD rank 0)).movedim 0 d), plans)

/-- Pool the rows of every rank into the step's padded rectangle. -/
def dpGather (world : Nat) (x : Tensor A) (metadata : DPMetadata) :
    Script WireCall (List (Tensor A)) (Except Raised (Tensor A)) :=
  if x.size 0 ≠ metadata.localTokens then
    .done (.error (.valueError (s!"DP gather expected {metadata.localTokens} rows (the count " ++
      s!"this rank declared for the step) but holds {x.size 0}")))
  else do
    let padded := metadata.paddedTokens
    let x := if x.size 0 ≠ padded then x.pad [0, 0, 0, padded - x.size 0] else x
    let pooled ← dataParallelAllGather world x 0
    return .ok pooled

/-- Take this rank's rows out of the rectangle's routed result. -/
def dpScatter (x : Tensor A) (metadata : DPMetadata) : Tensor A :=
  x.slice metadata.paddedOffset (metadata.paddedOffset + metadata.localTokens)

/-- Pool the hidden states and this rank's routing into the ragged pool. -/
def dpDispatch (world : Nat) (device : Device) (plans : RaggedPlans Device)
    (x topkWeights topkIds : Tensor A) (metadata : DPMetadata) :
    Script WireCall (List (Tensor A))
      (Except Raised (Tensor A × Tensor A × Tensor A) × RaggedPlans Device) :=
  if x.size 0 ≠ metadata.localTokens then
    .done (.error (.valueError (s!"DP dispatch expected {metadata.localTokens} rows (the count " ++
      s!"this rank declared for the step) but holds {x.size 0}")), plans)
  else do
    let (pools, plans) ← allGatherv world metadata.rank device plans [x, topkWeights, topkIds] 0
      (some metadata.numTokensAcrossDp)
    return (pools.map fun pools =>
      (pools.getD 0 default, pools.getD 1 default, pools.getD 2 default), plans)

/-- A rank's rows of the ragged pool. -/
def poolRows (x : Tensor A) (metadata : DPMetadata) : Tensor A :=
  x.slice metadata.localOffset (metadata.localOffset + metadata.localTokens)

/-! ### Round trips -/

/-- Pool into the rectangle, then take this rank's rows out again. -/
def gatherThenScatter (world : Nat) (x : Tensor A) (metadata : DPMetadata) :
    Script WireCall (List (Tensor A)) (Except Raised (Tensor A)) := do
  let pooled ← dpGather world x metadata
  return pooled.map fun pooled => dpScatter pooled metadata

/-- Pool raggedly, then take this rank's rows of every pool. -/
def dispatchThenSlice (world : Nat) (device : Device) (plans : RaggedPlans Device)
    (x topkWeights topkIds : Tensor A) (metadata : DPMetadata) :
    Script WireCall (List (Tensor A))
      (Except Raised (Tensor A × Tensor A × Tensor A) × RaggedPlans Device) := do
  let (pools, plans) ← dpDispatch world device plans x topkWeights topkIds metadata
  return (pools.map fun pools => (poolRows pools.1 metadata, poolRows pools.2.1 metadata,
    poolRows pools.2.2 metadata), plans)

end Source

/-! ### What the wire answers -/

section Wire

variable [AddCommMonoid A] {world d n : Nat} {base : List Nat} {parts : Fin world → Tensor A}
  {lines : Nat → List (List Nat → A)}

theorem distAllGather_lockstep {shape : List Nat} (h : ∀ rank, (parts rank).shape = shape) :
    Lockstep wire (fun rank => distAllGather (parts rank)) [.allGather shape]
      fun _ => (List.finRange world).map parts := by
  have hscripts : (fun rank => distAllGather (parts rank)) =
      fun rank => .enter (.allGather shape) [parts rank] .done := by
    funext rank
    rw [distAllGather, h rank]
  have hanswer : wire (.allGather shape) (fun rank => [parts rank]) =
      (List.finRange world).map parts := List.map_eq_flatMap.symm
  rw [hscripts, ← hanswer]
  exact .enter _ _ _ (.done _)

/-- A rank's share of the sum. -/
theorem distReduceScatterTensor_lockstep {rows : Nat} {lines : Fin world → List (List Nat → A)}
    (h : ∀ rank, (parts rank).HasRows base 0 (lines rank))
    (hrows : ∀ rank, (lines rank).length = world * rows) :
    ∃ shards : Fin world → Tensor A,
      Lockstep wire (fun rank => distReduceScatterTensor rank (parts rank))
        [.reduceScatterTensor (world * rows :: base)] shards ∧
      ∀ rank, (shards rank).HasRows base 0 ((List.range rows).map fun i =>
        ∑ peer, (lines peer).getD (rank * rows + i) 0) := by
  let total := Tensor.sum (world * rows :: base) parts
  have hscripts : (fun rank : Fin world => distReduceScatterTensor rank (parts rank)) =
      fun rank : Fin world => .enter (.reduceScatterTensor (world * rows :: base)) [parts rank]
        fun shares => .done (shares.getD rank default) := by
    funext rank
    rw [distReduceScatterTensor, (h rank).shape, hrows rank]
    rfl
  refine ⟨fun rank => total.narrow 0 (rank * rows) rows, ?_, fun rank => ?_⟩
  · rw [hscripts]
    refine .enter _ _ _ ?_
    have hshare : ∀ rank : Fin world, (wire (.reduceScatterTensor (world * rows :: base))
        fun rank => [parts rank]).getD rank default = total.narrow 0 (rank * rows) rows := by
      intro rank
      have hpos : 0 < world := Nat.zero_lt_of_lt rank.isLt
      have hlt : rank.val < ((List.range world).map fun rank =>
          total.narrow 0 (rank * rows) rows).length := by simp
      rw [wire, List.getD_cons_zero, Nat.mul_div_cancel_left rows hpos]
      exact (List.getD_eq_getElem _ _ hlt).trans (by simp)
    simp only [hshare]
    exact .done _
  · have htotal : total.HasRows base 0 ((List.range (world * rows)).map fun k =>
        ∑ peer, (lines peer).getD k 0) := HasRows.sum (Nat.zero_le _) h
    have hnarrow := htotal.narrow (rank * rows) rows
    refine List.map_congr_left (fun i hi => ?_) ▸ hnarrow
    have hi := List.mem_range.mp hi
    have hlt : rank * rows + i < world * rows :=
      calc rank * rows + i < rank * rows + rows := Nat.add_lt_add_left hi _
        _ = (rank + 1) * rows := (Nat.succ_mul _ _).symm
        _ ≤ world * rows := Nat.mul_le_mul_right rows rank.isLt
    rw [List.getD_eq_getElem _ _ (by simpa using hlt), List.getElem_map, List.getElem_range]

/-- In a group of one rank the concatenation is the rank's own tensor. -/
theorem cat_of_single (hone : world ≤ 1) (rank : Fin world)
    (h : (parts rank).HasRows base d (lines rank)) :
    cat d ((List.finRange world).map parts) = parts rank := by
  have hranks : List.finRange world = [rank] := by
    have hpos := rank.isLt
    obtain rfl : world = 1 := by omega
    rw [Subsingleton.elim rank 0]
    rfl
  have hcat : (cat d ([rank].map parts)).HasRows base d
      ([rank].flatMap fun rank : Fin world => lines rank) := by
    refine HasRows.cat (List.cons_ne_nil _ _) fun i hi => ?_
    rw [List.mem_singleton.mp hi]
    exact h
  rw [List.flatMap_singleton] at hcat
  rw [hranks, hcat.eq h]

/-- Tensors laid out alike along an axis are gathered into their concatenation. -/
theorem dataParallelAllGather_lockstep
    (h : ∀ rank : Fin world, (parts rank).HasRows base d (lines rank))
    (hn : ∀ rank < world, (lines rank).length = n) :
    ∃ calls, Lockstep wire (fun rank => dataParallelAllGather world (parts rank) d) calls
      fun _ => cat d ((List.finRange world).map parts) := by
  by_cases hone : world ≤ 1
  · refine ⟨[], ?_⟩
    have hscripts : (fun rank => dataParallelAllGather world (parts rank) d) =
        fun _ => .done (cat d ((List.finRange world).map parts)) := by
      funext rank
      rw [dataParallelAllGather, if_pos hone, cat_of_single hone rank (h rank)]
    rw [hscripts]
    exact .done _
  · refine ⟨[.allGather (base.insertIdx d n)], ?_⟩
    have hshape : ∀ rank, (parts rank).shape = base.insertIdx d n := fun rank => by
      rw [(h rank).shape, hn rank rank.isLt]
    simp only [dataParallelAllGather, if_neg hone]
    exact (distAllGather_lockstep hshape).bind (k := fun _ parts => .done (cat d parts)) (.done _)

end Wire

/-! ### Ragged gathering -/

section Gather

variable [AddCommMonoid A] {world d : Nat} {base lens : List Nat} {parts : Fin world → Tensor A}

/-- The ranks' tensors are shards along an axis, of the lengths the ranks declared. -/
structure Sharded (lens : List Nat) (d : Nat) (parts : Fin world → Tensor A) (base : List Nat) :
    Prop where
  axis : d ≤ base.length
  shape : ∀ rank, (parts rank).shape = base.insertIdx d (lens.getD rank 0)

namespace Sharded

theorem size_eq (h : Sharded lens d parts base) (rank : Fin world) :
    (parts rank).size d = lens.getD rank 0 := by
  rw [size, h.shape, getD_insertIdx_self h.axis]

theorem dim_eq (h : Sharded lens d parts base) (rank : Fin world) :
    (parts rank).dim = base.length + 1 := by
  rw [dim, h.shape, List.length_insertIdx_of_le_length h.axis]

/-- The rows of every rank's shard. -/
theorem exists_lines (h : Sharded lens d parts base) : ∃ lines : Nat → List (List Nat → A),
    (∀ rank : Fin world, (parts rank).HasRows base d (lines rank)) ∧
      ∀ rank < world, (lines rank).length = lens.getD rank 0 := by
  refine ⟨fun rank => if hlt : rank < world then
    (List.range (lens.getD rank 0)).map ((parts ⟨rank, hlt⟩).row d) else [], fun rank => ?_,
    fun rank hlt => ?_⟩
  · simp only [dif_pos rank.isLt]
    exact hasRows_rows h.axis (h.shape rank)
  · simp only [dif_pos hlt, List.length_map, List.length_range]

end Sharded

theorem checkShards_ok {declared : Nat} {tensors : List (Tensor A)}
    (h : ∀ tensor ∈ tensors, tensor.shape[d]? = some declared) :
    checkShards d declared tensors = .ok () := by
  induction tensors with
  | nil => rfl
  | cons tensor tensors ih =>
    simp only [checkShards, h tensor (List.mem_cons_self ..), ne_eq, not_true, if_false]
    exact ih fun other hother => h other (.tail tensor hother)

/-- A padded shard has the shard's rows, and zeros up to the largest. -/
theorem paddedShard_hasRows {tensor : Tensor A} {lines : List (List Nat → A)} {padded : Nat}
    (h : tensor.HasRows base d lines) :
    (paddedShard d padded tensor).HasRows base d (Rectangle.pad 0 padded lines) := by
  rw [paddedShard, Rectangle.pad, h.size_eq]
  by_cases hpads : ((padsAfter tensor.dim d (padded - lines.length)).any
      fun count => decide (count ≠ 0)) = true
  · rw [if_pos hpads]
    exact h.pad _
  · have hdim : tensor.dim = base.length + 1 := by
      rw [dim, h.shape, List.length_insertIdx_of_le_length h.axis]
    have hlt : 2 * (tensor.dim - 1 - d) + 1 <
        (padsAfter tensor.dim d (padded - lines.length)).length := by
      rw [padsAfter, List.length_set, List.length_replicate]
      omega
    have hmem : padded - lines.length ∈ padsAfter tensor.dim d (padded - lines.length) := by
      refine List.mem_iff_getElem.mpr ⟨_, hlt, ?_⟩
      simp only [padsAfter, List.getElem_set_self]
    have hzero : padded - lines.length = 0 := by
      by_contra hne
      exact hpads (List.any_eq_true.mpr ⟨_, hmem, decide_eq_true hne⟩)
    rw [if_neg hpads, hzero, List.replicate_zero, List.append_nil]
    exact h

/-- The pool holds the ranks' rows one rank after another. -/
theorem hasRows_pool {lines : Nat → List (List Nat → A)} (hworld : 0 < world)
    (h : ∀ rank : Fin world, (parts rank).HasRows base d (lines rank)) :
    (cat d ((List.finRange world).map parts)).HasRows base d
      ((List.range world).flatMap lines) := by
  have hne : List.finRange world ≠ [] := fun hnil => by
    have hlen := congrArg List.length hnil
    rw [List.length_finRange] at hlen
    exact Nat.ne_of_gt hworld hlen
  have hpool : (cat d ((List.finRange world).map parts)).HasRows base d
      ((List.finRange world).flatMap fun rank : Fin world => lines rank) :=
    HasRows.cat hne fun rank _ => h rank
  rwa [← List.flatMap_map (fun rank : Fin world => rank.val) lines,
    List.map_coe_finRange_eq_range] at hpool

/-- Equal shards are gathered as they are. -/
theorem gather_uniform (hworld : 0 < world) (hlens : lens.length = world)
    (huniform : uniformSizes lens = true) (h : Sharded lens d parts base) :
    ∃ calls, Lockstep wire (fun rank => dataParallelAllGather world (parts rank) d) calls
      fun _ => cat d ((List.finRange world).map parts) := by
  obtain ⟨lines, hlines, hlen⟩ := h.exists_lines
  have hwidth : ∀ rank < world, (lines rank).length = lens.getD 0 0 := fun rank hrank =>
    (hlen rank hrank).trans
      (uniformSizes_getD huniform (hlens.symm ▸ hrank) (hlens.symm ▸ hworld))
  exact dataParallelAllGather_lockstep hlines hwidth

/-- Gathering the padded shards and reading them through the plan gives the shards one after
another. -/
theorem gather_padded (hworld : 0 < world) (hlens : lens.length = world)
    (h : Sharded lens d parts base) : ∃ calls, Lockstep wire (fun rank => do
        let gathered ← dataParallelAllGather world
          (paddedShard d (lens.foldl max 0) (parts rank)) d
        return gathered.indexSelect d (raggedPlan lens (lens.foldl max 0))) calls
      fun _ => cat d ((List.finRange world).map parts) := by
  obtain ⟨lines, hlines, hlen⟩ := h.exists_lines
  have hle : ∀ rank < world, (lines rank).length ≤ lens.foldl max 0 := fun rank hrank => by
    rw [hlen rank hrank]
    exact getD_le_padded lens rank
  let padded : Nat → List (List Nat → A) := fun rank =>
    Rectangle.pad 0 (lens.foldl max 0) (lines rank)
  have hpadded : ∀ rank : Fin world,
      (paddedShard d (lens.foldl max 0) (parts rank)).HasRows base d (padded rank) :=
    fun rank => paddedShard_hasRows (hlines rank)
  obtain ⟨calls, hgather⟩ := dataParallelAllGather_lockstep hpadded fun rank hrank =>
    Rectangle.pad_length (hle rank hrank)
  have hpooled := (hasRows_pool hworld hpadded).indexSelect
    (raggedPlan lens (lens.foldl max 0))
  rw [raggedPlan_eq hlens hlen, Rectangle.compact hle] at hpooled
  refine ⟨calls ++ [], hgather.bind (k := fun _ gathered =>
    .done (gathered.indexSelect d (raggedPlan lens (lens.foldl max 0)))) ?_⟩
  rw [raggedPlan_eq hlens hlen, hpooled.eq (hasRows_pool hworld hlines)]
  exact .done _

/-- One tensor after another, each gathered into its concatenation. -/
theorem gather_all (plans' : Fin world → RaggedPlans Device)
    (f : Tensor A → Script WireCall (List (Tensor A)) (Tensor A))
    {tensors : List (Fin world → Tensor A)}
    (h : ∀ shards ∈ tensors, ∃ calls, Lockstep wire (fun rank => f (shards rank)) calls
      fun _ => cat d ((List.finRange world).map shards)) :
    ∃ calls, Lockstep wire (fun rank => do
        let gathered ← (tensors.map fun shards => shards rank).mapM f
        return (.ok gathered, plans' rank)) calls
      fun rank => ((.ok (tensors.map fun shards => cat d ((List.finRange world).map shards)) :
        Except Raised (List (Tensor A))), plans' rank) := by
  choose! calls hcalls using h
  have hmap : Lockstep wire (fun rank => (tensors.map fun shards => shards rank).mapM f)
      (tensors.flatMap calls)
      fun _ => tensors.map fun shards => cat d ((List.finRange world).map shards) :=
    Lockstep.mapM tensors (fun rank shards => shards rank) hcalls
  exact ⟨_, hmap.bind (k := fun rank gathered => .done (Except.ok gathered, plans' rank))
    (.done _)⟩

/-- The sizes a caller passes, or leaves to the shards when they are equal. -/
def Declares (sizes : Option (List Nat)) (lens : List Nat) : Prop :=
  sizes = some lens ∨ sizes = none ∧ ∀ rank < lens.length, lens.getD rank 0 = lens.getD 0 0

namespace Declares

variable {sizes : Option (List Nat)}

/-- Either way the sizes used are the ones declared. -/
theorem getD_eq (h : Declares sizes lens) (hlens : lens.length = world) (rank : Fin world) :
    sizes.getD (List.replicate world (lens.getD rank 0)) = lens := by
  rcases h with rfl | ⟨rfl, heq⟩
  · rfl
  · rw [Option.getD_none]
    refine List.ext_getElem (by simp [hlens]) fun i hi hi' => ?_
    have hrank := rank.isLt
    rw [List.getElem_replicate, heq rank (by omega), ← heq i hi', List.getD_eq_getElem _ _ hi']

end Declares

/-- What a rank does once its shards have passed the checks. -/
theorem allGatherv_eq_gather [DecidableEq Device] {rank : Fin world} {first : Tensor A}
    {more : List (Tensor A)} {dim : Int} {sizes : Option (List Nat)} (hone : ¬ world ≤ 1)
    (hlens : lens.length = world) (hsizes : Declares sizes lens)
    (hdim : first.dim ≠ 0) (haxis : axisOf dim first.dim = d)
    (hall : ∀ tensor ∈ first :: more, tensor.shape[d]? = some (lens.getD rank 0))
    (device : Device) (plans : RaggedPlans Device) :
    allGatherv world rank device plans (first :: more) dim sizes =
      if uniformSizes lens then do
        let gathered ← (first :: more).mapM fun tensor => dataParallelAllGather world tensor d
        return (.ok gathered, plans)
      else do
        let gathered ← (first :: more).mapM fun tensor => do
          let gathered ← dataParallelAllGather world (paddedShard d (lens.foldl max 0) tensor) d
          return gathered.indexSelect d (raggedPlan lens (lens.foldl max 0))
        return (.ok gathered, (plans.lookup lens (lens.foldl max 0) device).2) := by
  have hsize : first.size d = lens.getD rank 0 := by
    rw [size, List.getD_eq_getElem?_getD, hall first (List.mem_cons_self ..), Option.getD_some]
  have hlookup := plans.lookup_fst lens (lens.foldl max 0) device
  simp only [allGatherv, if_neg hone, if_neg hdim, haxis, hsize, hsizes.getD_eq hlens rank,
    if_neg (fun h => h hlens : ¬ lens.length ≠ world), checkShards_ok hall, hlookup]

/-- **`all_gatherv` concatenates.** On every rank each of the results is the concatenation of
the ranks' shards in rank order, whichever plans the processes had cached. -/
theorem allGatherv_lockstep [DecidableEq Device] (hlens : lens.length = world)
    (device : Fin world → Device) (plans : Fin world → RaggedPlans Device)
    {first : Fin world → Tensor A} {more : List (Fin world → Tensor A)} {dim : Int}
    {sizes : Option (List Nat)} (hsizes : Declares sizes lens)
    (hfirst : Sharded lens (axisOf dim (base.length + 1)) first base)
    (hmore : ∀ shards ∈ more, ∃ base', Sharded lens (axisOf dim (base.length + 1)) shards base') :
    ∃ calls, ∃ plans' : Fin world → RaggedPlans Device,
      Lockstep wire (fun rank => allGatherv world rank (device rank) (plans rank)
        ((first :: more).map fun shards => shards rank) dim sizes) calls
      fun rank => (.ok ((first :: more).map fun shards =>
        cat (axisOf dim (base.length + 1)) ((List.finRange world).map shards)), plans' rank) := by
  have hall : ∀ shards ∈ first :: more,
      ∃ base', Sharded lens (axisOf dim (base.length + 1)) shards base' := by
    intro shards hmem
    rcases List.mem_cons.mp hmem with rfl | hmem
    · exact ⟨base, hfirst⟩
    · exact hmore shards hmem
  generalize haxis : axisOf dim (base.length + 1) = d at *
  by_cases hone : world ≤ 1
  · refine ⟨[], plans, ?_⟩
    have hscripts : (fun rank : Fin world => allGatherv world rank (device rank) (plans rank)
        ((first :: more).map fun shards => shards rank) dim sizes) = fun rank =>
          .done (.ok ((first :: more).map fun shards =>
            cat d ((List.finRange world).map shards)), plans rank) := by
      funext rank
      have hown : ((first :: more).map fun shards => cat d ((List.finRange world).map shards)) =
          (first :: more).map fun shards => shards rank := by
        refine List.map_congr_left fun shards hmem => ?_
        obtain ⟨base', hshards⟩ := hall shards hmem
        obtain ⟨lines, hlines, -⟩ := hshards.exists_lines
        exact cat_of_single hone rank (hlines rank)
      simp only [allGatherv, if_pos hone, hown]
    rw [hscripts]
    exact .done _
  have hshapes : ∀ rank : Fin world, ∀ tensor ∈ (first :: more).map (fun shards => shards rank),
      tensor.shape[d]? = some (lens.getD rank 0) := by
    intro rank tensor hmem
    obtain ⟨shards, hshards, rfl⟩ := List.mem_map.mp hmem
    obtain ⟨base', hshards⟩ := hall shards hshards
    rw [hshards.shape, List.getElem?_insertIdx_self, if_pos hshards.axis]
  have hdim : ∀ rank, (first rank).dim ≠ 0 := fun rank => by
    rw [hfirst.dim_eq]
    exact Nat.succ_ne_zero _
  have haxis' : ∀ rank, axisOf dim (first rank).dim = d := fun rank => by rw [hfirst.dim_eq, haxis]
  have hscripts := fun rank => allGatherv_eq_gather hone hlens hsizes (hdim rank) (haxis' rank)
    (hshapes rank) (device rank) (plans rank)
  simp only [List.map_cons, hscripts]
  have hworld : 0 < world := by omega
  by_cases huniform : uniformSizes lens = true
  · obtain ⟨calls, hcalls⟩ := gather_all plans
      (fun tensor => dataParallelAllGather world tensor d) fun shards hmem =>
      (hall shards hmem).elim fun _ hshards => gather_uniform hworld hlens huniform hshards
    refine ⟨calls, plans, ?_⟩
    simp only [if_pos huniform]
    exact hcalls
  · let plans' : Fin world → RaggedPlans Device := fun rank =>
      ((plans rank).lookup lens (lens.foldl max 0) (device rank)).2
    obtain ⟨calls, hcalls⟩ := gather_all plans'
      (fun tensor => do
        let gathered ← dataParallelAllGather world (paddedShard d (lens.foldl max 0) tensor) d
        return gathered.indexSelect d (raggedPlan lens (lens.foldl max 0)))
      fun shards hmem => (hall shards hmem).elim fun _ hshards =>
        gather_padded hworld hlens hshards
    refine ⟨calls, plans', ?_⟩
    simp only [if_neg huniform]
    exact hcalls

end Gather

/-! ### Ragged scattering -/

section Scatter

variable [AddCommMonoid A] {world d : Nat} {base lens : List Nat} {pools : Fin world → Tensor A}

/-- The chunk of a pool that belongs to a rank: its rows, at the rank's offset. -/
def chunk (lens : List Nat) (d : Nat) (pool : Tensor A) (rank : Nat) : Tensor A :=
  pool.narrow d (lens.take rank).sum (lens.getD rank 0)

/-- The sum over the ranks of their chunks for one of them. -/
def chunkSum (lens : List Nat) (d : Nat) (base : List Nat) (pools : Fin world → Tensor A)
    (rank : Nat) : Tensor A :=
  Tensor.sum (base.insertIdx d (lens.getD rank 0)) fun peer => chunk lens d (pools peer) rank

variable {lines : Fin world → List (List Nat → A)}

theorem chunkSum_hasRows (hd : d ≤ base.length)
    (h : ∀ peer, (pools peer).HasRows base d (lines peer)) (rank : Nat) :
    (chunkSum lens d base pools rank).HasRows base d ((List.range (lens.getD rank 0)).map
      fun i => ∑ peer, (Rectangle.cut 0 lens (lines peer) rank).getD i 0) :=
  HasRows.sum hd fun peer => (h peer).narrow _ _

/-- A pool is the ranks' chunks one after another. -/
theorem flatMap_chunks (hlens : lens.length = world) {pool : List (List Nat → A)}
    (hsum : pool.length = lens.sum) :
    (List.range world).flatMap (Rectangle.cut 0 lens pool) = pool := by
  rw [← hlens]
  exact Rectangle.flatMap_cut 0 lens pool hsum

/-- In a group of one rank the sum of the chunks is the rank's own pool. -/
theorem chunkSum_of_single (hone : world ≤ 1) (hlens : lens.length = world) (hd : d ≤ base.length)
    (rank : Fin world) {pool : List (List Nat → A)} (h : (pools rank).HasRows base d pool)
    (hsum : pool.length = lens.sum) : chunkSum lens d base pools rank = pools rank := by
  have hpos := rank.isLt
  obtain rfl : world = 1 := by omega
  obtain rfl : rank = 0 := Subsingleton.elim _ _
  have hcut : Rectangle.cut 0 lens pool 0 = pool := by
    have hchunks := flatMap_chunks hlens hsum
    rwa [List.range_one, List.flatMap_singleton] at hchunks
  have hrows : ((List.range (lens.getD 0 0)).map fun i =>
      ∑ peer : Fin 1, (Rectangle.cut 0 lens pool 0).getD i 0) = pool := by
    simp only [Finset.univ_unique, Finset.sum_const, Finset.card_singleton, one_nsmul, hcut]
    have hlen : lens.getD 0 0 = pool.length := by
      rw [← hcut, Rectangle.cut_length]
    rw [hlen]
    exact Rectangle.map_range_getD pool 0
  have hall : ∀ peer : Fin 1, (pools peer).HasRows base d pool := fun peer =>
    Subsingleton.elim (0 : Fin 1) peer ▸ h
  have hchunk : (chunkSum lens d base pools 0).HasRows base d _ := chunkSum_hasRows hd hall 0
  rw [hrows] at hchunk
  exact hchunk.eq h

/-- A row of the rectangle that the pool is spread over. -/
theorem spread_row (hlens : lens.length = world) {pool : List (List Nat → A)}
    (hsum : pool.length = lens.sum) {rank i : Nat} (hrank : rank < world)
    (hi : i < lens.getD rank 0) :
    Segments.scatter pool.length (fun i => (raggedPlan lens (lens.foldl max 0)).getD i 0)
        (fun i => pool.getD i 0) (fun _ => 0) (rank * lens.foldl max 0 + i) =
      (Rectangle.cut 0 lens pool rank).getD i 0 := by
  have hlen : ∀ r < world, (Rectangle.cut 0 lens pool r).length = lens.getD r 0 := fun r _ =>
    Rectangle.cut_length lens pool r
  have hspread : Segments.scatter _ _ (fun i => List.getD _ i 0) (fun _ => 0)
      (rank * lens.foldl max 0 + i) = (Rectangle.cut 0 lens pool rank).getD i 0 :=
    Rectangle.spread (fun r hr => (hlen r hr).le.trans (getD_le_padded lens r)) hrank
      (hi.trans_eq (hlen rank hrank).symm)
  rwa [flatMap_chunks hlens hsum, ← raggedPlan_eq hlens hlen] at hspread

/-- Equal chunks are the shares of the sum. -/
theorem scatter_uniform (hworld : 1 < world) (hlens : lens.length = world)
    (huniform : uniformSizes lens = true) (hd : d ≤ base.length)
    (h : ∀ peer, (pools peer).HasRows base d (lines peer))
    (hsum : ∀ peer, (lines peer).length = lens.sum) :
    ∃ calls, Lockstep wire (fun rank : Fin world => reduceScatter world rank (pools rank) d) calls
      fun rank => .ok (chunkSum lens d base pools rank) := by
  let rows := lens.getD 0 0
  have hwidth : ∀ rank < world, lens.getD rank 0 = rows := fun rank hrank =>
    uniformSizes_getD huniform (hlens.symm ▸ hrank) (by omega)
  have htotal : ∀ peer, (lines peer).length = world * rows := by
    intro peer
    have hconst : lens = List.replicate world rows := by
      refine List.eq_replicate_iff.mpr ⟨hlens, fun size hmem => ?_⟩
      obtain ⟨rank, hrank, rfl⟩ := List.getElem_of_mem hmem
      rw [← hwidth rank (hlens ▸ hrank), List.getD_eq_getElem _ _ hrank]
    rw [hsum peer, hconst, List.sum_replicate_nat]
  obtain ⟨shards, hlock, hshards⟩ := distReduceScatterTensor_lockstep
    (fun peer => (h peer).movedim_zero) htotal
  have hshard : ∀ rank, (shards rank).movedim 0 d = chunkSum lens d base pools rank := by
    intro rank
    have hrows : ((List.range rows).map fun i => ∑ peer, (lines peer).getD (rank * rows + i) 0) =
        (List.range (lens.getD rank 0)).map
          fun i => ∑ peer, (Rectangle.cut 0 lens (lines peer) rank).getD i 0 := by
      rw [hwidth rank rank.isLt]
      refine List.map_congr_left fun i hi => Finset.sum_congr rfl fun peer _ => ?_
      have hcut : ∀ r < world,
          (Rectangle.cut (0 : List Nat → A) lens (lines peer) r).length = rows := fun r hr =>
        (Rectangle.cut_length lens (lines peer) r).trans (hwidth r hr)
      have hrow := Rectangle.getD_row (z := (0 : List Nat → A)) hcut rank.isLt
        (List.mem_range.mp hi)
      rwa [flatMap_chunks hlens (hsum peer)] at hrow
    have hmoved := (hshards rank).movedim_to hd
    rw [hrows] at hmoved
    exact hmoved.eq (chunkSum_hasRows hd h rank)
  refine ⟨[.reduceScatterTensor (world * rows :: base)] ++ [], ?_⟩
  have hdvd : ∀ rank, ¬ (pools rank).size d % world ≠ 0 := by
    intro rank hne
    rw [(h rank).size_eq, htotal rank, Nat.mul_mod_right] at hne
    exact hne rfl
  simp only [reduceScatter, if_neg (Nat.not_le_of_lt hworld), if_neg (hdvd _), ← hshard]
  exact hlock.bind (k := fun _ shard => .done (Except.ok (shard.movedim 0 d))) (.done _)

/-- Spreading the pools over the padded rectangle gives every rank the sum of its chunks. -/
theorem scatter_padded (hlens : lens.length = world) (hd : d ≤ base.length)
    (h : ∀ peer, (pools peer).HasRows base d (lines peer))
    (hsum : ∀ peer, (lines peer).length = lens.sum) :
    ∃ calls, Lockstep wire (fun rank : Fin world => do
        let shard ← distReduceScatterTensor rank ((zeros (lens.foldl max 0 * world ::
          ((pools rank).movedim d 0).shape.tail)).indexCopy
            (raggedPlan lens (lens.foldl max 0)) ((pools rank).movedim d 0))
        return (shard.narrow 0 0 (lens.getD rank 0)).movedim 0 d) calls
      fun rank => chunkSum lens d base pools rank := by
  let padded := lens.foldl max 0
  let bufs : Fin world → Tensor A := fun peer =>
    (zeros (padded * world :: ((pools peer).movedim d 0).shape.tail)).indexCopy
      (raggedPlan lens padded) ((pools peer).movedim d 0)
  have hbufs : ∀ peer, (bufs peer).HasRows base 0 ((List.range (world * padded)).map
      (Segments.scatter (lines peer).length (fun i => (raggedPlan lens padded).getD i 0)
        (fun i => (lines peer).getD i 0) fun _ => 0)) := by
    intro peer
    have hmoved := (h peer).movedim_zero
    have htail : ((pools peer).movedim d 0).shape.tail = base := by
      rw [hmoved.shape, List.insertIdx_zero, List.tail_cons]
    have hzeros : (zeros (padded * world :: base) : Tensor A).HasRows base 0
        (List.replicate (padded * world) 0) := HasRows.zeros (Nat.zero_le _)
    have hbuf := hzeros.indexCopy hmoved (raggedPlan lens padded)
    rw [List.length_replicate, Nat.mul_comm padded world] at hbuf
    simp only [bufs, htail, List.getD_eq_getElem?_getD, List.getElem?_getD_replicate_default_eq,
      Nat.mul_comm padded world] at hbuf ⊢
    exact hbuf
  obtain ⟨shards, hlock, hshards⟩ := distReduceScatterTensor_lockstep hbufs fun peer =>
    show _ = world * padded by simp
  have hshard : ∀ rank, ((shards rank).narrow 0 0 (lens.getD rank 0)).movedim 0 d =
      chunkSum lens d base pools rank := by
    intro rank
    have hmoved := ((hshards rank).narrow 0 (lens.getD rank 0)).movedim_to hd
    refine hmoved.eq ((List.map_congr_left fun i hi => ?_) ▸ chunkSum_hasRows hd h rank)
    have hi := List.mem_range.mp hi
    have hle : i < padded := Nat.lt_of_lt_of_le hi (getD_le_padded lens rank)
    have hlt : rank * padded + i < world * padded :=
      calc rank * padded + i < rank * padded + padded := Nat.add_lt_add_left hle _
        _ = (rank + 1) * padded := (Nat.succ_mul _ _).symm
        _ ≤ world * padded := Nat.mul_le_mul_right padded rank.isLt
    symm
    rw [Nat.zero_add, List.getD_eq_getElem _ _ (by simpa using hle), List.getElem_map,
      List.getElem_range]
    refine Finset.sum_congr rfl fun peer _ => ?_
    rw [List.getD_eq_getElem _ _ (by simpa using hlt), List.getElem_map, List.getElem_range]
    exact spread_row hlens (hsum peer) rank.isLt hi
  refine ⟨[.reduceScatterTensor (world * padded :: base)] ++ [], ?_⟩
  simp only [← hshard]
  exact hlock.bind (k := fun (rank : Fin world) shard =>
    .done ((shard.narrow 0 0 (lens.getD rank 0)).movedim 0 d)) (.done _)

/-- **`reduce_scatterv` sums chunks.** Every rank is left with the sum over the ranks of their
chunks for it. -/
theorem reduceScatterv_lockstep [DecidableEq Device] (hlens : lens.length = world)
    (device : Fin world → Device) (plans : Fin world → RaggedPlans Device) {dim : Int}
    (haxis : axisOf dim (base.length + 1) = d) (hd : d ≤ base.length)
    (hshape : ∀ peer, (pools peer).shape = base.insertIdx d lens.sum) :
    ∃ calls, ∃ plans' : Fin world → RaggedPlans Device,
      Lockstep wire (fun rank : Fin world => reduceScatterv world rank (device rank) (plans rank)
        (pools rank) lens dim) calls
      fun rank => (.ok (chunkSum lens d base pools rank), plans' rank) := by
  have hpool : ∀ peer, (pools peer).HasRows base d
      ((List.range lens.sum).map ((pools peer).row d)) := fun peer => hasRows_rows hd (hshape peer)
  have hsum : ∀ peer, ((List.range lens.sum).map ((pools peer).row d)).length = lens.sum :=
    fun peer => by simp
  by_cases hone : world ≤ 1
  · refine ⟨[], plans, ?_⟩
    have hscripts : (fun rank : Fin world => reduceScatterv world rank (device rank) (plans rank)
        (pools rank) lens dim) =
          fun rank => .done (.ok (chunkSum lens d base pools rank), plans rank) := by
      funext rank
      rw [reduceScatterv, if_pos hone, chunkSum_of_single hone hlens hd rank (hpool rank)
        (hsum rank)]
    rw [hscripts]
    exact .done _
  have hdim : ∀ rank, (pools rank).dim = base.length + 1 := fun rank => by
    rw [Tensor.dim, hshape, List.length_insertIdx_of_le_length hd]
  have hsize : ∀ rank, (pools rank).size d = lens.sum := fun rank => by
    rw [size, hshape, getD_insertIdx_self hd]
  by_cases huniform : uniformSizes lens = true
  · obtain ⟨calls, hcalls⟩ := scatter_uniform (by omega) hlens huniform hd hpool hsum
    refine ⟨calls ++ [], plans, ?_⟩
    simp only [reduceScatterv, if_neg hone, hdim, Nat.succ_ne_zero, if_false, haxis, hsize,
      ne_eq, hlens, not_true, if_pos huniform]
    exact hcalls.bind (k := fun rank shard => .done (shard, plans rank)) (.done _)
  · obtain ⟨calls, hcalls⟩ := scatter_padded hlens hd hpool hsum
    let plans' : Fin world → RaggedPlans Device := fun rank =>
      ((plans rank).lookup lens (lens.foldl max 0) (device rank)).2
    refine ⟨calls ++ [], plans', ?_⟩
    simp only [reduceScatterv, if_neg hone, hdim, Nat.succ_ne_zero, if_false, haxis, hsize,
      ne_eq, hlens, not_true, if_neg huniform, RaggedPlans.lookup_fst]
    exact hcalls.bind (k := fun rank shard => .done (Except.ok shard, plans' rank)) (.done _)

end Scatter

/-! ### Pooling -/

section Pooling

variable [AddCommMonoid A] {world hidden : Nat} {lens : List Nat} {x : Fin world → Tensor A}

/-- The geometry of the step, as a rank sees it. -/
def metadataOf (lens : List Nat) (rank : Nat) : DPMetadata where
  numTokensAcrossDp := lens
  rank := rank

/-- The rows of a rank in the pool of all the ranks' rows. -/
theorem slice_pool {pool : Tensor A} {base : List Nat} {f : Nat → List (List Nat → A)}
    (h : pool.HasRows base 0 ((List.range world).flatMap f)) {rank offset length : Nat}
    (hrank : rank < world) (hoffset : ((List.range rank).flatMap f).length = offset)
    (hlength : length ≤ (f rank).length) :
    (pool.slice offset (offset + length)).HasRows base 0 ((f rank).take length) := by
  rw [← Rectangle.slice_flatMap hrank hoffset hlength]
  exact h.slice _ _

/-- Pooling into the rectangle and taking a rank's rows out again gives them back. -/
theorem gatherThenScatter_lockstep (hx : ∀ rank, (x rank).shape = [lens.getD rank 0, hidden]) :
    ∃ calls, Lockstep wire (fun rank : Fin world =>
      gatherThenScatter world (x rank) (metadataOf lens rank)) calls fun rank => .ok (x rank) := by
  have hsharded : Sharded lens 0 x [hidden] := ⟨Nat.zero_le _, hx⟩
  obtain ⟨lines, hlines, hlen⟩ := hsharded.exists_lines
  let padded := lens.foldl max 0
  let rect : Nat → List (List Nat → A) := fun rank => Rectangle.pad 0 padded (lines rank)
  have hle : ∀ rank < world, (lines rank).length ≤ padded := fun rank hrank => by
    rw [hlen rank hrank]
    exact getD_le_padded lens rank
  have hwidth : ∀ rank < world, (rect rank).length = padded := fun rank hrank =>
    Rectangle.pad_length (hle rank hrank)
  let contribution : Fin world → Tensor A := fun rank =>
    if (x rank).size 0 ≠ padded then (x rank).pad [0, 0, 0, padded - (x rank).size 0] else x rank
  have hcontribution : ∀ rank : Fin world, (contribution rank).HasRows [hidden] 0 (rect rank) := by
    intro rank
    have hdim : (x rank).dim = 2 := hsharded.dim_eq rank
    have hpad := (hlines rank).pad (padded - (x rank).size 0)
    rw [hdim, (hlines rank).size_eq] at hpad
    simp only [contribution, (hlines rank).size_eq]
    split
    · exact hpad
    · next heq =>
        have heq : (lines rank).length = padded := not_not.mp heq
        simp only [rect, Rectangle.pad, heq, Nat.sub_self, List.replicate_zero, List.append_nil]
        exact hlines rank
  obtain ⟨calls, hgather⟩ := dataParallelAllGather_lockstep hcontribution hwidth
  have hback : ∀ rank : Fin world, dpScatter (cat 0 ((List.finRange world).map contribution))
      (metadataOf lens rank) = x rank := by
    intro rank
    have hoffset : ((List.range rank).flatMap rect).length = rank * padded := by
      rw [List.length_flatMap, List.map_congr_left fun r hr =>
        hwidth r ((List.mem_range.mp hr).trans rank.isLt), List.map_const', List.length_range,
        List.sum_replicate_nat]
    have hworld : 0 < world := Nat.zero_lt_of_lt rank.isLt
    have hslice := slice_pool (hasRows_pool hworld hcontribution) rank.isLt hoffset
      (show lens.getD rank 0 ≤ (rect rank).length by
        rw [hwidth rank rank.isLt]
        exact getD_le_padded lens rank)
    have hown : (rect rank).take (lens.getD rank 0) = lines rank := by
      rw [← hlen rank rank.isLt]
      exact List.take_left
    rw [hown] at hslice
    exact hslice.eq (hlines rank)
  have hscripts : (fun rank : Fin world => dpGather world (x rank) (metadataOf lens rank)) =
      fun rank => do
        let pooled ← dataParallelAllGather world (contribution rank) 0
        return .ok pooled := by
    funext rank
    have hsize : (x rank).size 0 = (metadataOf lens rank).localTokens := hsharded.size_eq rank
    rw [dpGather, if_neg fun h => h hsize]
    rfl
  have hresults : (fun rank => (.ok (x rank) : Except Raised (Tensor A))) = fun rank =>
      .ok (dpScatter (cat 0 ((List.finRange world).map contribution)) (metadataOf lens rank)) := by
    funext rank
    rw [hback rank]
  refine ⟨(calls ++ []) ++ [], ?_⟩
  rw [hresults]
  have hpooled : Lockstep wire (fun rank : Fin world => dpGather world (x rank)
      (metadataOf lens rank)) (calls ++ [])
      fun _ => .ok (cat 0 ((List.finRange world).map contribution)) := by
    rw [hscripts]
    exact hgather.bind (k := fun _ pooled => .done (Except.ok pooled)) (.done _)
  exact hpooled.bind (k := fun rank pooled =>
    .done (pooled.map fun pooled => dpScatter pooled (metadataOf lens rank))) (.done _)

/-- A rank's rows of a pool of ragged shards are its shard. -/
theorem poolRows_cat (hlens : lens.length = world) {base : List Nat} {parts : Fin world → Tensor A}
    (h : Sharded lens 0 parts base) (rank : Fin world) :
    poolRows (cat 0 ((List.finRange world).map parts)) (metadataOf lens rank) = parts rank := by
  obtain ⟨lines, hlines, hlen⟩ := h.exists_lines
  have hworld : 0 < world := Nat.zero_lt_of_lt rank.isLt
  have hoffset : ((List.range rank).flatMap lines).length = (lens.take rank).sum := by
    have hlens' : lens.take rank = (List.range rank).map fun r => lens.getD r 0 := by
      refine List.ext_getElem ?_ fun i hi hi' => ?_
      · rw [List.length_take, List.length_map, List.length_range, hlens]
        exact Nat.min_eq_left rank.isLt.le
      · have hlt : i < lens.length := by
          rw [List.length_take] at hi
          omega
        rw [List.getElem_take, List.getElem_map, List.getElem_range, List.getD_eq_getElem _ _ hlt]
    rw [List.length_flatMap, hlens']
    exact congrArg List.sum (List.map_congr_left fun r hr =>
      hlen r ((List.mem_range.mp hr).trans rank.isLt))
  have hslice := slice_pool (hasRows_pool hworld hlines) rank.isLt hoffset
    (hlen rank rank.isLt).ge
  rw [← hlen rank rank.isLt, List.take_length, hlen rank rank.isLt] at hslice
  exact hslice.eq (hlines rank)

/-- The ragged pools hold every rank's rows at the rank's offset. -/
theorem dispatchThenSlice_lockstep [DecidableEq Device] (hlens : lens.length = world)
    (device : Fin world → Device) (plans : Fin world → RaggedPlans Device)
    {topkWeights topkIds : Fin world → Tensor A} {base baseW baseI : List Nat}
    (hx : Sharded lens 0 x base) (hweights : Sharded lens 0 topkWeights baseW)
    (hids : Sharded lens 0 topkIds baseI) :
    ∃ calls, ∃ plans' : Fin world → RaggedPlans Device, Lockstep wire (fun rank : Fin world =>
        dispatchThenSlice world (device rank) (plans rank) (x rank) (topkWeights rank)
          (topkIds rank) (metadataOf lens rank)) calls
      fun rank => (.ok (x rank, topkWeights rank, topkIds rank), plans' rank) := by
  let pool : (Fin world → Tensor A) → Tensor A := fun parts =>
    cat 0 ((List.finRange world).map parts)
  have haxis : axisOf 0 (base.length + 1) = 0 := rfl
  have hmore : ∀ shards ∈ [topkWeights, topkIds],
      ∃ base', Sharded lens (axisOf 0 (base.length + 1)) shards base' := by
    intro shards hmem
    rw [haxis]
    rcases List.mem_cons.mp hmem with rfl | hmem
    · exact ⟨baseW, hweights⟩
    · rw [List.mem_singleton.mp hmem]
      exact ⟨baseI, hids⟩
  obtain ⟨calls, plans', hgather⟩ := allGatherv_lockstep hlens device plans
    (.inl rfl : Declares (some lens) lens) (haxis.symm ▸ hx) hmore
  have hdispatch : Lockstep wire (fun rank : Fin world => dpDispatch world (device rank)
      (plans rank) (x rank) (topkWeights rank) (topkIds rank) (metadataOf lens rank))
      (calls ++ []) fun rank => (.ok (pool x, pool topkWeights, pool topkIds), plans' rank) := by
    have hsize : ∀ rank, (x rank).size 0 = (metadataOf lens rank).localTokens := hx.size_eq
    simp only [dpDispatch, hsize, ne_eq, not_true, if_false]
    exact hgather.bind (k := fun _ result => .done (result.1.map fun pools =>
      (pools.getD 0 default, pools.getD 1 default, pools.getD 2 default), result.2)) (.done _)
  have hback : ∀ rank : Fin world, (x rank, topkWeights rank, topkIds rank) =
      (poolRows (pool x) (metadataOf lens rank), poolRows (pool topkWeights) (metadataOf lens rank),
        poolRows (pool topkIds) (metadataOf lens rank)) := fun rank => by
    simp only [pool, poolRows_cat hlens hx rank, poolRows_cat hlens hweights rank,
      poolRows_cat hlens hids rank]
  refine ⟨(calls ++ []) ++ [], plans', ?_⟩
  simp only [hback]
  exact hdispatch.bind (k := fun rank result => .done (result.1.map fun pools =>
    (poolRows pools.1 (metadataOf lens rank), poolRows pools.2.1 (metadataOf lens rank),
      poolRows pools.2.2 (metadataOf lens rank)), result.2)) (.done _)

end Pooling

/-! ### Every group, every size vector -/

section Collectives

variable [AddCommMonoid A] [DecidableEq Device]

/-- The ranks go through together: they meet in one sequence of collectives, with equal shapes
on every rank, and each is left with its result. -/
def GoesThrough {α : Type} {world : Nat} (scripts : Fin world → Script WireCall (List (Tensor A)) α)
    (results : Fin world → α) : Prop :=
  ∃ calls, Lockstep wire scripts calls results ∧ ∀ rank, (scripts rank).Path calls (results rank)

theorem GoesThrough.of_lockstep {α : Type} {world : Nat}
    {scripts : Fin world → Script WireCall (List (Tensor A)) α} {results : Fin world → α}
    (h : ∃ calls, Lockstep wire scripts calls results) : GoesThrough scripts results := by
  obtain ⟨calls, hcalls⟩ := h
  exact ⟨calls, hcalls, hcalls.path⟩

theorem axisOf_le (dim : Int) (n : Nat) : axisOf dim (n + 1) ≤ n := by
  have hpos : (0 : Int) < ((n + 1 : Nat) : Int) := by omega
  have hnonneg := Int.emod_nonneg dim (Int.ne_of_gt hpos)
  have hlt := Int.emod_lt_of_pos dim hpos
  rw [axisOf]
  omega

/-- **The ragged collectives have their plain meaning.** For the sizes `lens` of a group of any
width, whatever devices its ranks are on and whichever plans their processes have cached,
along any axis:

* `all_gatherv` leaves every rank with the concatenations of the shards in rank order;
* `reduce_scatterv` leaves a rank with the sum over the ranks of their chunks for it;
* pooling into the rectangle and scattering gives every rank its own rows back;
* so does the ragged dispatch, read at the rank's offset. -/
theorem ragged_collectives (lens : List Nat) (device : Fin lens.length → Device)
    (plans : Fin lens.length → RaggedPlans Device) :
    (∀ (dim : Int) (sizes : Option (List Nat)) (first : Fin lens.length → Tensor A)
        (more : List (Fin lens.length → Tensor A)) (base : List Nat), Declares sizes lens →
      Sharded lens (axisOf dim (base.length + 1)) first base →
      (∀ shards ∈ more, ∃ base', Sharded lens (axisOf dim (base.length + 1)) shards base') →
      ∃ plans' : Fin lens.length → RaggedPlans Device, GoesThrough (fun rank =>
          allGatherv lens.length rank (device rank) (plans rank)
            ((first :: more).map fun shards => shards rank) dim sizes)
        fun rank => (.ok ((first :: more).map fun shards =>
          cat (axisOf dim (base.length + 1)) ((List.finRange lens.length).map shards)),
          plans' rank)) ∧
    (∀ (dim : Int) (pools : Fin lens.length → Tensor A) (base : List Nat),
      (∀ peer, (pools peer).shape = base.insertIdx (axisOf dim (base.length + 1)) lens.sum) →
      ∃ plans' : Fin lens.length → RaggedPlans Device, GoesThrough (fun rank =>
          reduceScatterv lens.length rank (device rank) (plans rank) (pools rank) lens dim)
        fun rank => (.ok (chunkSum lens (axisOf dim (base.length + 1)) base pools rank),
          plans' rank)) ∧
    (∀ (hidden : Nat) (x : Fin lens.length → Tensor A),
      (∀ rank, (x rank).shape = [lens.getD rank 0, hidden]) →
      GoesThrough (fun rank => gatherThenScatter lens.length (x rank) (metadataOf lens rank))
        fun rank => .ok (x rank)) ∧
    ∀ (x topkWeights topkIds : Fin lens.length → Tensor A) (base baseW baseI : List Nat),
      Sharded lens 0 x base → Sharded lens 0 topkWeights baseW → Sharded lens 0 topkIds baseI →
      ∃ plans' : Fin lens.length → RaggedPlans Device, GoesThrough (fun rank =>
          dispatchThenSlice lens.length (device rank) (plans rank) (x rank) (topkWeights rank)
            (topkIds rank) (metadataOf lens rank))
        fun rank => (.ok (x rank, topkWeights rank, topkIds rank), plans' rank) := by
  refine ⟨?_, ?_, ?_, ?_⟩
  · intro dim sizes first more base hsizes hfirst hmore
    obtain ⟨calls, plans', h⟩ := allGatherv_lockstep rfl device plans hsizes hfirst hmore
    exact ⟨plans', .of_lockstep ⟨calls, h⟩⟩
  · intro dim pools base hshape
    obtain ⟨calls, plans', h⟩ := reduceScatterv_lockstep rfl device plans rfl
      (axisOf_le dim base.length) hshape
    exact ⟨plans', .of_lockstep ⟨calls, h⟩⟩
  · intro hidden x hx
    exact .of_lockstep (gatherThenScatter_lockstep hx)
  · intro x topkWeights topkIds base baseW baseI hx hweights hids
    obtain ⟨calls, plans', h⟩ := dispatchThenSlice_lockstep rfl device plans hx hweights hids
    exact ⟨plans', .of_lockstep ⟨calls, h⟩⟩

/-- Three ranks with two, none and one columns. -/
def unevenShard (rank : Nat) : Tensor Nat :=
  ofFn [2, [2, 0, 1].getD rank 0] fun index => 10 * (rank + 1) + 2 * index.getD 0 0 + index.getD 1 0

def unevenPool (rank : Nat) : Tensor Nat :=
  ofFn [2, 3] fun index => 10 ^ rank * (1 + 3 * index.getD 0 0 + index.getD 1 0)

/-- The shards gathered along the last axis, and the third rank's share of the pools. -/
theorem ragged_collectives_three :
    (∃ plans' : Fin 3 → RaggedPlans Nat, GoesThrough (fun rank =>
        allGatherv 3 rank rank.val .empty [unevenShard rank] (-1) (some [2, 0, 1]))
      fun rank => (.ok [cat 1 ((List.finRange 3).map fun rank : Fin 3 => unevenShard rank)],
        plans' rank)) ∧
    (cat 1 ((List.finRange 3).map fun rank : Fin 3 => unevenShard rank)).entry [1, 2] = 32 ∧
    (∃ plans' : Fin 3 → RaggedPlans Nat, GoesThrough (fun rank =>
        reduceScatterv 3 rank rank.val .empty (unevenPool rank) [2, 0, 1] (-1))
      fun rank => (.ok (chunkSum [2, 0, 1] 1 [2] (fun peer : Fin 3 => unevenPool peer) rank),
        plans' rank)) ∧
    (chunkSum [2, 0, 1] 1 [2] (fun peer : Fin 3 => unevenPool peer) 2).entry [1, 0] = 666 := by
  obtain ⟨hgather, hscatter, -⟩ := ragged_collectives (A := Nat) [2, 0, 1] (fun rank => rank.val)
    fun _ => .empty
  refine ⟨hgather (-1) (some [2, 0, 1]) (fun rank => unevenShard rank) [] [2] (.inl rfl)
    ⟨by decide, fun _ => rfl⟩ fun _ hmem => absurd hmem List.not_mem_nil, by decide,
    hscatter (-1) (fun rank => unevenPool rank) [2] fun _ => rfl, by decide⟩

end Collectives

end ParallelState

end RapidLlm
