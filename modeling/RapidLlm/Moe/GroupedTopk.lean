import Mathlib.Algebra.Field.Basic
import Mathlib.Algebra.Order.Monoid.Unbundled.WithTop
import RapidLlm.Lib.Lanes
import RapidLlm.Moe.BlockAlign

/-!
# RapidLlm.Moe.GroupedTopk

**Grouped top-k routing** (`kernels/ops/moe/grouped_topk.py`): the reference in torch, and the
kernel that routes one token in one program. Both keep the `topk_group` groups of the largest
group scores and pick the `top_k` largest biased scores of their experts; the reference sorts,
the kernel takes the argmax of its lanes and puts the lane out, round after round.

Scores are exact, `-inf` is `⊥`. `groupedTopk_routes` is about a row whose scores differ: the
kernel stores every column of the row once, the picks best first, and the pairs it stores are
those of the reference.
-/

namespace RapidLlm

/-- The arguments of `grouped_topk`, with the expert count its logits have. -/
structure GroupedRouter (K : Type) where
  nExperts : Nat
  topK : Nat
  numExpertGroup : Nat
  topkGroup : Nat
  renormalize : Bool
  routedScalingFactor : K
  eScoreCorrectionBias : Option (Nat → K)

/-- `_validate_geometry`. -/
def validateGeometry (nExperts topK numExpertGroup topkGroup : Nat) : Except Raised Nat :=
  if nExperts < 1 then .error (.valueError "num_experts must be positive")
  else if numExpertGroup < 1 ∨ nExperts % numExpertGroup ≠ 0 then
    .error (.valueError
      s!"num_experts {nExperts} must divide into num_expert_group {numExpertGroup}")
  else if ¬ (1 ≤ topkGroup ∧ topkGroup ≤ numExpertGroup) then
    .error (.valueError s!"topk_group must be in [1, {numExpertGroup}], got {topkGroup}")
  else
    let perGroup := nExperts / numExpertGroup
    if ¬ (1 ≤ topK ∧ topK ≤ topkGroup * perGroup) then
      .error (.valueError (s!"top_k must be in [1, {topkGroup * perGroup}] for the selected " ++
        s!"groups, got {topK}"))
    else .ok perGroup

/-- `torch.topk(values, k, sorted=False)[1]`, of a row of `n` values: the positions of the `k`
largest, in any order. -/
structure TorchTopk (V : Type) [LinearOrder V] where
  indices : (n : Nat) → (Nat → V) → (k : Nat) → List Nat
  best : ∀ n value k, k ≤ n → ∃ order, order.Perm (indices n value k) ∧ order.length = k ∧
    IsTop value (List.range n) order

/-- A store of the kernel: an address of both outputs, and what goes there. -/
structure TopkStore (K : Type) where
  address : Int
  id : Nat
  weight : K
  deriving DecidableEq

/-- The lanes of the expert rounds. -/
structure ExpertLanes (K : Type) where
  selected : Nat → Bool
  rank : Nat → Int
  candidates : Nat → WithBot K

namespace GroupedRouter

variable {K : Type} [Field K] [LinearOrder K] (router : GroupedRouter K) (scores : Nat → K)
  (perGroup : Nat)

/-- `scores + e_score_correction_bias`, where there is one. -/
def biased (e : Nat) : K :=
  match router.eScoreCorrectionBias with
  | some bias => scores e + bias e
  | none => scores e

/-! ### The reference -/

section Reference

variable (topk : TorchTopk (WithBot K))

/-- `group_scores` of `grouped_topk_torch`. -/
def torchGroupScore (g : Nat) : WithBot K :=
  let group : Nat → WithBot K := fun i => router.biased scores (g * perGroup + i)
  if router.eScoreCorrectionBias.isSome ∧ 2 ≤ perGroup then
    ((topk.indices perGroup group 2).map group).sum
  else maxLane perGroup group

/-- `topk_ids` of `grouped_topk_torch`. -/
def torchIds : List Nat :=
  let groupIdx := topk.indices router.numExpertGroup (router.torchGroupScore scores perGroup topk)
    router.topkGroup
  let tmpScores : Nat → WithBot K := fun e =>
    if e / perGroup ∈ groupIdx then router.biased scores e else ⊥
  topk.indices router.nExperts tmpScores router.topK

/-- A row of `grouped_topk_torch`, its ids with their weights. -/
def torchRow : List (Nat × K) :=
  let topkIds := router.torchIds scores perGroup topk
  let topkWeights := topkIds.map scores
  let topkWeights :=
    if router.renormalize then topkWeights.map (· / topkWeights.sum) else topkWeights
  let topkWeights :=
    if router.routedScalingFactor ≠ 1 then topkWeights.map (· * router.routedScalingFactor)
    else topkWeights
  topkIds.zip topkWeights

end Reference

/-! ### The kernel -/

/-- Whether the kernel serves the geometry; a biased group of one expert has no two best. -/
def kernelable : Bool := router.eScoreCorrectionBias.isNone || 2 ≤ perGroup

/-- The experts of a group, in their lanes. -/
def groupLanes (g : Nat) : Nat → WithBot K := fun e =>
  if e / perGroup = g ∧ e < router.nExperts then router.biased scores e else ⊥

/-- The group scores, once the loop over the groups has run. -/
def groupScores (blockE : Nat) : Nat → WithBot K :=
  (List.range router.numExpertGroup).foldl
    (fun groupScores g =>
      let v := router.groupLanes scores perGroup g
      let top1 := maxLane blockE v
      if router.eScoreCorrectionBias.isSome then
        let top2 := maxLane blockE (maskLane (argmaxLane blockE v) v)
        fun lane => if lane = g then top1 + top2 else groupScores lane
      else fun lane => if lane = g then top1 else groupScores lane)
    fun _ => ⊥

/-- `group_alive` and what is left of the scores, once the group rounds have run. -/
def groupRounds (blockG : Nat) (groupScores : Nat → WithBot K) :
    Nat → (Nat → Bool) × (Nat → WithBot K)
  | 0 => (fun _ => false, groupScores)
  | n + 1 =>
    let before := groupRounds blockG groupScores n
    let best := argmaxLane blockG before.2
    (fun lane => before.1 lane || lane = best, maskLane best before.2)

/-- `in_alive_group`. -/
def inAliveGroup (blockG : Nat) (groupAlive : Nat → Bool) (e : Nat) : Bool :=
  0 < ((List.range blockG).map fun lane =>
    if lane = e / perGroup ∧ groupAlive lane then 1 else 0).sum

/-- The lanes once the expert rounds have run. -/
def expertRounds (blockE : Nat) (candidates : Nat → WithBot K) : Nat → ExpertLanes K
  | 0 => ⟨fun _ => false, fun _ => -1, candidates⟩
  | k + 1 =>
    let before := expertRounds blockE candidates k
    let expert := argmaxLane blockE before.candidates
    { selected := fun e => before.selected e || e = expert
      rank := fun e => if e = expert then (k : Int) else before.rank e
      candidates := maskLane expert before.candidates }

/-- `_grouped_topk_kernel`: the stores of the program of a token. -/
def groupedTopkKernel (token : Nat) : List (TopkStore K) :=
  let blockE := nextPowerOf2 router.nExperts
  let blockG := nextPowerOf2 router.numExpertGroup
  let groupAlive := (groupRounds blockG (router.groupScores scores perGroup blockE)
    router.topkGroup).1
  let candidates : Nat → WithBot K := fun e =>
    if inAliveGroup perGroup blockG groupAlive e ∧ e < router.nExperts then router.biased scores e
    else ⊥
  let lanes := expertRounds blockE candidates router.topK
  let selectedScores := fun e => if lanes.selected e then scores e else 0
  let weights := fun e =>
    if router.renormalize then
      selectedScores e / ((List.range blockE).map selectedScores).sum * router.routedScalingFactor
    else selectedScores e * router.routedScalingFactor
  ((List.range blockE).filter lanes.selected).map fun e =>
    ⟨(token : Int) * router.topK + lanes.rank e, e, weights e⟩

/-- `grouped_topk`, a row. The kernel serves fp32 logits on CUDA; every other call is the
reference. -/
def groupedTopk (topk : TorchTopk (WithBot K)) (cudaFp32 : Bool) (token : Nat) :
    Except Raised (List (TopkStore K)) := do
  let perGroup ← validateGeometry router.nExperts router.topK router.numExpertGroup
    router.topkGroup
  if cudaFp32 && router.kernelable perGroup then
    return router.groupedTopkKernel scores perGroup token
  else
    return (router.torchRow scores perGroup topk).zipIdx.map fun entry =>
      ⟨(token : Int) * router.topK + entry.2, entry.1.1, entry.1.2⟩

/-! ### What a row is routed to -/

/-- The score of a group: the sum of its two best biased scores, or the best where there is no
bias. -/
def groupScore (g : Nat) : K :=
  let group := (List.range perGroup).map fun i => router.biased scores (g * perGroup + i)
  ((group.mergeSort fun a b => decide (b ≤ a)).take
    (if router.eScoreCorrectionBias.isSome then 2 else 1)).sum

/-- The weight of a pick, from the scores without their bias. -/
def weight (ids : List Nat) (e : Nat) : K :=
  (if router.renormalize then scores e / (ids.map scores).sum else scores e) *
    router.routedScalingFactor

/-- **A row routed**: the best groups, the best of their experts, each in its own column, best
first, with its weight. -/
structure Routed (token : Nat) (groups ids : List Nat) (stores : List (TopkStore K)) : Prop where
  bestGroups : IsTop (router.groupScore scores perGroup) (List.range router.numExpertGroup) groups
  numGroups : groups.length = router.topkGroup
  bestIds : IsTop (router.biased scores)
    ((List.range router.nExperts).filter fun e => decide (e / perGroup ∈ groups)) ids
  numIds : ids.length = router.topK
  columns : stores.Perm (ids.zipIdx.map fun pick =>
    ⟨(token : Int) * router.topK + pick.2, pick.1, router.weight scores ids pick.1⟩)

end GroupedRouter

/-! ### The geometry -/

theorem validateGeometry_ok {nExperts topK numExpertGroup topkGroup perGroup : Nat}
    (h : validateGeometry nExperts topK numExpertGroup topkGroup = .ok perGroup) :
    nExperts = numExpertGroup * perGroup ∧ 0 < perGroup ∧ topkGroup ≤ numExpertGroup ∧
      0 < topK ∧ topK ≤ topkGroup * perGroup := by
  unfold validateGeometry at h
  split at h
  · cases h
  next hpositive =>
  split at h
  · cases h
  next hdivides =>
  split at h
  · cases h
  next hgroups =>
  dsimp only at h
  split at h
  · cases h
  next hpicks =>
  cases h
  have hmul := Nat.mul_div_cancel' (Nat.dvd_of_mod_eq_zero (by omega : nExperts % numExpertGroup = 0))
  refine ⟨hmul.symm, Nat.pos_of_ne_zero fun hzero => ?_, by omega, by omega, by omega⟩
  rw [hzero, Nat.mul_zero] at hmul
  omega

/-- The experts of a group are the lanes that divide to it. -/
theorem div_eq_iff_mem {perGroup g e : Nat} (hper : 0 < perGroup) :
    e / perGroup = g ↔ e ∈ (List.range perGroup).map (g * perGroup + ·) := by
  rw [List.mem_map]
  constructor
  · rintro rfl
    refine ⟨e % perGroup, List.mem_range.mpr (Nat.mod_lt _ hper), ?_⟩
    rw [Nat.mul_comm]
    exact Nat.div_add_mod e perGroup
  · rintro ⟨i, hi, rfl⟩
    exact (div_mod_of_lt (List.mem_range.mp hi)).1

theorem nodup_group (perGroup g : Nat) : ((List.range perGroup).map (g * perGroup + ·)).Nodup :=
  List.nodup_range.map fun _ _ h => Nat.add_left_cancel h

/-! ### Values and `-inf` -/

section Values

variable {K : Type} [LinearOrder K] {f : Nat → K} {pool picks : List Nat}

/-- Members with a value each are ranked by it. -/
theorem isTop_coe {v : Nat → WithBot K} (hv : ∀ i ∈ pool, v i = f i) (h : IsTop v pool picks) :
    IsTop f pool picks where
  nodup := h.nodup
  subset := h.subset
  sorted := h.sorted.imp_of_mem fun hi hj hle => by
    rw [hv _ (h.subset hi), hv _ (h.subset hj)] at hle
    exact WithBot.coe_le_coe.mp hle
  rest := by
    intro i hi hnot j hj
    have hle := h.rest i hi hnot j hj
    rw [hv _ hi, hv _ (h.subset hj)] at hle
    exact WithBot.coe_le_coe.mp hle

/-- The values of the best of a pool are the first of the sorted values, however the pool is
listed. -/
theorem map_eq_take_of_perm {values : List K} (h : IsTop f pool picks) (hpool : pool.Nodup)
    (hperm : (pool.map f).Perm values) :
    picks.map f = (values.mergeSort fun a b => decide (b ≤ a)).take picks.length := by
  rw [h.map_eq_take hpool]
  congr 1
  have hsorted : ∀ l : List K, (l.mergeSort fun a b => decide (b ≤ a)).Pairwise fun a b => b ≤ a :=
    fun l => pairwise_descending id l
  exact List.Perm.eq_of_pairwise (fun a b _ _ hab hba => le_antisymm hba hab) (hsorted _)
    (hsorted _) ((List.mergeSort_perm _ _).trans (hperm.trans (List.mergeSort_perm _ _).symm))

end Values

namespace GroupedRouter

variable {K : Type} [Field K] [LinearOrder K] {router : GroupedRouter K} {scores : Nat → K}
  {perGroup : Nat}

/-! ### The group scores -/

omit [LinearOrder K] in
theorem sum_coe (values : List K) :
    (values.map WithBot.some).sum = ((values.sum : K) : WithBot K) := by
  induction values with
  | nil => rfl
  | cons a values ih => rw [List.map_cons, List.sum_cons, List.sum_cons, ih, WithBot.coe_add]

/-- How many experts of a group count. -/
def numBest (router : GroupedRouter K) : Nat := if router.eScoreCorrectionBias.isSome then 2 else 1

omit [Field K] [LinearOrder K] in
theorem numBest_le (hper : 0 < perGroup) (hkernel : router.kernelable perGroup) :
    router.numBest ≤ perGroup := by
  unfold numBest
  unfold kernelable at hkernel
  cases hbias : router.eScoreCorrectionBias with
  | none => exact hper
  | some bias =>
    rw [hbias] at hkernel
    simpa using hkernel

/-- The best of a group, listed in any way, add up to its score. -/
theorem sum_best {g : Nat} {v : Nat → WithBot K} {f : Nat → K} {pool picks : List Nat}
    (h : IsTop v pool picks) (hv : ∀ i ∈ pool, v i = f i) (hpool : pool.Nodup)
    (hperm : (pool.map f).Perm
      ((List.range perGroup).map fun i => router.biased scores (g * perGroup + i)))
    (hlen : picks.length = router.numBest) :
    (picks.map v).sum = ((router.groupScore scores perGroup g : K) : WithBot K) := by
  have hcoe : picks.map v = (picks.map f).map WithBot.some := by
    rw [List.map_map]
    exact List.map_congr_left fun i hi => hv i (h.subset hi)
  rw [hcoe, sum_coe, map_eq_take_of_perm (isTop_coe hv h) hpool hperm, hlen]
  rfl

theorem torchGroupScore_eq (topk : TorchTopk (WithBot K)) (hper : 0 < perGroup)
    (hkernel : router.kernelable perGroup) (g : Nat) :
    router.torchGroupScore scores perGroup topk g = (router.groupScore scores perGroup g : K) := by
  have hcount := numBest_le hper hkernel
  unfold torchGroupScore
  dsimp only
  set group : Nat → WithBot K := fun i => router.biased scores (g * perGroup + i)
  have hvalue : ∀ i ∈ List.range perGroup, group i = router.biased scores (g * perGroup + i) :=
    fun _ _ => rfl
  by_cases hbias : router.eScoreCorrectionBias.isSome
  · have htwo : router.numBest = 2 := if_pos hbias
    rw [if_pos ⟨hbias, htwo ▸ hcount⟩]
    obtain ⟨order, hperm, hlen, htop⟩ := topk.best perGroup group 2 (htwo ▸ hcount)
    rw [← (hperm.map group).sum_eq]
    exact sum_best htop hvalue List.nodup_range (List.Perm.refl _) (hlen.trans htwo.symm)
  · have hone : router.numBest = 1 := if_neg hbias
    rw [if_neg fun h => hbias h.1, maxLane_eq hper]
    have hlive : liveLanes perGroup group = List.range perGroup :=
      List.filter_eq_self.mpr fun i _ => decide_eq_true (WithBot.coe_ne_bot)
    have hfit : 1 ≤ (liveLanes perGroup group).length := by
      rw [hlive, List.length_range]
      exact hper
    obtain ⟨htop, hlen, -⟩ := pickRounds_isTop hfit
    rw [hlive] at htop
    have hsum := sum_best htop hvalue List.nodup_range (List.Perm.refl _) (hlen.trans hone.symm)
    rw [← hsum]
    exact (List.sum_singleton).symm

/-- The lanes of a group are its experts. -/
theorem liveLanes_group {blockE g : Nat} (hexperts : router.nExperts = router.numExpertGroup * perGroup)
    (hper : 0 < perGroup) (hblock : router.nExperts ≤ blockE) (hg : g < router.numExpertGroup) :
    (liveLanes blockE (router.groupLanes scores perGroup g)).Perm
      ((List.range perGroup).map (g * perGroup + ·)) := by
  refine (List.perm_ext_iff_of_nodup nodup_liveLanes (nodup_group perGroup g)).mpr fun e => ?_
  rw [mem_liveLanes, ← div_eq_iff_mem hper]
  unfold groupLanes
  constructor
  · rintro ⟨-, hlive⟩
    by_contra hne
    exact hlive (if_neg fun h => hne h.1)
  · rintro rfl
    have hlt : e < router.nExperts := by
      rw [hexperts]
      exact Nat.lt_mul_of_div_lt hg hper
    exact ⟨by omega, by rw [if_pos ⟨rfl, hlt⟩]; exact WithBot.coe_ne_bot⟩

/-- What a turn of the loop over the groups finds. -/
def turnScore (router : GroupedRouter K) (scores : Nat → K) (perGroup blockE g : Nat) : WithBot K :=
  let v := router.groupLanes scores perGroup g
  if router.eScoreCorrectionBias.isSome then
    maxLane blockE v + maxLane blockE (maskLane (argmaxLane blockE v) v)
  else maxLane blockE v

theorem groupScores_eq (blockE lane : Nat) : router.groupScores scores perGroup blockE lane =
    if lane < router.numExpertGroup then router.turnScore scores perGroup blockE lane else ⊥ := by
  unfold groupScores
  generalize router.numExpertGroup = n
  induction n generalizing lane with
  | zero => rfl
  | succ n ih =>
    rw [List.range_succ, List.foldl_append, List.foldl_cons, List.foldl_nil]
    have hturn : ∀ (acc : Nat → WithBot K), (if router.eScoreCorrectionBias.isSome then
          fun lane => if lane = n then maxLane blockE (router.groupLanes scores perGroup n) +
            maxLane blockE (maskLane (argmaxLane blockE (router.groupLanes scores perGroup n))
              (router.groupLanes scores perGroup n)) else acc lane
        else fun lane => if lane = n then maxLane blockE (router.groupLanes scores perGroup n)
          else acc lane) lane =
        if lane = n then router.turnScore scores perGroup blockE n else acc lane := by
      intro acc
      unfold turnScore
      split <;> rfl
    refine (hturn _).trans ?_
    rw [ih lane]
    by_cases hlane : lane = n
    · rw [if_pos hlane, if_pos (by omega), hlane]
    · rw [if_neg hlane]
      simp only [show lane < n + 1 ↔ lane < n by omega]

/-- **The kernel scores a group as the specification does.** -/
theorem turnScore_eq {blockE g : Nat}
    (hexperts : router.nExperts = router.numExpertGroup * perGroup) (hper : 0 < perGroup)
    (hkernel : router.kernelable perGroup) (hblock : router.nExperts ≤ blockE)
    (hg : g < router.numExpertGroup) :
    router.turnScore scores perGroup blockE g = (router.groupScore scores perGroup g : K) := by
  have hperm : (liveLanes blockE (router.groupLanes scores perGroup g)).Perm _ :=
    liveLanes_group hexperts hper hblock hg
  have hcount := numBest_le hper hkernel
  have hlength : (liveLanes blockE (router.groupLanes scores perGroup g)).length = perGroup := by
    rw [hperm.length_eq, List.length_map, List.length_range]
  have hlanes : 0 < blockE := by
    have hlive := List.length_filter_le (fun i => decide (router.groupLanes scores perGroup g i ≠ ⊥))
      (List.range blockE)
    rw [List.length_range] at hlive
    exact hper.trans_le (hlength.symm.le.trans hlive)
  have hvalue : ∀ e ∈ liveLanes blockE (router.groupLanes scores perGroup g),
      router.groupLanes scores perGroup g e = router.biased scores e := by
    intro e he
    have hlive := (mem_liveLanes.mp he).2
    unfold groupLanes at hlive ⊢
    exact if_pos (by_contra fun h => hlive (if_neg h))
  have hmembers : ((liveLanes blockE (router.groupLanes scores perGroup g)).map
      (router.biased scores)).Perm
        ((List.range perGroup).map fun i => router.biased scores (g * perGroup + i)) := by
    have hmap := hperm.map (router.biased scores)
    rwa [List.map_map] at hmap
  obtain ⟨htop, hlen, -⟩ := pickRounds_isTop (hcount.trans hlength.symm.le)
  rw [← sum_best htop hvalue nodup_liveLanes hmembers hlen]
  unfold turnScore
  dsimp only
  generalize router.groupLanes scores perGroup g = v at htop hlength
  split
  · next hbias =>
    have htwo : router.numBest = 2 := if_pos hbias
    rw [htwo] at htop hcount ⊢
    have hpicks : (pickRounds blockE v 2).1 =
        [argmaxLane blockE v, argmaxLane blockE (maskLane (argmaxLane blockE v) v)] := rfl
    rw [hpicks] at htop ⊢
    have hne : argmaxLane blockE (maskLane (argmaxLane blockE v) v) ≠ argmaxLane blockE v := by
      intro heq
      have hnodup := htop.nodup
      rw [heq] at hnodup
      exact (List.nodup_cons.mp hnodup).1 List.mem_cons_self
    rw [maxLane_eq hlanes, maxLane_eq hlanes, List.map_cons, List.map_singleton, List.sum_cons,
      List.sum_singleton]
    congr 1
    exact if_neg hne
  · next hbias =>
    have hone : router.numBest = 1 := if_neg hbias
    rw [hone, maxLane_eq hlanes]
    exact (List.sum_singleton).symm

/-! ### The rounds -/

omit [Field K] in
/-- The group rounds keep the lanes they pick. -/
theorem groupRounds_eq (blockG : Nat) (groupScores : Nat → WithBot K) (n : Nat) :
    (∀ lane, (groupRounds blockG groupScores n).1 lane = true ↔
      lane ∈ (pickRounds blockG groupScores n).1) ∧
    (groupRounds blockG groupScores n).2 = (pickRounds blockG groupScores n).2 := by
  induction n with
  | zero => exact ⟨fun lane => by simp [groupRounds, pickRounds], rfl⟩
  | succ n ih =>
    obtain ⟨halive, hleft⟩ := ih
    rw [groupRounds, pickRounds, hleft]
    refine ⟨fun lane => ?_, rfl⟩
    rw [Bool.or_eq_true, halive, decide_eq_true_iff, List.mem_append, List.mem_singleton]

theorem inAliveGroup_iff {blockG e : Nat} {groupAlive : Nat → Bool} (hlane : e / perGroup < blockG) :
    inAliveGroup perGroup blockG groupAlive e = true ↔ groupAlive (e / perGroup) = true := by
  unfold inAliveGroup
  rw [decide_eq_true_iff]
  constructor
  · intro hsum
    by_contra hdead
    refine absurd hsum (Nat.not_lt.mpr (Nat.le_of_eq ?_))
    refine List.sum_eq_zero fun n hn => ?_
    obtain ⟨lane, -, rfl⟩ := List.mem_map.mp hn
    rw [if_neg]
    rintro ⟨rfl, halive⟩
    exact hdead halive
  · intro halive
    refine List.sum_pos_iff_exists_pos_nat.mpr ⟨1, List.mem_map.mpr ?_, Nat.one_pos⟩
    exact ⟨e / perGroup, List.mem_range.mpr hlane, if_pos ⟨rfl, halive⟩⟩

omit [Field K] in
/-- The expert rounds select the lanes they pick, each ranked by its round. -/
theorem expertRounds_eq {blockE : Nat} {candidates : Nat → WithBot K} {m : Nat}
    (hm : m ≤ (liveLanes blockE candidates).length) :
    (∀ e, (expertRounds blockE candidates m).selected e = true ↔
      e ∈ (pickRounds blockE candidates m).1) ∧
    (∀ pick ∈ (pickRounds blockE candidates m).1.zipIdx,
      (expertRounds blockE candidates m).rank pick.1 = pick.2) ∧
    (expertRounds blockE candidates m).candidates = (pickRounds blockE candidates m).2 := by
  induction m with
  | zero => exact ⟨fun e => by simp [expertRounds, pickRounds], nofun, rfl⟩
  | succ m ih =>
    obtain ⟨hselected, hrank, hleft⟩ := ih (Nat.le_of_succ_le hm)
    obtain ⟨-, hlen, -⟩ := pickRounds_isTop (Nat.le_of_succ_le hm)
    have hnodup := (pickRounds_isTop hm).1.nodup
    rw [pickRounds] at hnodup
    rw [expertRounds, pickRounds, hleft]
    refine ⟨fun e => ?_, fun pick hpick => ?_, rfl⟩
    · rw [Bool.or_eq_true, hselected, decide_eq_true_iff, List.mem_append, List.mem_singleton]
    · dsimp only at hpick ⊢
      rw [List.zipIdx_append, List.mem_append] at hpick
      rcases hpick with hpick | hpick
      · have hold : pick.1 ∈ (pickRounds blockE candidates m).1 := (List.mem_zipIdx hpick).2.2 ▸
          List.getElem_mem _
        have hne : pick.1 ≠ argmaxLane blockE (pickRounds blockE candidates m).2 := by
          intro heq
          exact (List.disjoint_of_nodup_append hnodup) hold (List.mem_singleton.mpr heq)
        rw [if_neg hne]
        exact hrank pick hpick
      · rw [List.zipIdx_singleton, List.mem_singleton] at hpick
        rw [hpick, if_pos rfl, Nat.zero_add, hlen]

/-! ### The kernel -/

/-- The experts of the groups that are kept. -/
def keptExperts (router : GroupedRouter K) (perGroup : Nat) (groups : List Nat) : List Nat :=
  (List.range router.nExperts).filter fun e => decide (e / perGroup ∈ groups)

omit [Field K] [LinearOrder K] in
theorem mem_keptExperts {groups : List Nat} {e : Nat} :
    e ∈ router.keptExperts perGroup groups ↔ e < router.nExperts ∧ e / perGroup ∈ groups := by
  rw [keptExperts, List.mem_filter, List.mem_range, decide_eq_true_iff]

omit [Field K] [LinearOrder K] in
/-- Groups have all their experts. -/
theorem length_keptExperts {groups : List Nat}
    (hexperts : router.nExperts = router.numExpertGroup * perGroup) (hper : 0 < perGroup)
    (hnodup : groups.Nodup) (hgroups : groups ⊆ List.range router.numExpertGroup) :
    groups.length * perGroup ≤ (router.keptExperts perGroup groups).length := by
  have hmembers : (groups.flatMap fun g => (List.range perGroup).map (g * perGroup + ·)).Nodup := by
    refine List.nodup_flatMap.mpr ⟨fun g _ => nodup_group perGroup g, ?_⟩
    refine hnodup.imp fun hne e he he' => hne ?_
    rw [← (div_eq_iff_mem hper).mpr he, ← (div_eq_iff_mem hper).mpr he']
  have hsub : _ ≤ (router.keptExperts perGroup groups).length :=
    hmembers.length_le_of_subset fun e he => by
    obtain ⟨g, hg, hmem⟩ := List.mem_flatMap.mp he
    have hdiv := (div_eq_iff_mem hper).mpr hmem
    refine mem_keptExperts.mpr ⟨?_, hdiv ▸ hg⟩
    rw [hexperts]
    exact Nat.lt_mul_of_div_lt (hdiv ▸ List.mem_range.mp (hgroups hg)) hper
  rw [List.length_flatMap] at hsub
  simpa using hsub

omit [LinearOrder K] in
/-- The weights of the lanes, the selected ones counted once. -/
theorem weights_eq {blockE : Nat} {ids : List Nat} {selected : Nat → Bool}
    (hnodup : ids.Nodup) (hblock : ∀ e ∈ ids, e < blockE)
    (hselected : ∀ e, selected e = true ↔ e ∈ ids) :
    ((List.range blockE).map fun e => if selected e then scores e else 0).sum =
      (ids.map scores).sum := by
  have hperm : ((List.range blockE).filter selected).Perm ids := by
    refine (List.perm_ext_iff_of_nodup (List.nodup_range.filter _) hnodup).mpr fun e => ?_
    rw [List.mem_filter, List.mem_range, hselected]
    exact and_iff_right_of_imp (hblock e)
  rw [← (hperm.map scores).sum_eq]
  induction List.range blockE with
  | nil => rfl
  | cons e lanes ih =>
    rw [List.map_cons, List.sum_cons, ih, List.filter_cons]
    split
    · rw [List.map_cons, List.sum_cons]
    · exact zero_add _

/-- The stores of the selected lanes, column by column. -/
theorem stores_perm {blockE token : Nat} {candidates : Nat → WithBot K}
    (hlive : router.topK ≤ (liveLanes blockE candidates).length) :
    let ids := (pickRounds blockE candidates router.topK).1
    let lanes := expertRounds blockE candidates router.topK
    let selectedScores := fun e => if lanes.selected e then scores e else 0
    (((List.range blockE).filter lanes.selected).map fun e =>
      (⟨(token : Int) * router.topK + lanes.rank e, e,
        if router.renormalize then
          selectedScores e / ((List.range blockE).map selectedScores).sum *
            router.routedScalingFactor
        else selectedScores e * router.routedScalingFactor⟩ : TopkStore K)).Perm
      (ids.zipIdx.map fun pick =>
        ⟨(token : Int) * router.topK + pick.2, pick.1, router.weight scores ids pick.1⟩) := by
  intro ids lanes selectedScores
  obtain ⟨hselected, hrank, -⟩ := expertRounds_eq hlive
  obtain ⟨htop, -, -⟩ := pickRounds_isTop hlive
  have hblock : ∀ e ∈ ids, e < blockE := fun e he => (mem_liveLanes.mp (htop.subset he)).1
  have hperm : ((List.range blockE).filter lanes.selected).Perm (ids.zipIdx.map Prod.fst) := by
    rw [List.zipIdx_map_fst]
    refine (List.perm_ext_iff_of_nodup (List.nodup_range.filter _) htop.nodup).mpr fun e => ?_
    rw [List.mem_filter, List.mem_range, hselected]
    exact and_iff_right_of_imp (hblock e)
  refine (hperm.map _).trans (List.Perm.of_eq ?_)
  rw [List.map_map]
  refine List.map_congr_left fun pick hpick => ?_
  have hpicked : lanes.selected pick.1 = true :=
    (hselected _).mpr ((List.mem_zipIdx hpick).2.2 ▸ List.getElem_mem _)
  have hsum : ((List.range blockE).map selectedScores).sum = _ :=
    weights_eq htop.nodup hblock hselected
  have hscore : selectedScores pick.1 = scores pick.1 := if_pos hpicked
  dsimp only [Function.comp]
  rw [hrank pick hpick, hscore, show ((List.range blockE).map selectedScores).sum = _ from hsum,
    weight]
  split <;> rfl

/-- **What the kernel stores of a row.** -/
theorem kernel_routed (hgeometry : validateGeometry router.nExperts router.topK
      router.numExpertGroup router.topkGroup = .ok perGroup)
    (hkernel : router.kernelable perGroup) (token : Nat) :
    ∃ groups ids, router.Routed scores perGroup token groups ids
      (router.groupedTopkKernel scores perGroup token) := by
  obtain ⟨hexperts, hper, htopkGroup, -, htopK⟩ := validateGeometry_ok hgeometry
  have hblockE := le_nextPowerOf2 router.nExperts
  have hblockG := le_nextPowerOf2 router.numExpertGroup
  set blockE := nextPowerOf2 router.nExperts with hdefE
  set blockG := nextPowerOf2 router.numExpertGroup with hdefG
  set groupScores := router.groupScores scores perGroup blockE with hscores
  -- The groups: the lanes that are in are the groups, and their values the scores.
  have hvalue : ∀ g ∈ liveLanes blockG groupScores, g < router.numExpertGroup ∧
      groupScores g = router.groupScore scores perGroup g := by
    intro g hg
    have hlive := (mem_liveLanes.mp hg).2
    rw [hscores, groupScores_eq] at hlive ⊢
    have hlt : g < router.numExpertGroup := by_contra fun h => hlive (if_neg h)
    rw [if_pos hlt, turnScore_eq hexperts hper hkernel hblockE hlt]
    exact ⟨hlt, rfl⟩
  have hgroups : ∀ g, g ∈ liveLanes blockG groupScores ↔ g ∈ List.range router.numExpertGroup := by
    intro g
    rw [List.mem_range]
    refine ⟨fun hg => (hvalue g hg).1, fun hg => mem_liveLanes.mpr ⟨by omega, ?_⟩⟩
    rw [hscores, groupScores_eq, if_pos hg, turnScore_eq hexperts hper hkernel hblockE hg]
    exact WithBot.coe_ne_bot
  have hcount : (liveLanes blockG groupScores).length = router.numExpertGroup := by
    rw [((List.perm_ext_iff_of_nodup nodup_liveLanes List.nodup_range).mpr hgroups).length_eq,
      List.length_range]
  obtain ⟨htopGroups, hnumGroups, -⟩ := pickRounds_isTop (htopkGroup.trans hcount.symm.le)
  have hbestGroups := (isTop_coe (fun g hg => (hvalue g hg).2) htopGroups).of_mem_iff hgroups
  set groups := (pickRounds blockG groupScores router.topkGroup).1 with hdefGroups
  -- The experts: the lanes that are in are those of the groups kept.
  set alive := (groupRounds blockG groupScores router.topkGroup).1 with halive
  set candidates : Nat → WithBot K := fun e =>
    if inAliveGroup perGroup blockG alive e ∧ e < router.nExperts then router.biased scores e
    else ⊥ with hcandidates
  have hkept : ∀ e, e ∈ liveLanes blockE candidates ↔ e ∈ router.keptExperts perGroup groups := by
    intro e
    have hdiv : e < router.nExperts → e / perGroup < blockG := fun he => by
      rw [hexperts] at he
      exact (Nat.div_lt_of_lt_mul (by rwa [Nat.mul_comm])).trans_le hblockG
    rw [mem_liveLanes, mem_keptExperts, ← (groupRounds_eq blockG groupScores router.topkGroup).1]
    constructor
    · rintro ⟨-, hlive⟩
      have hcond : inAliveGroup perGroup blockG alive e = true ∧ e < router.nExperts :=
        by_contra fun h => hlive (if_neg h)
      exact ⟨hcond.2, (inAliveGroup_iff (hdiv hcond.2)).mp hcond.1⟩
    · rintro ⟨he, hgroup⟩
      refine ⟨by omega, ?_⟩
      rw [hcandidates]
      dsimp only
      rw [if_pos ⟨(inAliveGroup_iff (hdiv he)).mpr hgroup, he⟩]
      exact WithBot.coe_ne_bot
  have hbiased : ∀ e ∈ liveLanes blockE candidates, candidates e = router.biased scores e :=
    fun e he => if_pos (by_contra fun h => (mem_liveLanes.mp he).2 (if_neg h))
  have hlive : router.topK ≤ (liveLanes blockE candidates).length := by
    have hmany := length_keptExperts hexperts hper hbestGroups.nodup hbestGroups.subset
    have hkeptPerm : (liveLanes blockE candidates).Perm (router.keptExperts perGroup groups) :=
      (List.perm_ext_iff_of_nodup nodup_liveLanes (List.nodup_range.filter _)).mpr hkept
    rw [hkeptPerm.length_eq]
    rw [hnumGroups] at hmany
    exact htopK.trans hmany
  obtain ⟨htopIds, hnumIds, -⟩ := pickRounds_isTop hlive
  exact ⟨groups, (pickRounds blockE candidates router.topK).1, hbestGroups, hnumGroups,
    (isTop_coe hbiased htopIds).of_mem_iff hkept, hnumIds, stores_perm hlive⟩

/-! ### The kernel and the reference -/

section Reference

variable {topk : TorchTopk (WithBot K)} {groups ids : List Nat}

/-- The reference picks the experts of a routed row, in some order. -/
theorem torchIds_perm {token : Nat} {stores : List (TopkStore K)}
    (hgeometry : validateGeometry router.nExperts router.topK router.numExpertGroup
      router.topkGroup = .ok perGroup)
    (hkernel : router.kernelable perGroup)
    (hbiased : ∀ i < router.nExperts, ∀ j < router.nExperts,
      router.biased scores i = router.biased scores j → i = j)
    (hgroups : ∀ g < router.numExpertGroup, ∀ g' < router.numExpertGroup,
      router.groupScore scores perGroup g = router.groupScore scores perGroup g' → g = g')
    (h : router.Routed scores perGroup token groups ids stores) :
    (router.torchIds scores perGroup topk).Perm ids := by
  obtain ⟨hexperts, hper, htopkGroup, -, htopK⟩ := validateGeometry_ok hgeometry
  unfold torchIds
  dsimp only
  obtain ⟨order, hperm, hlen, htop⟩ := topk.best router.numExpertGroup
    (router.torchGroupScore scores perGroup topk) router.topkGroup htopkGroup
  have hsame : order = groups := by
    refine (isTop_coe (fun g _ => torchGroupScore_eq topk hper hkernel g) htop).unique
      h.bestGroups List.nodup_range (hlen.trans h.numGroups.symm) fun g hg g' hg' => ?_
    exact hgroups g (List.mem_range.mp hg) g' (List.mem_range.mp hg')
  set groupIdx := topk.indices router.numExpertGroup (router.torchGroupScore scores perGroup topk)
    router.topkGroup
  have hkeptGroups : ∀ g, g ∈ groupIdx ↔ g ∈ groups := fun g => by
    rw [← hperm.mem_iff, hsame]
  set tmpScores : Nat → WithBot K := fun e =>
    if e / perGroup ∈ groupIdx then router.biased scores e else ⊥
  have hmany := length_keptExperts hexperts hper h.bestGroups.nodup h.bestGroups.subset
  rw [h.numGroups] at hmany
  have hkept : router.keptExperts perGroup groups ⊆ List.range router.nExperts :=
    List.filter_subset_self _
  have hnodup : (router.keptExperts perGroup groups).Nodup := List.nodup_range.filter _
  have hvalue : ∀ e ∈ router.keptExperts perGroup groups, tmpScores e = router.biased scores e :=
    fun e he => if_pos ((hkeptGroups _).mpr (mem_keptExperts.mp he).2)
  obtain ⟨order', hperm', hlen', htop'⟩ := topk.best router.nExperts tmpScores router.topK (by
    have hfew := hnodup.length_le_of_subset hkept
    rw [List.length_range] at hfew
    omega)
  -- An expert of a group that is out would leave out one of too few.
  have hpicked : order' ⊆ router.keptExperts perGroup groups := by
    intro j hj
    by_contra hout
    have hrange := htop'.subset hj
    have hbot : tmpScores j = ⊥ := if_neg fun hmem =>
      hout (mem_keptExperts.mpr ⟨List.mem_range.mp hrange, (hkeptGroups _).mp hmem⟩)
    have hall : router.keptExperts perGroup groups ⊆ order' := by
      intro e he
      by_contra hnot
      have hle := htop'.rest e (hkept he) hnot j hj
      rw [hbot, hvalue e he, le_bot_iff] at hle
      exact WithBot.coe_ne_bot hle
    have hfull := (List.nodup_cons.mpr ⟨hout, hnodup⟩).length_le_of_subset
      (List.cons_subset.mpr ⟨hj, hall⟩)
    rw [List.length_cons] at hfull
    omega
  have hids : order' = ids := by
    refine (isTop_coe hvalue (htop'.restrict hpicked hkept)).unique h.bestIds hnodup
      (hlen'.trans h.numIds.symm) fun i hi j hj => ?_
    exact hbiased i (mem_keptExperts.mp hi).1 j (mem_keptExperts.mp hj).1
  exact hperm'.symm.trans (List.Perm.of_eq hids)

/-- The pairs of the reference are its picks with their weights. -/
theorem torchRow_eq (hperm : (router.torchIds scores perGroup topk).Perm ids) :
    router.torchRow scores perGroup topk =
      (router.torchIds scores perGroup topk).map fun e => (e, router.weight scores ids e) := by
  unfold torchRow
  dsimp only
  generalize router.torchIds scores perGroup topk = picks at hperm ⊢
  have hsum : (picks.map scores).sum = (ids.map scores).sum := (hperm.map scores).sum_eq
  have hweights : (let weights := picks.map scores
      let weights := if router.renormalize then weights.map (· / weights.sum) else weights
      if router.routedScalingFactor ≠ 1 then weights.map (· * router.routedScalingFactor)
      else weights) = picks.map (router.weight scores ids) := by
    unfold weight
    dsimp only
    rw [hsum]
    by_cases hscale : router.routedScalingFactor = 1
    · rw [if_neg (not_not_intro hscale), hscale]
      split
      · rw [List.map_map]
        exact List.map_congr_left fun e _ => (mul_one _).symm
      · exact List.map_congr_left fun e _ => (mul_one _).symm
    · rw [if_pos hscale]
      split
      · rw [List.map_map, List.map_map]
        rfl
      · rw [List.map_map]
        rfl
  exact (congrArg picks.zip hweights).trans List.map_prod_left_eq_zip.symm

end Reference

theorem kernel_pairs (topk : TorchTopk (WithBot K))
    (hgeometry : validateGeometry router.nExperts router.topK router.numExpertGroup
      router.topkGroup = .ok perGroup)
    (hkernel : router.kernelable perGroup)
    (hbiased : ∀ i < router.nExperts, ∀ j < router.nExperts,
      router.biased scores i = router.biased scores j → i = j)
    (hgroups : ∀ g < router.numExpertGroup, ∀ g' < router.numExpertGroup,
      router.groupScore scores perGroup g = router.groupScore scores perGroup g' → g = g')
    (token : Nat) :
    ((router.groupedTopkKernel scores perGroup token).map fun store => (store.id, store.weight)).Perm
      (router.torchRow scores perGroup topk) := by
  obtain ⟨groups, ids, hrouted⟩ := kernel_routed hgeometry hkernel token
  have hids : (router.torchIds scores perGroup topk).Perm ids :=
    torchIds_perm hgeometry hkernel hbiased hgroups hrouted
  rw [torchRow_eq hids]
  refine (hrouted.columns.map _).trans (List.Perm.trans (List.Perm.of_eq ?_) (hids.symm.map _))
  rw [List.map_map]
  calc (ids.zipIdx.map fun pick => (pick.1, router.weight scores ids pick.1))
      = (ids.zipIdx.map Prod.fst).map fun e => (e, router.weight scores ids e) := by
        rw [List.map_map]
        rfl
    _ = ids.map fun e => (e, router.weight scores ids e) := by rw [List.zipIdx_map_fst]

/-- **Grouped routing.** For every geometry that is accepted and a row whose scores differ, the
pairs are those of the reference. The kernel, where it serves the call, stores each column of the
row once: the best experts of the best groups, the best first, each with the weight of its score
without the bias. -/
theorem groupedTopk_routes (router : GroupedRouter K) (scores : Nat → K)
    (topk : TorchTopk (WithBot K)) (cudaFp32 : Bool) (token perGroup : Nat)
    (hgeometry : validateGeometry router.nExperts router.topK router.numExpertGroup
      router.topkGroup = .ok perGroup)
    (hbiased : ∀ i < router.nExperts, ∀ j < router.nExperts,
      router.biased scores i = router.biased scores j → i = j)
    (hgroups : ∀ g < router.numExpertGroup, ∀ g' < router.numExpertGroup,
      router.groupScore scores perGroup g = router.groupScore scores perGroup g' → g = g') :
    ∃ stores, router.groupedTopk scores topk cudaFp32 token = .ok stores ∧
      (cudaFp32 && router.kernelable perGroup →
        stores = router.groupedTopkKernel scores perGroup token ∧
        ∃ groups ids, router.Routed scores perGroup token groups ids stores) ∧
      (stores.map fun store => (store.id, store.weight)).Perm
        (router.torchRow scores perGroup topk) := by
  unfold groupedTopk
  rw [hgeometry, ok_bind]
  by_cases hserved : cudaFp32 && router.kernelable perGroup
  · rw [if_pos hserved]
    have hkernel : router.kernelable perGroup := (Bool.and_eq_true_iff.mp hserved).2
    exact ⟨_, rfl, fun _ => ⟨rfl, kernel_routed hgeometry hkernel token⟩,
      kernel_pairs topk hgeometry hkernel hbiased hgroups token⟩
  · rw [if_neg hserved]
    refine ⟨_, rfl, fun h => absurd h hserved, List.Perm.of_eq ?_⟩
    rw [List.map_map]
    exact List.zipIdx_map_fst 0 _

end GroupedRouter

/-! ### A routed row -/

/-- The positions of the largest values, by a stable sort. -/
def sortedIndices {V : Type} [LinearOrder V] (n : Nat) (value : Nat → V) (k : Nat) : List Nat :=
  ((List.range n).mergeSort fun i j => decide (value j ≤ value i)).take k

theorem sortedIndices_best {V : Type} [LinearOrder V] (n : Nat) (value : Nat → V) (k : Nat)
    (hk : k ≤ n) : ∃ order, order.Perm (sortedIndices n value k) ∧ order.length = k ∧
      IsTop value (List.range n) order := by
  have hperm := List.mergeSort_perm (List.range n) fun i j => decide (value j ≤ value i)
  have hsorted := pairwise_descending value (List.range n)
  unfold sortedIndices
  generalize (List.range n).mergeSort (fun i j => decide (value j ≤ value i)) = sorted at *
  refine ⟨_, List.Perm.refl _, ?_, ?_, ?_, ?_, ?_⟩
  · rw [List.length_take, hperm.length_eq, List.length_range, Nat.min_eq_left hk]
  · exact (List.take_sublist _ _).nodup (hperm.nodup_iff.mpr List.nodup_range)
  · exact fun i hi => hperm.subset (List.mem_of_mem_take hi)
  · exact hsorted.sublist (List.take_sublist _ _)
  · intro i hi hnot j hj
    rw [← List.take_append_drop k sorted] at hsorted
    have hrest := hperm.mem_iff.mpr hi
    rw [← List.take_append_drop k sorted, List.mem_append] at hrest
    exact (List.pairwise_append.mp hsorted).2.2 j hj i (hrest.resolve_left hnot)

def sortedTopk (V : Type) [LinearOrder V] : TorchTopk V where
  indices := sortedIndices
  best := sortedIndices_best

namespace GroupedRouter

/-- Three groups of two experts, two groups kept. -/
def threeGroups : GroupedRouter ℚ where
  nExperts := 6
  topK := 3
  numExpertGroup := 3
  topkGroup := 2
  renormalize := true
  routedScalingFactor := 5 / 2
  eScoreCorrectionBias := some fun e => if e = 4 then 1 else 0

def sixScores (e : Nat) : ℚ := [1 / 10, 3 / 10, 1 / 5, 1 / 20, 1 / 4, 2 / 25].getD e 0

theorem threeGroups_routes :
    ∃ stores, threeGroups.groupedTopk sixScores (sortedTopk _) true 7 = .ok stores ∧
      (true && threeGroups.kernelable 2 →
        stores = threeGroups.groupedTopkKernel sixScores 2 7 ∧
        ∃ groups ids, threeGroups.Routed sixScores 2 7 groups ids stores) ∧
      (stores.map fun store => (store.id, store.weight)).Perm
        (threeGroups.torchRow sixScores 2 (sortedTopk _)) := by
  have hscore : ∀ g, threeGroups.groupScore sixScores 2 g =
      threeGroups.biased sixScores (g * 2) + threeGroups.biased sixScores (g * 2 + 1) := by
    intro g
    have hperm := List.mergeSort_perm
      ((List.range 2).map fun i => threeGroups.biased sixScores (g * 2 + i))
      fun a b => decide (b ≤ a)
    have htake := List.take_of_length_le (i := 2) (Nat.le_of_eq hperm.length_eq)
    calc threeGroups.groupScore sixScores 2 g = _ := congrArg List.sum htake
      _ = _ := hperm.sum_eq
      _ = _ := by rw [List.range_succ, List.range_one, List.map_append, List.sum_append,
        List.map_singleton, List.map_singleton, List.sum_singleton, List.sum_singleton,
        Nat.add_zero]
  have hdiffer : ∀ g < 3, ∀ g' < 3,
      threeGroups.biased sixScores (g * 2) + threeGroups.biased sixScores (g * 2 + 1) =
        threeGroups.biased sixScores (g' * 2) + threeGroups.biased sixScores (g' * 2 + 1) →
      g = g' := by decide +kernel
  refine groupedTopk_routes threeGroups sixScores (sortedTopk _) true 7 2 rfl (by decide +kernel) ?_
  intro g hg g' hg' hsame
  rw [hscore, hscore] at hsame
  exact hdiffer g hg g' hg' hsame

end GroupedRouter

end RapidLlm
