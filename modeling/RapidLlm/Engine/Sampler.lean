import Mathlib.Algebra.BigOperators.Ring.List
import Mathlib.Algebra.Order.Field.Basic
import Mathlib.Analysis.SpecialFunctions.Log.Basic
import Mathlib.Data.List.GetD
import RapidLlm.Lib.Lockstep
import RapidLlm.Lib.Rectangle
import RapidLlm.Lib.TopPicks

/-!
# RapidLlm.Engine.Sampler

**Nucleus sampling and the greedy pick, over a vocabulary and over its slices** (`sample_top_p`,
`sharded_top_p` and `global_argmax` of `engine/sampler.py`), one row of a batch.

Numbers are those of an ordered field, and arithmetic is exact. `torch.topk` is any function that
returns the best positions in descending order, ties broken as it likes; `exp` and `log` are
functions with the laws of `ExpLog`. Every rank runs the source's function on its own slice and
meets the others in the collectives.
-/

namespace RapidLlm

/-! ### The draw -/

/-- What `_draw_from_nucleus` is given: a descending pool with its ids, and the threshold. -/
structure Candidates (K : Type) where
  topProbs : List K
  topIdx : List Nat
  topP : K
  deriving DecidableEq, Repr

/-- `top_p`: a float, or a tensor with a threshold for each row. -/
inductive TopP (K : Type)
  | scalar (p : K)
  | rows (p : K)

/-- What a token is drawn from: the whole distribution, or a nucleus. -/
inductive Draw (K : Type)
  | categorical (probs : List K)
  | nucleus (candidates : Candidates K)

/-- Entries of a tensor, at positions of it. -/
def taken {K : Type} [Zero K] (values : List K) (positions : List Nat) : List K :=
  positions.map fun i => values.getD i 0

/-- A candidate pool, clamped to what there is. -/
def poolWidth (k : Option Nat) (n : Nat) : Nat :=
  match k with
  | none => n
  | some k => min k n

namespace Candidates

variable {K : Type} [Field K] [LinearOrder K] (pool : Candidates K)

/-- `torch.cumsum(top_probs)`. -/
def cumulative : List K :=
  (List.range pool.topProbs.length).map fun i => (pool.topProbs.take (i + 1)).sum

/-- `drop_mask`: the mass before a token already exceeds `top_p`, in a pool that exceeds it. -/
def dropMask : List Bool :=
  (pool.cumulative.zipWith (· - ·) pool.topProbs).map fun before =>
    decide (before > pool.topP) && decide (pool.cumulative.getLastD 0 > pool.topP)

/-- `top_probs` after the mask, renormalised. -/
def weights : List K :=
  let masked := pool.topProbs.zipWith (fun (p : K) (drop : Bool) => if drop then 0 else p)
    pool.dropMask
  masked.map (· / masked.sum)

/-- The tokens the mask leaves. -/
def kept : List Nat :=
  ((pool.topIdx.zip pool.dropMask).filter fun pair => !pair.2).map Prod.fst

/-- `_draw_from_nucleus`. -/
def drawFromNucleus (multinomial : List K → Nat) : Nat :=
  pool.topIdx.getD (multinomial pool.weights) 0

end Candidates

section Source

variable {K : Type} [Field K] [LinearOrder K] (topk : List K → Nat → List Nat)

/-- `sample_top_p`, up to the draw. -/
def sampleTopP (probs : List K) (topP : TopP K) (k : Option Nat) : Draw K :=
  let picks := topk probs (poolWidth k probs.length)
  match topP with
  | .scalar p =>
      if p = 1 then .categorical probs
      else .nucleus {
        topProbs := taken probs picks
        topIdx := picks
        topP := p }
  | .rows p => .nucleus {
      topProbs := taken probs picks
      topIdx := picks
      topP := p }

/-- The token drawn. -/
def Draw.token (multinomial : List K → Nat) : Draw K → Nat
  | .categorical probs => multinomial probs
  | .nucleus candidates => candidates.drawFromNucleus multinomial

/-! ### Slices of a vocabulary -/

/-- A collective over the ranks of a tensor-parallel group. -/
inductive SamplerCall
  | allReduceMax
  | allReduce
  | allGather
  deriving DecidableEq, Repr

/-- What a rank brings to a collective, for one row: values, or ids. -/
structure SamplerWire (K : Type) where
  values : List K := []
  ids : List Nat := []

/-- `tensor.amax(dim=-1)`. -/
def amax (values : List K) : K := values.tail.foldl max (values.headD 0)

/-- `tensor.amin(dim=-1)`, of ids. -/
def amin (ids : List Nat) : Nat := ids.tail.foldl min (ids.headD 0)

/-- What the collectives answer. -/
def samplerWire {tp : Nat} (call : SamplerCall) (brought : Fin tp → SamplerWire K) :
    SamplerWire K :=
  let values := (List.finRange tp).flatMap fun rank : Fin tp => (brought rank).values
  match call with
  | .allReduceMax => { values := [amax values] }
  | .allReduce => { values := [values.sum] }
  | .allGather => {
      values := values
      ids := (List.finRange tp).flatMap fun rank : Fin tp => (brought rank).ids }

/-- `tensor_model_parallel_all_reduce_max`, of a value for each row. -/
def allReduceMaxRow (value : K) : Script SamplerCall (SamplerWire K) K :=
  .enter .allReduceMax { values := [value] } fun answer => .done (answer.values.headD 0)

/-- `tensor_model_parallel_all_reduce`, of a value for each row. -/
def allReduceRow (value : K) : Script SamplerCall (SamplerWire K) K :=
  .enter .allReduce { values := [value] } fun answer => .done (answer.values.headD 0)

/-- `tensor_model_parallel_all_gather`, of values. -/
def allGatherValues (values : List K) : Script SamplerCall (SamplerWire K) (List K) :=
  .enter .allGather { values := values } fun answer => .done answer.values

/-- `tensor_model_parallel_all_gather`, of ids. -/
def allGatherIds (ids : List Nat) : Script SamplerCall (SamplerWire K) (List Nat) :=
  .enter .allGather { ids := ids } fun answer => .done answer.ids

/-- `torch.iinfo(torch.int64).max`. -/
def maxId : Nat := 2 ^ 63 - 1

/-- `global_argmax`. -/
def globalArgmax (localLogits : List K) (vocabOffset : Nat) :
    Script SamplerCall (SamplerWire K) Nat := do
  let localBest := amax localLogits
  -- the first position that holds it
  let localId := localLogits.idxOf localBest
  let best ← allReduceMaxRow localBest
  let candidate := if localBest = best then localId + vocabOffset else maxId
  let candidates ← allGatherIds [candidate]
  return amin candidates

variable (exp log : K → K)

/-- `vocab_logsumexp`. -/
def vocabLogsumexp (scaled : List K) : Script SamplerCall (SamplerWire K) K := do
  let rowMax ← allReduceMaxRow (amax scaled)
  let rowSum ← allReduceRow (scaled.map fun x => exp (x - rowMax)).sum
  return rowMax + log rowSum

/-- The candidate gather of `sharded_top_p`: each rank's best, with their global ids. -/
def shardedPool (scaled : List K) (vocabOffset : Nat) (k : Option Nat) :
    Script SamplerCall (SamplerWire K) (List K × List Nat) := do
  let localIds := topk scaled (poolWidth k scaled.length)
  let pool ← allGatherValues (taken scaled localIds)
  let poolIds ← allGatherIds (localIds.map (· + vocabOffset))
  return (pool, poolIds)

/-- `sharded_top_p`, up to the draw. -/
def shardedTopP (localLogits : List K) (temperature topP : K) (vocabOffset : Nat)
    (k : Option Nat) : Script SamplerCall (SamplerWire K) (Candidates K) := do
  let scaled := localLogits.map (· / temperature)
  let logZ ← vocabLogsumexp exp log scaled
  let gathered ← shardedPool topk scaled vocabOffset k
  let probs := gathered.1.map fun x => exp (x - logZ)
  let order := topk probs (poolWidth k gathered.1.length)
  return {
    topProbs := taken probs order
    topIdx := order.map fun i => gathered.2.getD i 0
    topP := topP }

end Source

/-! ### What is asked of them -/

section Spec

variable {K : Type} [Field K] [LinearOrder K]

/-- The positions of the best `k` values, in descending order. -/
structure BestK (values : List K) (k : Nat) (picks : List Nat) : Prop where
  top : IsTop (fun i => values.getD i 0) (List.range values.length) picks
  length : picks.length = k

/-- `torch.topk` returns the best `k` of at least `k` values. -/
def TorchTopK (topk : List K → Nat → List Nat) : Prop :=
  ∀ values k, k ≤ values.length → BestK values k (topk values k)

/-- The laws of `exp` and `log`. -/
structure ExpLog (exp log : K → K) : Prop where
  add : ∀ a b, exp (a + b) = exp a * exp b
  pos : ∀ a, 0 < exp a
  strictMono : StrictMono exp
  exp_log : ∀ a, 0 < a → exp (log a) = a

/-- The full-vocabulary distribution. -/
def softmax (exp : K → K) (values : List K) : List K :=
  values.map fun x => exp x / (values.map exp).sum

/-- A row in descending order. -/
def descendingRow (values : List K) : List K := values.mergeSort fun a b => decide (b ≤ a)

/-- The kept tokens are the smallest prefix of a descending order of the full vocabulary whose
mass exceeds the threshold. -/
def IsNucleus (probs : List K) (threshold : K) (kept : List Nat) : Prop :=
  ∃ order : List Nat, order.Perm (List.range probs.length) ∧
    (order.Pairwise fun i j => probs.getD j 0 ≤ probs.getD i 0) ∧
    ∃ m, kept = order.take m ∧ threshold < (taken probs (order.take m)).sum ∧
      ∀ n < m, (taken probs (order.take n)).sum ≤ threshold

/-- A rank's slice of a row. -/
def vocabSlice (row : List K) (width rank : Nat) : List K := (row.drop (rank * width)).take width

end Spec

/-! ### The nucleus -/

section Nucleus

variable {K : Type} [Field K] [LinearOrder K] [IsStrictOrderedRing K] {pool : Candidates K}
  {probs : List K}

omit [LinearOrder K] in
theorem taken_length (values : List K) (positions : List Nat) :
    (taken values positions).length = positions.length :=
  List.length_map ..

/-- Dropping by a mask that starts to hold at `m` keeps the first `m`. -/
theorem filter_mask {α : Type} {m : Nat} : ∀ {f : Nat → Bool} {xs : List α},
    (∀ i, f i = false ↔ i < m) →
      ((xs.zip ((List.range xs.length).map f)).filter fun pair => !pair.2).map Prod.fst =
        xs.take m := by
  induction m with
  | zero =>
    intro f xs hf
    rw [List.take_zero, List.map_eq_nil_iff, List.filter_eq_nil_iff]
    intro pair hpair
    obtain ⟨i, -, hi⟩ := List.mem_map.mp (List.of_mem_zip hpair).2
    have hdrop : f i = true := by
      rw [← Bool.not_eq_false, hf]
      exact Nat.not_lt_zero i
    rw [← hi, hdrop]
    decide
  | succ m ih =>
    intro f xs hf
    cases xs with
    | nil => rfl
    | cons x xs =>
      have hfirst : f 0 = false := (hf 0).mpr (Nat.succ_pos m)
      rw [List.length_cons, List.range_succ_eq_map, List.map_cons, List.map_map,
        List.zip_cons_cons, List.filter_cons, hfirst, List.take_succ_cons]
      have hrest := @ih (f ∘ Nat.succ) xs fun i =>
        (hf (i + 1)).trans Nat.succ_lt_succ_iff
      simpa using hrest

omit [IsStrictOrderedRing K] in
/-- In a pool that exceeds the threshold, a token is dropped where the mass before it does. -/
theorem Candidates.dropMask_eq (h : pool.topP < pool.topProbs.sum) :
    pool.dropMask = (List.range pool.topProbs.length).map fun i =>
      decide (pool.topP < (pool.topProbs.take i).sum) := by
  have hlen : pool.cumulative.length = pool.topProbs.length := by simp [Candidates.cumulative]
  have hlast : 0 < pool.topProbs.length → pool.cumulative.getLastD 0 = pool.topProbs.sum := by
    intro hpos
    rw [List.getLastD_eq_getLast?, List.getLast?_eq_getElem?, hlen, Candidates.cumulative,
      List.getElem?_map, List.getElem?_range (by omega), Option.map_some, Option.getD_some,
      Nat.sub_add_cancel (by omega), List.take_length]
  refine List.ext_getElem (by simp [dropMask, hlen]) fun i hi hi' => ?_
  have hlt : i < pool.topProbs.length := by simpa using hi'
  simp only [dropMask, List.getElem_map, List.getElem_zipWith, List.getElem_range,
    hlast (Nat.zero_lt_of_lt hlt), gt_iff_lt, h, decide_true, Bool.and_true]
  simp only [cumulative, List.getElem_map, List.getElem_range,
    List.take_succ_eq_append_getElem hlt, List.sum_append, List.sum_singleton,
    add_sub_cancel_right]

/-- **What the mask keeps.** Over a pool of the best tokens whose mass exceeds the threshold,
the kept tokens are the nucleus of the full vocabulary. -/
theorem Candidates.isNucleus (hnonneg : ∀ p ∈ probs, 0 ≤ p)
    (htop : IsTop (fun i => probs.getD i 0) (List.range probs.length) pool.topIdx)
    (hprobs : pool.topProbs = taken probs pool.topIdx) (h : pool.topP < pool.topProbs.sum) :
    IsNucleus probs pool.topP pool.kept := by
  obtain ⟨rest, hperm, hsorted⟩ := htop.exists_order List.nodup_range
  have htaken : ∀ p ∈ pool.topProbs, 0 ≤ p := by
    intro p hp
    rw [hprobs] at hp
    obtain ⟨i, hi, rfl⟩ := List.mem_map.mp hp
    have hlt := List.mem_range.mp (htop.subset hi)
    rw [List.getD_eq_getElem _ _ hlt]
    exact hnonneg _ (List.getElem_mem hlt)
  obtain ⟨m, hm, hmass, hbelow, hiff⟩ := exists_shortest htaken h
  have hlen : pool.topProbs.length = pool.topIdx.length := by
    rw [hprobs, taken_length]
  -- the mask keeps the shortest prefix of the pool, and the pool starts the full order
  have hkept : pool.kept = pool.topIdx.take m := by
    rw [kept, dropMask_eq h, hlen]
    refine filter_mask fun i => ?_
    rw [decide_eq_false_iff_not, not_lt]
    exact hiff i
  have htake : ∀ n ≤ m, (taken probs ((pool.topIdx ++ rest).take n)) = pool.topProbs.take n := by
    intro n hn
    rw [List.take_append_of_le_length (by omega), hprobs, taken, taken, List.map_take]
  refine ⟨pool.topIdx ++ rest, hperm, hsorted, m, ?_, ?_, fun n hn => ?_⟩
  · rw [hkept, List.take_append_of_le_length (by omega)]
  · rw [htake m (Nat.le_refl m)]
    exact hmass
  · rw [htake n (Nat.le_of_lt hn)]
    exact hbelow n hn

end Nucleus

/-! ### The slices of a row -/

section Slices

variable {K : Type} {tp width rank i : Nat} {row : List K}

theorem vocabSlice_length (hlen : row.length = tp * width) (hrank : rank < tp) :
    (vocabSlice row width rank).length = width := by
  have hle : (rank + 1) * width ≤ tp * width := Nat.mul_le_mul_right width hrank
  rw [Nat.succ_mul] at hle
  rw [vocabSlice, List.length_take, List.length_drop]
  omega

theorem vocabSlice_getElem? (hi : i < width) :
    (vocabSlice row width rank)[i]? = row[rank * width + i]? := by
  rw [vocabSlice, List.getElem?_take_of_lt hi, List.getElem?_drop]

theorem vocabSlice_getD [Zero K] (hi : i < width) :
    (vocabSlice row width rank).getD i 0 = row.getD (i + rank * width) 0 := by
  rw [List.getD_eq_getElem?_getD, vocabSlice_getElem? hi, Nat.add_comm,
    ← List.getD_eq_getElem?_getD]

theorem vocabSlice_map {L : Type} (f : K → L) :
    (vocabSlice row width rank).map f = vocabSlice (row.map f) width rank := by
  rw [vocabSlice, vocabSlice, List.map_take, List.map_drop]

/-- A position is in the slice of one rank. -/
theorem slice_lt (hi : i < tp * width) : i / width < tp ∧ i / width * width + i % width = i ∧
    i % width < width := by
  have hwidth : 0 < width := by
    rcases Nat.eq_zero_or_pos width with rfl | hpos
    · rw [Nat.mul_zero] at hi
      omega
    · exact hpos
  exact ⟨Nat.div_lt_of_lt_mul (Nat.mul_comm tp width ▸ hi), Nat.div_add_mod' i width,
    Nat.mod_lt i hwidth⟩

/-- The slices of the ranks make up the row. -/
theorem flatMap_vocabSlice (hlen : row.length = tp * width) :
    ((List.finRange tp).flatMap fun rank : Fin tp => vocabSlice row width rank) = row := by
  have hslices : ∀ n ≤ tp, ((List.range n).flatMap fun rank => vocabSlice row width rank) =
      row.take (n * width) := by
    intro n hn
    induction n with
    | zero => rw [Nat.zero_mul, List.take_zero, List.range_zero, List.flatMap_nil]
    | succ n ih =>
      rw [List.range_succ, List.flatMap_append, ih (Nat.le_of_succ_le hn),
        List.flatMap_singleton, Nat.succ_mul, List.take_add, vocabSlice]
  have hall := hslices tp (Nat.le_refl tp)
  rw [← hlen, List.take_length, ← List.map_coe_finRange_eq_range, List.flatMap_map] at hall
  exact hall

end Slices

section Sharded

variable {K : Type} [Field K] [LinearOrder K] {topk : List K → Nat → List Nat} {tp width : Nat}

/-! ### The collectives -/

/-- What a gather of values answers. -/
theorem allGatherValues_lockstep (values : Fin tp → List K) :
    Lockstep samplerWire (fun rank => allGatherValues (values rank)) [.allGather]
      fun _ => (List.finRange tp).flatMap values :=
  Lockstep.enter SamplerCall.allGather (fun rank => ({ values := values rank } : SamplerWire K))
    (fun _ answer => .done answer.values) (.done _)

theorem allGatherIds_lockstep (ids : Fin tp → List Nat) :
    Lockstep samplerWire (fun rank => (allGatherIds (ids rank) :
      Script SamplerCall (SamplerWire K) (List Nat))) [.allGather]
      fun _ => (List.finRange tp).flatMap ids :=
  Lockstep.enter SamplerCall.allGather (fun rank => ({ ids := ids rank } : SamplerWire K))
    (fun _ answer => .done answer.ids) (.done _)

theorem allReduceMaxRow_lockstep (value : Fin tp → K) :
    Lockstep samplerWire (fun rank => allReduceMaxRow (value rank)) [.allReduceMax]
      fun _ => amax ((List.finRange tp).flatMap fun rank => [value rank]) :=
  Lockstep.enter SamplerCall.allReduceMax
    (fun rank => ({ values := [value rank] } : SamplerWire K))
    (fun _ answer => .done (answer.values.headD 0)) (.done _)

theorem allReduceRow_lockstep (value : Fin tp → K) :
    Lockstep samplerWire (fun rank => allReduceRow (value rank)) [.allReduce]
      fun _ => ((List.finRange tp).flatMap fun rank => [value rank]).sum :=
  Lockstep.enter SamplerCall.allReduce (fun rank => ({ values := [value rank] } : SamplerWire K))
    (fun _ answer => .done (answer.values.headD 0)) (.done _)

/-! ### The normaliser -/

omit [LinearOrder K] in
/-- A sum rank by rank is the sum of the row. -/
theorem sum_slices {row : List K} (hlen : row.length = tp * width) (f : K → K) :
    ((List.finRange tp).flatMap fun rank : Fin tp =>
      [((vocabSlice row width rank).map f).sum]).sum = (row.map f).sum := by
  conv_rhs => rw [← flatMap_vocabSlice hlen, List.map_flatMap, List.flatMap, List.sum_flatten,
    List.map_map]
  rw [← List.map_eq_flatMap]
  rfl

section ExpLog

variable [IsStrictOrderedRing K] {exp log : K → K} (hexp : ExpLog exp log)

include hexp

/-- Shifting by the maximum and back leaves the quotient. -/
theorem exp_sub_logsumexp {row : List K} (hne : row ≠ []) (m x : K) :
    exp (x - (m + log (row.map fun y => exp (y - m)).sum)) = exp x / (row.map exp).sum := by
  have hpos : 0 < (row.map fun y => exp (y - m)).sum := by
    refine List.sum_pos _ (fun a ha => ?_) (by simpa using hne)
    obtain ⟨y, -, rfl⟩ := List.mem_map.mp ha
    exact hexp.pos _
  have hshift : ∀ y, exp (y - m) * exp m = exp y := fun y => by
    rw [← hexp.add, sub_add_cancel]
  have htotal : (row.map exp).sum = (row.map fun y => exp (y - m)).sum * exp m := by
    rw [← List.sum_map_mul_right]
    simp only [hshift]
  have hz : exp (m + log (row.map fun y => exp (y - m)).sum) = (row.map exp).sum := by
    rw [hexp.add, hexp.exp_log _ hpos, htotal, mul_comm]
  have hne : (row.map exp).sum ≠ 0 := by
    rw [← hz]
    exact (hexp.pos _).ne'
  rw [eq_div_iff hne, ← hz, ← hexp.add, sub_add_cancel]

/-- **The normaliser of every rank** is that of the whole row. -/
theorem vocabLogsumexp_lockstep {row : List K} (hlen : row.length = tp * width) (hne : row ≠ []) :
    ∃ logZ, Lockstep samplerWire
        (fun rank : Fin tp => vocabLogsumexp exp log (vocabSlice row width rank))
        [.allReduceMax, .allReduce] (fun _ => logZ) ∧
      ∀ x, exp (x - logZ) = exp x / (row.map exp).sum := by
  have hmax := allReduceMaxRow_lockstep fun rank : Fin tp =>
    amax (vocabSlice row width rank)
  let m := amax ((List.finRange tp).flatMap fun rank : Fin tp => [amax (vocabSlice row width rank)])
  have hsum := allReduceRow_lockstep fun rank : Fin tp =>
    ((vocabSlice row width rank).map fun x => exp (x - m)).sum
  rw [sum_slices hlen] at hsum
  refine ⟨m + log (row.map fun y => exp (y - m)).sum, ?_, exp_sub_logsumexp hexp hne m⟩
  exact hmax.bind (hsum.bind (.done _))

end ExpLog

/-! ### The pool -/

section Pool

variable {row : List K} {k : Option Nat}

/-- The ids of a rank's slice. -/
def sliceIds (width rank : Nat) : List Nat := (List.range width).map (· + rank * width)

theorem mem_sliceIds {width rank id : Nat} :
    id ∈ sliceIds width rank ↔ rank * width ≤ id ∧ id < (rank + 1) * width := by
  rw [sliceIds, List.mem_map, Nat.succ_mul]
  constructor
  · rintro ⟨i, hi, rfl⟩
    have := List.mem_range.mp hi
    omega
  · rintro ⟨hle, hlt⟩
    exact ⟨id - rank * width, List.mem_range.mpr (by omega), Nat.sub_add_cancel hle⟩

/-- The ids a rank offers. -/
def offeredIds (topk : List K → Nat → List Nat) (row : List K) (width : Nat) (k : Option Nat)
    (rank : Nat) : List Nat :=
  (topk (vocabSlice row width rank) (poolWidth k (vocabSlice row width rank).length)).map
    (· + rank * width)

/-- The ids of the gathered pool. -/
def gatheredIds (topk : List K → Nat → List Nat) (row : List K) (tp width : Nat)
    (k : Option Nat) : List Nat :=
  (List.finRange tp).flatMap fun rank : Fin tp => offeredIds topk row width k rank

theorem poolWidth_le (k : Option Nat) (n : Nat) : poolWidth k n ≤ n := by
  cases k with
  | none => exact Nat.le_refl n
  | some k => exact Nat.min_le_right k n

variable (htopk : TorchTopK topk) (hlen : row.length = tp * width)

include htopk hlen

/-- What a rank offers is the best of its slice. -/
theorem isTop_offeredIds {rank : Nat} (hrank : rank < tp) :
    IsTop (fun id => row.getD id 0) (sliceIds width rank) (offeredIds topk row width k rank) ∧
      (offeredIds topk row width k rank).length = poolWidth k width := by
  have hslice := vocabSlice_length hlen hrank
  obtain ⟨htop, hcount⟩ := htopk (vocabSlice row width rank)
    (poolWidth k (vocabSlice row width rank).length) (poolWidth_le ..)
  rw [hslice] at htop hcount
  refine ⟨?_, by rw [offeredIds, List.length_map, hslice, hcount]⟩
  rw [offeredIds, hslice]
  refine htop.map (fun i _ j _ h => Nat.add_right_cancel h) fun i hi j hj hle => ?_
  rwa [vocabSlice_getD (List.mem_range.mp hi), vocabSlice_getD (List.mem_range.mp hj)] at hle

/-- The pool every rank gathers: the offered ids with their values. -/
theorem shardedPool_lockstep :
    Lockstep samplerWire
      (fun rank : Fin tp => shardedPool topk (vocabSlice row width rank) (rank * width) k)
      [.allGather, .allGather]
      fun _ => (taken row (gatheredIds topk row tp width k), gatheredIds topk row tp width k) := by
  have hvalues := allGatherValues_lockstep fun rank : Fin tp =>
    taken (vocabSlice row width rank)
      (topk (vocabSlice row width rank) (poolWidth k (vocabSlice row width rank).length))
  have hids := allGatherIds_lockstep (K := K) fun rank : Fin tp => offeredIds topk row width k rank
  have htaken : ((List.finRange tp).flatMap fun rank : Fin tp => taken (vocabSlice row width rank)
      (topk (vocabSlice row width rank) (poolWidth k (vocabSlice row width rank).length))) =
      taken row (gatheredIds topk row tp width k) := by
    rw [taken, gatheredIds, List.map_flatMap]
    refine List.flatMap_congr fun rank _ => ?_
    rw [offeredIds, List.map_map, taken]
    refine List.map_congr_left fun i hi => ?_
    have hpick := (htopk (vocabSlice row width rank)
      (poolWidth k (vocabSlice row width rank).length) (poolWidth_le ..)).top.subset hi
    rw [vocabSlice_length hlen rank.isLt, List.mem_range] at hpick
    exact vocabSlice_getD hpick
  rw [htaken] at hvalues
  exact hvalues.bind (hids.bind (.done _))

theorem mem_gatheredIds {id : Nat} (h : id ∈ gatheredIds topk row tp width k) :
    id < tp * width := by
  obtain ⟨rank, -, hid⟩ := List.mem_flatMap.mp h
  have hslice := mem_sliceIds.mp ((isTop_offeredIds htopk hlen rank.isLt).1.subset hid)
  exact Nat.lt_of_lt_of_le hslice.2 (Nat.mul_le_mul_right width rank.isLt)

/-- An id is offered once. -/
theorem gatheredIds_nodup : (gatheredIds topk row tp width k).Nodup := by
  refine List.nodup_flatMap.mpr ⟨fun rank _ => (isTop_offeredIds htopk hlen rank.isLt).1.nodup,
    ?_⟩
  refine (List.nodup_finRange tp).imp fun {rank rank'} hne id hid hid' => hne (Fin.ext ?_)
  have hslice := mem_sliceIds.mp ((isTop_offeredIds htopk hlen rank.isLt).1.subset hid)
  have hslice' := mem_sliceIds.mp ((isTop_offeredIds htopk hlen rank'.isLt).1.subset hid')
  have hrank := Nat.lt_of_mul_lt_mul_right (Nat.lt_of_le_of_lt hslice.1 hslice'.2)
  have hrank' := Nat.lt_of_mul_lt_mul_right (Nat.lt_of_le_of_lt hslice'.1 hslice.2)
  omega

theorem gatheredIds_length :
    (gatheredIds topk row tp width k).length = tp * poolWidth k width := by
  rw [gatheredIds, List.length_flatMap, List.map_congr_left fun rank _ =>
    (isTop_offeredIds htopk hlen rank.isLt).2]
  simp

/-- **The best of the pool are the best of the row.** -/
theorem isTop_of_gathered {picks : List Nat} (htp : 0 < tp)
    (htop : IsTop (fun id => row.getD id 0) (gatheredIds topk row tp width k) picks)
    (hcount : picks.length = poolWidth k (gatheredIds topk row tp width k).length) :
    IsTop (fun id => row.getD id 0) (List.range (tp * width)) picks ∧
      picks.length = poolWidth k (tp * width) := by
  rw [gatheredIds_length htopk hlen] at hcount
  have hwidth : width ≤ tp * width := Nat.le_mul_of_pos_left width htp
  -- every rank offers as many as are picked, or its whole slice
  obtain ⟨count, hoffer, hpicked⟩ : ∃ count, poolWidth k width = min count width ∧
      picks.length ≤ count := by
    cases k with
    | none => exact ⟨tp * width, (Nat.min_eq_right hwidth).symm, hcount.le⟩
    | some k => exact ⟨k, rfl, hcount.le.trans (Nat.min_le_left ..)⟩
  have hslices : IsTop (fun id => row.getD id 0)
      ((List.finRange tp).flatMap fun rank : Fin tp => sliceIds width rank) picks :=
    IsTop.of_slices (fun rank _ => (isTop_offeredIds htopk hlen rank.isLt).1)
      (fun rank _ => by
        rw [(isTop_offeredIds htopk hlen rank.isLt).2, sliceIds, List.length_map,
          List.length_range, hoffer]) htop hpicked
  refine ⟨hslices.of_mem_iff fun id => ?_, ?_⟩
  · rw [List.mem_flatMap, List.mem_range]
    constructor
    · rintro ⟨rank, -, hid⟩
      exact Nat.lt_of_lt_of_le (mem_sliceIds.mp hid).2 (Nat.mul_le_mul_right width rank.isLt)
    · intro hid
      obtain ⟨hrank, heq, hi⟩ := slice_lt hid
      have hmem : id ∈ sliceIds width (id / width) :=
        mem_sliceIds.mpr ⟨by omega, by rw [Nat.succ_mul]; omega⟩
      exact ⟨⟨id / width, hrank⟩, List.mem_finRange _, hmem⟩
  · rw [hcount]
    cases k with
    | none => rfl
    | some k =>
      simp only [poolWidth]
      rcases Nat.le_total k width with hle | hle
      · have hk : k ≤ tp * k := Nat.le_mul_of_pos_left k htp
        rw [Nat.min_eq_left hle, Nat.min_eq_left hk, Nat.min_eq_left (hle.trans hwidth)]
      · rw [Nat.min_eq_right hle]

/-- The picks of the gathered pool, by position, are its best ids. -/
theorem isTop_positions [IsStrictOrderedRing K] {prob : K → K} (hmono : StrictMono prob)
    (htp : 0 < tp) :
    let ids := gatheredIds topk row tp width k
    let probs := (taken row ids).map prob
    let order := topk probs (poolWidth k (taken row ids).length)
    IsTop (fun id => row.getD id 0) (List.range (tp * width)) (order.map fun i => ids.getD i 0) ∧
      order.length = poolWidth k (tp * width) ∧ (order.map fun i => ids.getD i 0) ⊆ ids ∧
      taken probs order = (order.map fun i => ids.getD i 0).map fun id => prob (row.getD id 0) := by
  intro ids probs order
  have hidsLen : (taken row ids).length = ids.length := taken_length row ids
  have hprobsLen : probs.length = ids.length := by rw [List.length_map, hidsLen]
  have hget : ∀ i < ids.length, probs.getD i 0 = prob (row.getD (ids.getD i 0) 0) := by
    intro i hi
    rw [List.getD_eq_getElem _ _ (by omega), List.getElem_map]
    simp only [taken, List.getElem_map]
    rw [List.getD_eq_getElem ids _ hi]
  obtain ⟨htop, hcount⟩ := htopk probs (poolWidth k (taken row ids).length)
    (by rw [hprobsLen, hidsLen]; exact poolWidth_le ..)
  rw [hprobsLen] at htop
  have hids : (List.range ids.length).map (fun i => ids.getD i 0) = ids :=
    Rectangle.map_range_getD ids 0
  have hinj : ∀ i ∈ List.range ids.length, ∀ j ∈ List.range ids.length,
      ids.getD i 0 = ids.getD j 0 → i = j := by
    intro i hi j hj heq
    rw [List.mem_range] at hi hj
    rw [List.getD_eq_getElem _ _ hi, List.getD_eq_getElem _ _ hj] at heq
    exact (gatheredIds_nodup htopk hlen).getElem_inj_iff.mp heq
  have hpicks : IsTop (fun id => row.getD id 0) ids (order.map fun i => ids.getD i 0) := by
    have hmap : IsTop (fun id => row.getD id 0)
        ((List.range ids.length).map fun i => ids.getD i 0) (order.map fun i => ids.getD i 0) := by
      refine htop.map hinj fun i hi j hj hle => ?_
      rw [hget i (List.mem_range.mp hi), hget j (List.mem_range.mp hj)] at hle
      exact hmono.le_iff_le.mp hle
    rwa [hids] at hmap
  have hbest := isTop_of_gathered htopk hlen htp hpicks
    (by rw [List.length_map, hcount, hidsLen])
  refine ⟨hbest.1, by rw [← hbest.2, List.length_map], hpicks.subset, ?_⟩
  rw [taken, List.map_map]
  exact List.map_congr_left fun i hi => hget i (List.mem_range.mp (htop.subset hi))

end Pool

/-! ### The sharded draw -/

omit [LinearOrder K] in
theorem softmax_getD {exp : K → K} {values : List K} {i : Nat} (hi : i < values.length) :
    (softmax exp values).getD i 0 = exp (values.getD i 0) / (values.map exp).sum := by
  have hlen : i < (softmax exp values).length := by rwa [softmax, List.length_map]
  rw [List.getD_eq_getElem _ _ hlen, List.getD_eq_getElem _ _ hi]
  simp only [softmax, List.getElem_map]

section Draw

variable [IsStrictOrderedRing K] {exp log : K → K} {k : Option Nat}

/-- **What every rank draws from**: the best of the whole row, with their probabilities under the
full-vocabulary distribution. -/
theorem shardedTopP_lockstep (htopk : TorchTopK topk) (hexp : ExpLog exp log) (htp : 0 < tp)
    (hwidth : 0 < width) {row : List K} (hlen : row.length = tp * width) (temperature topP : K) :
    ∃ candidates, Lockstep samplerWire
        (fun rank : Fin tp => shardedTopP topk exp log (vocabSlice row width rank) temperature topP
          (rank * width) k)
        [.allReduceMax, .allReduce, .allGather, .allGather] (fun _ => candidates) ∧
      candidates.topP = topP ∧
      candidates.topIdx ⊆ gatheredIds topk (row.map (· / temperature)) tp width k ∧
      IsTop (fun id => (row.map (· / temperature)).getD id 0) (List.range (tp * width))
        candidates.topIdx ∧
      candidates.topIdx.length = poolWidth k (tp * width) ∧
      candidates.topProbs = taken (softmax exp (row.map (· / temperature))) candidates.topIdx := by
  let scaled := row.map (· / temperature)
  have hscaled : scaled.length = tp * width := by rw [List.length_map, hlen]
  have hne : scaled ≠ [] := by
    rw [← List.length_pos_iff, hscaled]
    exact Nat.mul_pos htp hwidth
  obtain ⟨logZ, hlogZ, hprob⟩ := vocabLogsumexp_lockstep hexp hscaled hne
  have hpool := shardedPool_lockstep (k := k) htopk hscaled
  have hmono : StrictMono fun x => exp (x - logZ) := fun x y hlt =>
    hexp.strictMono (sub_lt_sub_right hlt logZ)
  obtain ⟨htop, hcount, hsub, hprobs⟩ := isTop_positions (k := k) htopk hscaled hmono htp
  have hscripts : (fun rank : Fin tp => shardedTopP topk exp log (vocabSlice row width rank)
      temperature topP (rank * width) k) = fun rank : Fin tp =>
        vocabLogsumexp exp log (vocabSlice scaled width rank) >>= fun logZ =>
          shardedPool topk (vocabSlice scaled width rank) (rank * width) k >>= fun gathered =>
            .done {
              topProbs := taken (gathered.1.map fun x => exp (x - logZ))
                (topk (gathered.1.map fun x => exp (x - logZ)) (poolWidth k gathered.1.length))
              topIdx := (topk (gathered.1.map fun x => exp (x - logZ))
                (poolWidth k gathered.1.length)).map fun i => gathered.2.getD i 0
              topP := topP } := by
    funext rank
    rw [shardedTopP, vocabSlice_map]
    rfl
  rw [hscripts]
  refine ⟨_, hlogZ.bind (hpool.bind (.done _)), rfl, hsub, htop, ?_, ?_⟩
  · rw [List.length_map, hcount]
  · rw [hprobs, taken]
    refine List.map_congr_left fun id hid => ?_
    have hlt : id < scaled.length := hscaled ▸ List.mem_range.mp (htop.subset hid)
    rw [softmax_getD hlt, hprob]

end Draw

/-! ### The greedy pick -/

section Greedy

omit [Field K] in
theorem foldl_max_spec : ∀ (values : List K) (first : K),
    values.foldl max first ∈ first :: values ∧ ∀ a ∈ first :: values, a ≤ values.foldl max first
  | [], first => ⟨List.mem_cons_self, fun a ha => (List.mem_singleton.mp ha).le⟩
  | value :: values, first => by
      obtain ⟨hmem, hle⟩ := foldl_max_spec values (max first value)
      refine ⟨?_, fun a ha => ?_⟩
      · rcases List.mem_cons.mp hmem with heq | hmem
        · rw [List.foldl_cons, heq]
          rcases max_choice first value with hmax | hmax <;> rw [hmax]
          · exact List.mem_cons_self
          · exact List.mem_cons_of_mem _ List.mem_cons_self
        · exact List.mem_cons_of_mem _ (List.mem_cons_of_mem _ hmem)
      · rcases List.mem_cons.mp ha with rfl | ha
        · exact (le_max_left a value).trans (hle _ List.mem_cons_self)
        · rcases List.mem_cons.mp ha with rfl | ha
          · exact (le_max_right first a).trans (hle _ List.mem_cons_self)
          · exact hle a (List.mem_cons_of_mem _ ha)

/-- The maximum of a row is one of its values, and none is larger. -/
theorem amax_spec {values : List K} (hne : values ≠ []) :
    amax values ∈ values ∧ ∀ a ∈ values, a ≤ amax values := by
  cases values with
  | nil => exact absurd rfl hne
  | cons first values => exact foldl_max_spec values first

theorem amin_eq {ids : List Nat} {id : Nat} (hmem : id ∈ ids) (hle : ∀ id' ∈ ids, id ≤ id') :
    amin ids = id := by
  have hfold : ∀ (ids : List Nat) (first : Nat), ids.foldl min first ∈ first :: ids ∧
      ∀ a ∈ first :: ids, ids.foldl min first ≤ a := foldl_max_spec (K := Natᵒᵈ)
  cases ids with
  | nil => cases hmem
  | cons first ids =>
    obtain ⟨hfirst, hleast⟩ := hfold ids first
    exact Nat.le_antisymm (hleast id hmem) (hle _ hfirst)

omit [Field K] in
theorem idxOf_le {a : K} : ∀ {values : List K} {i : Nat}, values[i]? = some a →
    values.idxOf a ≤ i
  | [], i, h => by cases h
  | value :: values, 0, h => by
      rw [List.getElem?_cons_zero, Option.some.injEq] at h
      rw [h, List.idxOf_cons_self]
  | value :: values, i + 1, h => by
      rw [List.getElem?_cons_succ] at h
      rcases eq_or_ne value a with rfl | hne
      · rw [List.idxOf_cons_self]
        exact Nat.zero_le _
      · rw [List.idxOf_cons_ne _ hne]
        exact Nat.succ_le_succ (idxOf_le h)

omit [Field K] in
theorem getElem?_idxOf {a : K} {values : List K} (h : a ∈ values) :
    values[values.idxOf a]? = some a := by
  rw [List.getElem?_eq_getElem (List.idxOf_lt_length_of_mem h), List.getElem_idxOf]

/-- **The greedy pick of every rank** is the lowest position that holds the row's maximum. -/
theorem globalArgmax_lockstep {row : List K} (htp : 0 < tp) (hwidth : 0 < width)
    (hlen : row.length = tp * width) (hfit : tp * width ≤ 2 ^ 63) :
    Lockstep samplerWire
      (fun rank : Fin tp => globalArgmax (vocabSlice row width rank) (rank * width))
      [.allReduceMax, .allGather] (fun _ => row.idxOf (amax row)) := by
  have hslice : ∀ rank : Fin tp, vocabSlice row width rank ≠ [] := fun rank => by
    rw [← List.length_pos_iff, vocabSlice_length hlen rank.isLt]
    exact hwidth
  have hrow : row ≠ [] := by
    rw [← List.length_pos_iff, hlen]
    exact Nat.mul_pos htp hwidth
  obtain ⟨hmem, hle⟩ := amax_spec hrow
  have hsliceLe : ∀ rank : Fin tp, amax (vocabSlice row width rank) ≤ amax row := fun rank =>
    hle _ (List.mem_of_mem_drop (List.mem_of_mem_take (amax_spec (hslice rank)).1))
  -- the slice of the lowest maximiser
  have hpos := getElem?_idxOf hmem
  have hlt : row.idxOf (amax row) < tp * width := hlen ▸ List.idxOf_lt_length_of_mem hmem
  obtain ⟨hrank, heq, hin⟩ := slice_lt hlt
  let holder : Fin tp := ⟨row.idxOf (amax row) / width, hrank⟩
  have hheld : (vocabSlice row width holder)[row.idxOf (amax row) % width]? = some (amax row) := by
    rw [vocabSlice_getElem? hin, heq]
    exact hpos
  have hholder : amax (vocabSlice row width holder) = amax row :=
    le_antisymm (hsliceLe holder)
      ((amax_spec (hslice holder)).2 _ (List.mem_of_getElem? hheld))
  have hbest : amax ((List.finRange tp).flatMap fun rank : Fin tp =>
      [amax (vocabSlice row width rank)]) = amax row := by
    have hin : amax row ∈ (List.finRange tp).flatMap fun rank : Fin tp =>
        [amax (vocabSlice row width rank)] :=
      List.mem_flatMap.mpr ⟨holder, List.mem_finRange _, List.mem_singleton.mpr hholder.symm⟩
    obtain ⟨hbestMem, hbestLe⟩ := amax_spec (List.ne_nil_of_mem hin)
    obtain ⟨rank, -, hrank⟩ := List.mem_flatMap.mp hbestMem
    exact le_antisymm ((List.mem_singleton.mp hrank).le.trans (hsliceLe rank)) (hbestLe _ hin)
  let candidate : Fin tp → Nat := fun rank =>
    if amax (vocabSlice row width rank) = amax row
    then (vocabSlice row width rank).idxOf (amax (vocabSlice row width rank)) + rank * width
    else maxId
  have hmax := allReduceMaxRow_lockstep fun rank : Fin tp =>
    amax (vocabSlice row width rank)
  rw [hbest] at hmax
  have hgather := allGatherIds_lockstep (K := K) fun rank : Fin tp => [candidate rank]
  have hmin : amin ((List.finRange tp).flatMap fun rank => [candidate rank]) =
      row.idxOf (amax row) := by
    have hatLeast : ∀ rank, row.idxOf (amax row) ≤ candidate rank := by
      intro rank
      by_cases hwins : amax (vocabSlice row width rank) = amax row
      · simp only [candidate, if_pos hwins]
        rw [hwins]
        have hwon := (amax_spec (hslice rank)).1
        rw [hwins] at hwon
        have hidx := List.idxOf_lt_length_of_mem hwon
        rw [vocabSlice_length hlen rank.isLt] at hidx
        have hat := getElem?_idxOf hwon
        rw [vocabSlice_getElem? hidx] at hat
        rw [Nat.add_comm]
        exact idxOf_le hat
      · simp only [candidate, if_neg hwins, maxId]
        omega
    refine amin_eq ?_ fun id hid => ?_
    · refine List.mem_flatMap.mpr ⟨holder, List.mem_finRange _, List.mem_singleton.mpr ?_⟩
      refine Nat.le_antisymm (hatLeast holder) ?_
      simp only [candidate, if_pos hholder]
      rw [hholder]
      have hfirst := idxOf_le hheld
      have hoff : holder.val * width + row.idxOf (amax row) % width = row.idxOf (amax row) := heq
      omega
    · obtain ⟨rank, -, hid⟩ := List.mem_flatMap.mp hid
      rw [List.mem_singleton.mp hid]
      exact hatLeast rank
  rw [← hmin]
  exact hmax.bind (hgather.bind (.done _))

end Greedy

/-! ### Sampling over the slices -/

section Sampling

variable [IsStrictOrderedRing K] {exp log : K → K}

omit [IsStrictOrderedRing K] in
theorem softmax_weight_nonneg (hexp : ExpLog exp log) {values : List K} {a : K}
    (h : a ∈ values.map exp) : 0 ≤ a := by
  obtain ⟨x, -, rfl⟩ := List.mem_map.mp h
  exact (hexp.pos x).le

theorem softmax_nonneg (hexp : ExpLog exp log) (values : List K) :
    ∀ p ∈ softmax exp values, 0 ≤ p := by
  intro p hp
  obtain ⟨x, -, rfl⟩ := List.mem_map.mp hp
  exact div_nonneg (hexp.pos x).le
    (List.sum_nonneg fun a ha => softmax_weight_nonneg hexp ha)

/-- What `sample_top_p` keeps is the nucleus of its distribution. -/
theorem sampleTopP_isNucleus (htopk : TorchTopK topk) {probs : List K}
    (hnonneg : ∀ p ∈ probs, 0 ≤ p)
    {topP : TopP K} {k : Option Nat} {candidates : Candidates K}
    (h : sampleTopP topk probs topP k = .nucleus candidates)
    (hmass : candidates.topP < candidates.topProbs.sum) :
    IsNucleus probs candidates.topP candidates.kept := by
  have hpicks := htopk probs (poolWidth k probs.length) (poolWidth_le ..)
  cases topP with
  | scalar p =>
    simp only [sampleTopP] at h
    split at h
    · cases h
    · cases h
      exact Candidates.isNucleus hnonneg hpicks.top rfl hmass
  | rows p =>
    cases h
    exact Candidates.isNucleus hnonneg hpicks.top rfl hmass

end Sampling

/-- `torch.topk` by sorting, ties in the order of the row. -/
def sortTopK (values : List K) (k : Nat) : List Nat :=
  ((List.range values.length).mergeSort fun i j =>
    decide (values.getD j 0 ≤ values.getD i 0)).take k

theorem sortTopK_spec : TorchTopK (sortTopK (K := K)) := by
  intro values k hk
  let order := (List.range values.length).mergeSort fun i j =>
    decide (values.getD j 0 ≤ values.getD i 0)
  have hperm : order.Perm (List.range values.length) := List.mergeSort_perm _ _
  have hsorted := pairwise_descending (fun i => values.getD i 0) (List.range values.length)
  have hsplit := List.take_append_drop k order
  have hpairs : (order.take k ++ order.drop k).Pairwise
      fun i j => values.getD j 0 ≤ values.getD i 0 := hsplit.symm ▸ hsorted
  refine ⟨⟨?_, ?_, ?_, ?_⟩, ?_⟩
  · exact ((hperm.nodup_iff).mpr List.nodup_range).sublist (List.take_sublist k order)
  · exact fun i hi => hperm.mem_iff.mp (List.mem_of_mem_take hi)
  · exact (List.pairwise_append.mp hpairs).1
  · intro i hi hout j hj
    have hmem : i ∈ order.take k ++ order.drop k := hsplit.symm ▸ hperm.mem_iff.mpr hi
    rcases List.mem_append.mp hmem with hin | hrest
    · exact absurd hin hout
    · exact (List.pairwise_append.mp hpairs).2.2 j hj i hrest
  · have hlen : order.length = values.length := hperm.length_eq.trans List.length_range
    rw [sortTopK, List.length_take]
    exact Nat.min_eq_left (hk.trans hlen.ge)

end Sharded

/-- The exponential and the logarithm of the reals. -/
theorem expLog_real : ExpLog Real.exp Real.log where
  add := Real.exp_add
  pos := Real.exp_pos
  strictMono := Real.exp_strictMono
  exp_log := fun _ => Real.exp_log

end RapidLlm
