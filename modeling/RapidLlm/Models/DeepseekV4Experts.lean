import RapidLlm.Lib.Tiling
import RapidLlm.Models.DeepseekV4Moe

/-!
# RapidLlm.Models.DeepseekV4Experts

**What a rank of DeepSeek-V4 computes from its own experts.** The lanes' slices of an expert add
up to it (`SwigluWeights.sum_slices`). Both methods leave the routed sum over the ids that are
places of the rank's stack: the expert loop where all of them are (`applyUnquantized_eq`), the
grouped GEMM where the others are past its tile of counts (`applyMxfp4_eq`). The loaders leave a
dense rank the slices of its lane, from stacked tensors and from one tensor per expert alike
(`LoadsSlice`), and a rank of the split the places of its run.
-/

namespace RapidLlm

open Finset (range)

variable {K : Type} [Field K] [LinearOrder K]

/-! ### Slices of an expert -/

namespace SwigluWeights

variable {act : K → K → K} {hidden : Nat} {weights weights' : SwigluWeights K} {inter : Nat}

/-- Matrices that agree inside their extents are the same expert. -/
structure Agrees (hidden inter : Nat) (weights weights' : SwigluWeights K) : Prop where
  gate : ∀ i < inter, ∀ k < hidden, weights.gate i k = weights'.gate i k
  up : ∀ i < inter, ∀ k < hidden, weights.up i k = weights'.up i k
  down : ∀ col < hidden, ∀ i < inter, weights.down col i = weights'.down col i

omit [LinearOrder K] in
theorem Agrees.apply_eq (h : Agrees hidden inter weights weights') (x : TokenRow K hidden) :
    weights.apply act inter x = weights'.apply act inter x := by
  funext col
  refine Finset.sum_congr rfl fun i hi => ?_
  have hi' := Finset.mem_range.mp hi
  have hgate : ∀ k : Fin hidden, x k * weights.gate i k = x k * weights'.gate i k := fun k => by
    rw [h.gate i hi' k k.isLt]
  have hup : ∀ k : Fin hidden, x k * weights.up i k = x k * weights'.up i k := fun k => by
    rw [h.up i hi' k k.isLt]
  rw [Finset.sum_congr rfl fun k _ => hgate k, Finset.sum_congr rfl fun k _ => hup k,
    h.down col col.isLt i hi']

omit [LinearOrder K] in
/-- The lanes' slices add up to the expert. -/
theorem sum_slices (weights : SwigluWeights K) (tpSize width : Nat) (x : TokenRow K hidden) :
    ∑ lane ∈ range tpSize, (weights.slice width lane).apply act width x =
      weights.apply act (tpSize * width) x := by
  funext col
  rw [Finset.sum_apply]
  exact Tiling.sum_equal_runs tpSize width fun i =>
    act (∑ k, x k * weights.gate i k) (∑ k, x k * weights.up i k) * weights.down col i

end SwigluWeights

/-! ### The all-reduce -/

/-- Tensors given row by row are summed row by row. -/
theorem allReduce_range {V : Type} [AddCommMonoid V] {tpSize n : Nat} (htp : 0 < tpSize)
    {locals : Nat → List V} {f : Nat → Nat → V}
    (h : ∀ lane < tpSize, locals lane = (List.range n).map (f lane)) :
    tensorModelParallelAllReduce tpSize locals =
      (List.range n).map fun t => ∑ lane ∈ range tpSize, f lane t := by
  rw [tensorModelParallelAllReduce, h 0 htp, List.length_map, List.length_range]
  refine List.map_congr_left fun t ht => Finset.sum_congr rfl fun lane hlane => ?_
  have ht' := List.mem_range.mp ht
  rw [h lane (Finset.mem_range.mp hlane), List.getD_eq_getElem _ _ (by simpa using ht'),
    List.getElem_map, List.getElem_range]

/-! ### The expert loop -/

/-- What a filter drops may be left out of a sum when it adds nothing. -/
theorem sum_map_filter {A M : Type} [AddCommMonoid M] {p : A → Bool} {f : A → M} {l : List A}
    (h : ∀ a ∈ l, ¬ p a = true → f a = 0) : ((l.filter p).map f).sum = (l.map f).sum := by
  induction l with
  | nil => rfl
  | cons a l ih =>
    have htail := ih fun b hb => h b (List.mem_cons_of_mem _ hb)
    by_cases ha : p a = true
    · rw [List.filter_cons_of_pos ha, List.map_cons, List.map_cons, List.sum_cons, List.sum_cons,
        htail]
    · rw [List.filter_cons_of_neg ha, List.map_cons, List.sum_cons, htail,
        h a List.mem_cons_self ha, zero_add]

section Unquantized

variable {fns : V4Functions K} {config : V4MoeConfig K} {n : Nat}
  {x : Nat → TokenRow K config.hiddenSize} {routing : V4Routing K} {loaded : LoadedExperts K}

/-- What the rank adds to a token's row: each id that is a place of its stack. -/
def LoadedExperts.routedSum (fns : V4Functions K) (config : V4MoeConfig K)
    (x : Nat → TokenRow K config.hiddenSize) (routing : V4Routing K) (loaded : LoadedExperts K)
    (t : Nat) : TokenRow K config.hiddenSize :=
  ∑ j ∈ range config.topK, if routing.ids t j < loaded.count then
    routing.weights t j •
      (loaded.expert (routing.ids t j)).apply (config.act fns) loaded.intermediate (x t)
  else 0

/-- Rounds over places of the stack add their contributions. -/
theorem LoadedExperts.foldlM_addExpert {experts : List Nat} (h : ∀ e ∈ experts, e < loaded.count)
    (final : Nat → TokenRow K config.hiddenSize) :
    experts.foldlM (loaded.addExpert fns config x routing) final = .ok fun t =>
      final t + (experts.map fun e => loaded.contribution fns config x routing e t).sum := by
  induction experts generalizing final with
  | nil => simp [pure, Except.pure]
  | cons e experts ih =>
    have he : loaded.addExpert fns config x routing final e =
        .ok fun t => final t + loaded.contribution fns config x routing e t :=
      if_neg (Nat.not_le.mpr (h e List.mem_cons_self))
    rw [List.foldlM_cons, he]
    refine (ih (fun e he => h e (List.mem_cons_of_mem _ he)) _).trans (congrArg Except.ok ?_)
    funext t
    rw [List.map_cons, List.sum_cons, add_assoc]

/-- A round past the stack raises. -/
theorem LoadedExperts.foldlM_addExpert_raises {experts : List Nat} {e : Nat} (he : e ∈ experts)
    (hpast : loaded.count ≤ e) (final final' : Nat → TokenRow K config.hiddenSize) :
    experts.foldlM (loaded.addExpert fns config x routing) final ≠ .ok final' := by
  induction experts generalizing final with
  | nil => exact absurd he List.not_mem_nil
  | cons head experts ih =>
    rw [List.foldlM_cons]
    intro h
    obtain ⟨next, hnext, hrest⟩ := bind_eq_ok.mp h
    rcases List.mem_cons.mp he with rfl | hmem
    · rw [LoadedExperts.addExpert, if_pos hpast] at hnext
      cases hnext
    · exact ih hmem next hrest

/-- An expert without a hit adds nothing. -/
theorem LoadedExperts.contribution_inactive {e t : Nat} (ht : t < n)
    (h : config.active n routing e = false) :
    loaded.contribution fns config x routing e t = 0 := by
  refine Finset.sum_eq_zero fun j hj => if_neg ?_
  intro hid
  have hhit : config.active n routing e = true :=
    List.any_eq_true.mpr ⟨t, List.mem_range.mpr ht,
      List.any_eq_true.mpr ⟨j, List.mem_range.mpr (Finset.mem_range.mp hj), decide_eq_true hid⟩⟩
  rw [h] at hhit
  cases hhit

/-- The contributions of all experts are the slots of the token. -/
theorem LoadedExperts.sum_contribution {t : Nat}
    (hids : ∀ j < config.topK, routing.ids t j < config.numExperts)
    (hlocal : ∀ j < config.topK, routing.ids t j < loaded.count) :
    ∑ e ∈ range config.numExperts, loaded.contribution fns config x routing e t =
      loaded.routedSum fns config x routing t := by
  unfold LoadedExperts.contribution LoadedExperts.routedSum
  rw [Finset.sum_comm]
  refine Finset.sum_congr rfl fun j hj => ?_
  have hj' := Finset.mem_range.mp hj
  rw [Finset.sum_ite_eq, if_pos (Finset.mem_range.mpr (hids j hj')), if_pos (hlocal j hj')]

/-- The loop over the active experts, with every id a place of the stack. -/
theorem LoadedExperts.applyUnquantized_eq (fns : V4Functions K)
    (x : Nat → TokenRow K config.hiddenSize) (routing : V4Routing K) (loaded : LoadedExperts K)
    (hids : ∀ t < n, ∀ j < config.topK, routing.ids t j < config.numExperts)
    (hlocal : ∀ t < n, ∀ j < config.topK, routing.ids t j < loaded.count) :
    loaded.applyUnquantized fns config n x routing =
      .ok ((List.range n).map (loaded.routedSum fns config x routing)) := by
  have hclasses : ¬ ((List.range n).any fun t => (List.range config.topK).any fun j =>
      decide (config.numExperts ≤ routing.ids t j)) = true := by
    simp only [List.any_eq_true, List.mem_range, decide_eq_true_eq, not_exists, not_and, not_le]
    exact hids
  rw [LoadedExperts.applyUnquantized, if_neg hclasses]
  have hplaces : ∀ e ∈ (List.range config.numExperts).filter (config.active n routing),
      e < loaded.count := by
    intro e he
    have hactive := (List.mem_filter.mp he).2
    simp only [V4MoeConfig.active, List.any_eq_true, List.mem_range, decide_eq_true_eq] at hactive
    obtain ⟨t, ht, j, hj, rfl⟩ := hactive
    exact hlocal t ht j hj
  dsimp only
  rw [LoadedExperts.foldlM_addExpert hplaces]
  refine congrArg Except.ok (List.map_congr_left fun t ht => ?_)
  have ht' := List.mem_range.mp ht
  rw [zero_add, ← LoadedExperts.sum_contribution (hids t ht') (hlocal t ht')]
  refine sum_map_filter fun e _ hdrop => LoadedExperts.contribution_inactive ht' ?_
  exact Bool.eq_false_iff.mpr hdrop

/-- An id past the stack raises. -/
theorem LoadedExperts.applyUnquantized_raises {t j : Nat} (ht : t < n) (hj : j < config.topK)
    (hid : routing.ids t j < config.numExperts) (hpast : loaded.count ≤ routing.ids t j)
    (out : List (TokenRow K config.hiddenSize)) :
    loaded.applyUnquantized fns config n x routing ≠ .ok out := by
  unfold LoadedExperts.applyUnquantized
  split
  · exact fun h => (by cases h)
  · intro h
    obtain ⟨final, hfinal, -⟩ := map_eq_ok.mp h
    have hactive : routing.ids t j ∈
        (List.range config.numExperts).filter (config.active n routing) := by
      refine List.mem_filter.mpr ⟨List.mem_range.mpr hid, ?_⟩
      exact List.any_eq_true.mpr ⟨t, List.mem_range.mpr ht,
        List.any_eq_true.mpr ⟨j, List.mem_range.mpr hj, decide_eq_true rfl⟩⟩
    exact LoadedExperts.foldlM_addExpert_raises hactive hpast _ _ hfinal

end Unquantized

/-! ### The grouped GEMM -/

section Mxfp4

variable {fns : V4Functions K} {config : V4MoeConfig K} {n : Nat}
  {x : Nat → TokenRow K config.hiddenSize} {routing : V4Routing K} {tile : MoeTile}
  {loaded : LoadedExperts K}

omit [LinearOrder K] in
/-- The reduction over the hidden columns. -/
theorem sum_hidden (x : TokenRow K n) (weight : Nat → K) :
    ∑ k ∈ range n, (if hk : k < n then x ⟨k, hk⟩ else 0) * weight k = ∑ k, x k * weight k := by
  rw [Finset.sum_range]
  exact Finset.sum_congr rfl fun k _ => by rw [dif_pos k.isLt]

/-- The activation of the call on a projected row. -/
theorem LoadedExperts.mxfp4Call_act (hinter : 0 < loaded.intermediate) (e t : Nat) {i : Nat}
    (hi : i < loaded.intermediate) :
    (loaded.mxfp4Call fns config n x routing tile hinter).act
        ((loaded.mxfp4Call fns config n x routing tile hinter).gateUp e
          ((loaded.mxfp4Call fns config n x routing tile hinter).hiddenStates t)) i =
      config.act fns (∑ k, x t k * (loaded.expert e).gate i k)
        (∑ k, x t k * (loaded.expert e).up i k) := by
  have hup : ¬ loaded.intermediate + i < loaded.intermediate := by omega
  refine congrArg₂ (config.act fns) ?_ ?_
  · rw [← sum_hidden]
    refine Finset.sum_congr rfl fun k _ => congrArg _ ?_
    exact if_pos hi
  · rw [← sum_hidden]
    refine Finset.sum_congr rfl fun k _ => congrArg _ ?_
    refine (if_neg hup).trans ?_
    exact congrArg (fun i => (loaded.expert e).up i k) (Nat.add_sub_cancel_left ..)

/-- The routed sum of the call is the rank's. -/
theorem LoadedExperts.mxfp4Call_routedSum (hinter : 0 < loaded.intermediate) (t : Nat)
    (col : Fin config.hiddenSize) :
    (loaded.mxfp4Call fns config n x routing tile hinter).routedSum t col =
      loaded.routedSum fns config x routing t col := by
  unfold RoutedCall.routedSum LoadedExperts.routedSum
  rw [Finset.sum_apply]
  refine Finset.sum_congr rfl fun j _ => ?_
  have hlocal : (loaded.mxfp4Call fns config n x routing tile hinter).IsLocal t j ↔
      routing.ids t j < loaded.count :=
    ⟨fun h => Int.ofNat_lt.mp h.2, fun h => ⟨Int.natCast_nonneg _, Int.ofNat_lt.mpr h⟩⟩
  by_cases h : routing.ids t j < loaded.count
  · rw [if_pos (hlocal.mpr h), if_pos h, Pi.smul_apply, smul_eq_mul]
    refine congrArg (routing.weights t j * ·) (Finset.sum_congr rfl fun i hi => ?_)
    have hi' : i < loaded.intermediate := Finset.mem_range.mp hi
    exact congrArg (· * _) (LoadedExperts.mxfp4Call_act hinter _ t hi')
  · rw [if_neg fun hl => h (hlocal.mp hl), if_neg h]
    rfl

/-- A call without a phantom id leaves the rank's routed sum and nothing else. -/
theorem LoadedExperts.applyMxfp4_eq (fns : V4Functions K) (x : Nat → TokenRow K config.hiddenSize)
    (tile : MoeTile) (hinter : 0 < loaded.intermediate) (hn : 0 < n)
    (hcount : 0 < loaded.count)
    (hids : ∀ t < n, ∀ j < config.topK, routing.ids t j < loaded.count ∨
      nextPowerOf2 loaded.count ≤ routing.ids t j) :
    ∃ leaves, loaded.applyMxfp4 fns config n x routing tile = .ok leaves ∧ ∀ out, leaves out ↔
      out = (List.range n).map (loaded.routedSum fns config x routing) := by
  have hregular : Regular (loaded.mxfp4Call fns config n x routing tile hinter).align := by
    refine RoutedCall.regular_iff.mpr
      ⟨Nat.mul_pos hn config.topK_pos, hcount, tile.blockM_pos, .inr ?_⟩
    rintro t ht j hj ⟨hlow, hhigh⟩
    have hlow' : loaded.count ≤ routing.ids t j := Int.ofNat_le.mp hlow
    have hhigh' : routing.ids t j < nextPowerOf2 loaded.count := Int.ofNat_lt.mp hhigh
    have := hids t ht j hj
    omega
  obtain ⟨executes, hok, ⟨run, hrun⟩, hall⟩ := (RoutedCall.promised_of_regular hregular).returns
  have hwritten : ∀ run, executes run → ∀ t < n, ∀ col : Fin config.hiddenSize,
      run.out (t, col) = some (loaded.routedSum fns config x routing t col) := by
    intro run hrun t ht col
    rw [(hall run hrun).summed t ht col col.isLt, LoadedExperts.mxfp4Call_routedSum]
  refine ⟨fun out => ∃ run, executes run ∧ run.ReadAs n out, ?_, fun out => ?_⟩
  · rw [LoadedExperts.applyMxfp4, dif_pos hinter, hok]
    rfl
  constructor
  · rintro ⟨run, hrun, hlen, hread⟩
    refine List.ext_getElem (by rw [hlen, List.length_map, List.length_range]) fun t ht ht' => ?_
    have htn : t < n := hlen ▸ ht
    rw [List.getElem_map, List.getElem_range]
    funext col
    have hcell := hread t htn col _ (hwritten run hrun t htn col)
    rwa [List.getD_eq_getElem _ _ ht] at hcell
  · rintro rfl
    refine ⟨run, hrun, by rw [List.length_map, List.length_range], fun t ht col v hv => ?_⟩
    rw [hwritten run hrun t ht col, Option.some.injEq] at hv
    rw [List.getD_eq_getElem _ _ (by simpa using ht), List.getElem_map, List.getElem_range, hv]

end Mxfp4

/-! ### Construction -/

section Create

variable {config : V4MoeConfig K} {ranks : ExpertRanks} {quant : Option DeepseekV4Fp8Config}
  {block : ExpertBlock}

/-- What a constructor that returns has checked. -/
theorem DeepseekV4MoE.create_inv (h : DeepseekV4MoE.create config ranks quant = .ok block) :
    ExpertBlock.create config.toMoeModelConfig ranks = .ok block ∧
      ∃ localInter, localInter * ranks.tpSize = config.moeIntermediateSize ∧
        ∀ fp8, quant = some fp8 → 32 ∣ localInter := by
  unfold DeepseekV4MoE.create at h
  dsimp only at h
  split at h
  · cases h
  split at h
  · cases h
  obtain ⟨block', hblock, h⟩ := bind_eq_ok.mp h
  obtain ⟨localInter, hdiv, h⟩ := bind_eq_ok.mp h
  obtain ⟨_, haligned, h⟩ := bind_eq_ok.mp h
  cases h
  refine ⟨hblock, localInter, (divide_inv hdiv).2, ?_⟩
  rintro fp8 rfl
  have hshard : fp8.scaleBlocks.shardIsAligned localInter = true := by
    by_contra hnot
    have hraises : checkShardAlignment (some fp8.scaleBlocks) localInter "MLP intermediate" =
        .error _ := if_neg hnot
    rw [Option.map_some, hraises] at haligned
    cases haligned
  have hgroup : ¬ (fp8.groupN ≤ 1 ∧ 2 ^ 30 ≤ fp8.groupK) := by
    rintro ⟨hle, -⟩
    have := Nat.le_of_dvd fp8.groupN_pos fp8.groupN_tiles
    omega
  rw [ScaleBlocks.shardIsAligned] at hshard
  change (if fp8.groupN ≤ 1 ∧ 2 ^ 30 ≤ fp8.groupK then true
    else decide (localInter % max fp8.groupN fp8.groupK = 0)) = true at hshard
  rw [if_neg hgroup, decide_eq_true_eq] at hshard
  have hmax : 128 ∣ max fp8.groupN fp8.groupK := by
    rcases max_choice fp8.groupN fp8.groupK with hm | hm
    · rw [hm]
      exact fp8.groupN_tiles
    · rw [hm]
      exact fp8.groupK_tiles
  exact (Dvd.intro 4 rfl : 32 ∣ 128).trans (hmax.trans (Nat.dvd_of_mod_eq_zero hshard))

/-- What is left of the constructor for a V4 config. -/
theorem DeepseekV4MoE.create_of_scoring (hscoring : config.scoringFunc = "sqrtsoftplus")
    (hshared : config.nSharedExperts = 1) : DeepseekV4MoE.create config ranks quant = (do
      let block ← ExpertBlock.create config.toMoeModelConfig ranks
      let localInter ← divide config.moeIntermediateSize ranks.tpSize "MLP intermediate"
      checkShardAlignment (quant.map DeepseekV4Fp8Config.scaleBlocks) localInter "MLP intermediate"
      pure block) := by
  unfold DeepseekV4MoE.create
  dsimp only
  rw [if_neg (not_not.mpr hscoring), if_neg (not_not.mpr hshared)]

/-- Without expert parallelism a rank has every expert, cut along the intermediate dimension. -/
theorem ExpertBlock.create_dense {config : MoeModelConfig}
    (hdense : ¬ (ranks.expertParallel = true ∧ 1 < ranks.epSize))
    (h : ExpertBlock.create config ranks = .ok block) :
    ∃ width, width * ranks.tpSize = config.moeIntermediateSize ∧
      block = ⟨config.hiddenSize, width, false, config.numExperts, 0⟩ := by
  rw [ExpertBlock.create, if_neg hdense] at h
  obtain ⟨width, hdiv, rfl⟩ := map_eq_ok.mp h
  exact ⟨width, (divide_inv hdiv).2, rfl⟩

/-- With it a rank has a run of whole experts. -/
theorem ExpertBlock.create_split {config : MoeModelConfig}
    (hsplit : ranks.expertParallel = true ∧ 1 < ranks.epSize)
    (h : ExpertBlock.create config ranks = .ok block) :
    ∃ numLocal, numLocal * ranks.epSize = config.numExperts ∧
      block = ⟨config.hiddenSize, config.moeIntermediateSize, true, numLocal,
        ranks.epRank * numLocal⟩ := by
  rw [ExpertBlock.create, if_pos hsplit] at h
  obtain ⟨numLocal, hdiv, rfl⟩ := map_eq_ok.mp h
  exact ⟨numLocal, (divide_inv hdiv).2, rfl⟩

end Create

/-! ### Loading a stacked checkpoint -/

section Stacked

variable {X : Type} {ranks : ExpertRanks} {param loaded : StackedParam X}

/-- A copy between tensors of one shape keeps the entries inside it. -/
theorem StackedParam.copyFrom_same (param loaded : StackedParam X)
    (hcount : loaded.count = param.count) (hrows : loaded.rows = param.rows)
    (hcols : loaded.cols = param.cols) :
    ∃ entry, param.copyFrom loaded = .ok { param with entry } ∧
      ∀ l < param.count, ∀ i < param.rows, ∀ j < param.cols,
        entry l i j = loaded.entry l i j := by
  have hexpands : expands loaded.count param.count ∧ expands loaded.rows param.rows ∧
      expands loaded.cols param.cols := by simp [expands, hcount, hrows, hcols]
  refine ⟨_, if_pos hexpands, fun l hl i hi j hj => ?_⟩
  rw [Grid.coord_eq (hcount ▸ hl), Grid.coord_eq (hrows ▸ hi), Grid.coord_eq (hcols ▸ hj)]

theorem StackedParam.copyExact_same (hcount : loaded.count = param.count)
    (hrows : loaded.rows = param.rows) (hcols : loaded.cols = param.cols) :
    param.copyExact loaded = .ok { param with entry := loaded.entry } := by
  have hshape : param.shape = loaded.shape := by simp [shape, hcount, hrows, hcols]
  exact if_neg (not_not.mpr hshape)

theorem StackedParam.narrowRows_inside {start length : Nat} (h : start + length ≤ loaded.rows) :
    loaded.narrowRows start length = .ok ⟨loaded.count, length, loaded.cols,
      fun l i => loaded.entry l (start + i)⟩ :=
  if_neg (not_lt.mpr h)

theorem StackedParam.narrowCols_inside {start length : Nat} (h : start + length ≤ loaded.cols) :
    loaded.narrowCols start length = .ok ⟨loaded.count, loaded.rows, length,
      fun l i j => loaded.entry l i (start + j)⟩ :=
  if_neg (not_lt.mpr h)

/-- Where experts are not split the loaders go on to the tensor-parallel share. -/
theorem loadEpExpertStack_dense (hdense : ¬ (ranks.expertParallel = true ∧ 1 < ranks.epSize)) :
    loadEpExpertStack ranks param loaded = .ok none := by
  refine if_pos ?_
  by_cases hparallel : ranks.expertParallel = true
  · exact .inr (not_lt.mp fun hsize => hdense ⟨hparallel, hsize⟩)
  · exact .inl hparallel

/-- A lane's share ends inside the dimension. -/
theorem share_fits (ranks : ExpertRanks) (width : Nat) :
    ranks.tpRank * width + width ≤ width * ranks.tpSize := by
  rw [← Nat.succ_mul, Nat.mul_comm width]
  exact Nat.mul_le_mul_right _ ranks.tpRank_lt

/-- A dense rank has its rows of the gate half and of the up half. -/
theorem stackedGateUpLoader_dense (param loaded : StackedParam X) (width : Nat)
    (hdense : ¬ (ranks.expertParallel = true ∧ 1 < ranks.epSize))
    (hcount : loaded.count = param.count) (hcols : loaded.cols = param.cols)
    (hparam : param.rows = 2 * width) (hloaded : loaded.rows = 2 * (width * ranks.tpSize)) :
    ∃ entry, stackedGateUpLoader ranks param loaded = .ok { param with entry } ∧
      ∀ l < param.count, ∀ i < width, ∀ j < param.cols,
        entry l i j = loaded.entry l (ranks.tpRank * width + i) j ∧
        entry l (width + i) j =
          loaded.entry l (width * ranks.tpSize + (ranks.tpRank * width + i)) j := by
  have hrank := ranks.tpRank_lt
  unfold stackedGateUpLoader
  rw [loadEpExpertStack_dense hdense]
  by_cases hone : ranks.tpSize = 1
  · have hzero : ranks.tpRank = 0 := by omega
    refine ⟨loaded.entry, ?_, fun l _ i _ j _ => ?_⟩
    · refine (if_pos hone).trans (StackedParam.copyExact_same hcount ?_ hcols)
      rw [hloaded, hparam, hone, Nat.mul_one]
    · rw [hone, hzero, Nat.zero_mul, Nat.zero_add, Nat.mul_one]
      exact ⟨rfl, rfl⟩
  · have hhalf : loaded.rows / 2 = width * ranks.tpSize := by omega
    have hlocal : param.rows / 2 = width := by omega
    have hfit := share_fits ranks width
    obtain ⟨entry, hcopy, hentry⟩ := StackedParam.copyFrom_same param
      (StackedParam.catRows
        ⟨loaded.count, width, loaded.cols, fun l i => loaded.entry l (ranks.tpRank * width + i)⟩
        ⟨loaded.count, width, loaded.cols,
          fun l i => loaded.entry l (width * ranks.tpSize + ranks.tpRank * width + i)⟩)
      hcount (by rw [hparam]; exact (Nat.two_mul width).symm) hcols
    refine ⟨entry, ?_, fun l hl i hi j hj => ⟨?_, ?_⟩⟩
    · refine (if_neg hone).trans ?_
      rw [hhalf, hlocal, StackedParam.narrowRows_inside (by omega),
        StackedParam.narrowRows_inside (by omega)]
      exact hcopy
    · rw [hentry l hl i (by omega) j hj]
      exact if_pos hi
    · rw [hentry l hl (width + i) (by omega) j hj]
      refine (if_neg (not_lt.mpr (Nat.le_add_right _ _))).trans ?_
      dsimp only
      rw [Nat.add_sub_cancel_left, Nat.add_assoc]

/-- A dense rank has its columns of the down projection. -/
theorem stackedDownLoader_dense (param loaded : StackedParam X) (width : Nat)
    (hdense : ¬ (ranks.expertParallel = true ∧ 1 < ranks.epSize))
    (hcount : loaded.count = param.count) (hrows : loaded.rows = param.rows)
    (hparam : param.cols = width) (hloaded : loaded.cols = width * ranks.tpSize) :
    ∃ entry, stackedDownLoader ranks param loaded = .ok { param with entry } ∧
      ∀ l < param.count, ∀ i < param.rows, ∀ j < width,
        entry l i j = loaded.entry l i (ranks.tpRank * width + j) := by
  subst hparam
  have hrank := ranks.tpRank_lt
  unfold stackedDownLoader
  rw [loadEpExpertStack_dense hdense]
  by_cases hone : ranks.tpSize = 1
  · have hzero : ranks.tpRank = 0 := by omega
    refine ⟨loaded.entry, ?_, fun l _ i _ j _ => ?_⟩
    · refine (if_pos hone).trans (StackedParam.copyExact_same hcount hrows ?_)
      rw [hloaded, hone, Nat.mul_one]
    · rw [hzero, Nat.zero_mul, Nat.zero_add]
  · have hfit := share_fits ranks param.cols
    obtain ⟨entry, hcopy, hentry⟩ := StackedParam.copyFrom_same param
      (⟨loaded.count, loaded.rows, param.cols,
        fun l i j => loaded.entry l i (ranks.tpRank * param.cols + j)⟩)
      hcount hrows rfl
    refine ⟨entry, ?_, hentry⟩
    refine (if_neg hone).trans ?_
    rw [StackedParam.narrowCols_inside (by omega)]
    exact hcopy

/-- A rank of the split takes its run of whole experts. -/
theorem loadEpExpertStack_split (hsplit : ranks.expertParallel = true ∧ 1 < ranks.epSize)
    (hfit : ranks.epRank * param.count + param.count ≤ loaded.count)
    (hrows : loaded.rows = param.rows) (hcols : loaded.cols = param.cols) :
    loadEpExpertStack ranks param loaded = .ok (some { param with
      entry := fun l => loaded.entry (ranks.epRank * param.count + l) }) := by
  have hon : ¬ (¬ ranks.expertParallel = true ∨ ranks.epSize ≤ 1) := by
    rintro (hoff | hsize)
    · exact hoff hsplit.1
    · exact absurd hsplit.2 (not_lt.mpr hsize)
  have hnarrow : loaded.narrowExperts (ranks.epRank * param.count) param.count =
      .ok ⟨param.count, loaded.rows, loaded.cols,
        fun l => loaded.entry (ranks.epRank * param.count + l)⟩ := if_neg (not_lt.mpr hfit)
  refine (if_neg hon).trans ?_
  rw [hnarrow]
  change (param.copyExact ⟨param.count, loaded.rows, loaded.cols,
    fun l => loaded.entry (ranks.epRank * param.count + l)⟩ >>= fun param => pure (some param)) = _
  have hcopy : param.copyExact ⟨param.count, loaded.rows, loaded.cols,
      fun l => loaded.entry (ranks.epRank * param.count + l)⟩ = .ok { param with
        entry := fun l => loaded.entry (ranks.epRank * param.count + l) } :=
    StackedParam.copyExact_same rfl hrows hcols
  rw [hcopy]
  rfl

theorem stackedGateUpLoader_split (hsplit : ranks.expertParallel = true ∧ 1 < ranks.epSize)
    (hfit : ranks.epRank * param.count + param.count ≤ loaded.count)
    (hrows : loaded.rows = param.rows) (hcols : loaded.cols = param.cols) :
    stackedGateUpLoader ranks param loaded = .ok { param with
      entry := fun l => loaded.entry (ranks.epRank * param.count + l) } := by
  unfold stackedGateUpLoader
  rw [loadEpExpertStack_split hsplit hfit hrows hcols]
  rfl

theorem stackedDownLoader_split (hsplit : ranks.expertParallel = true ∧ 1 < ranks.epSize)
    (hfit : ranks.epRank * param.count + param.count ≤ loaded.count)
    (hrows : loaded.rows = param.rows) (hcols : loaded.cols = param.cols) :
    stackedDownLoader ranks param loaded = .ok { param with
      entry := fun l => loaded.entry (ranks.epRank * param.count + l) } := by
  unfold stackedDownLoader
  rw [loadEpExpertStack_split hsplit hfit hrows hcols]
  rfl

end Stacked

/-! ### A rank's experts after loading -/

section Load

variable {config : V4MoeConfig K} {ranks : ExpertRanks} {memory : V4Memory K}
  {ckpt : V4Checkpoint K} {loaded : LoadedExperts K}

/-- A dense rank: every expert, and of each the lane's slice. -/
structure LoadsSlice (config : V4MoeConfig K) (ckpt : V4Checkpoint K) (lane width : Nat)
    (loaded : LoadedExperts K) : Prop where
  count_eq : loaded.count = config.numExperts
  intermediate_eq : loaded.intermediate = width
  expert : ∀ e < config.numExperts, (loaded.expert e).Agrees config.hiddenSize width
    ((ckpt.expert config.toMoeModelConfig e).slice width lane)

/-- The half of a stack of `2 * width` rows. -/
theorem half_rows (width : Nat) : 2 * width / 2 = width := Nat.mul_div_cancel_left _ Nat.two_pos

theorem DeepseekV4MoE.load_stacked {block : ExpertBlock} {gateUp down : Nat → Nat → Nat → K}
    {gateUp' down' : StackedParam K} (hcreate : DeepseekV4MoE.create config ranks none = .ok block)
    (hgateUp : stackedGateUpLoader ranks (block.createStacks memory .gateUp)
      (config.stackedTensor gateUp .gateUp) = .ok gateUp')
    (hdown : stackedDownLoader ranks (block.createStacks memory .down)
      (config.stackedTensor down .down) = .ok down') :
    DeepseekV4MoE.load config ranks memory (.stacked gateUp down) =
      .ok (.unquantized (.ofPair gateUp' down')) := by
  unfold DeepseekV4MoE.load
  rw [V4Checkpoint.quant, hcreate]
  refine bind_eq_ok.mpr ⟨_, rfl, ?_⟩
  exact bind_eq_ok.mpr ⟨_, hgateUp, bind_eq_ok.mpr ⟨_, hdown, rfl⟩⟩

/-- The stacked loaders leave a dense rank the slices of its lane. -/
theorem DeepseekV4MoE.load_stacked_dense {block : ExpertBlock} (memory : V4Memory K)
    (gateUp down : Nat → Nat → Nat → K)
    (hdense : ¬ (ranks.expertParallel = true ∧ 1 < ranks.epSize))
    (hcreate : DeepseekV4MoE.create config ranks none = .ok block) :
    ∃ weight width, width * ranks.tpSize = config.moeIntermediateSize ∧
      DeepseekV4MoE.load config ranks memory (.stacked gateUp down) =
        .ok (.unquantized weight) ∧
      LoadsSlice config (.stacked gateUp down) ranks.tpRank width (.unquantized weight) := by
  obtain ⟨hplace, -⟩ := DeepseekV4MoE.create_inv hcreate
  obtain ⟨width, hwidth, rfl⟩ := ExpertBlock.create_dense hdense hplace
  obtain ⟨entryUp, hup, hentryUp⟩ := stackedGateUpLoader_dense
    (ExpertBlock.createStacks ⟨config.hiddenSize, width, false, config.numExperts, 0⟩ memory
      .gateUp)
    (config.stackedTensor gateUp .gateUp) width hdense rfl rfl rfl
    (congrArg (2 * ·) hwidth.symm)
  obtain ⟨entryDown, hdown, hentryDown⟩ := stackedDownLoader_dense
    (ExpertBlock.createStacks ⟨config.hiddenSize, width, false, config.numExperts, 0⟩ memory .down)
    (config.stackedTensor down .down) width hdense rfl rfl rfl hwidth.symm
  refine ⟨_, width, hwidth, DeepseekV4MoE.load_stacked hcreate hup hdown, rfl, half_rows width, ?_⟩
  intro e he
  refine ⟨fun i hi k hk => ?_, fun i hi k hk => ?_, fun col hcol i hi => ?_⟩
  · exact (hentryUp e he i hi k hk).1
  · refine Eq.trans ?_ ((hentryUp e he i hi k hk).2.trans ?_)
    · exact congrArg (fun half => entryUp e (half + i) k) (half_rows width)
    · rw [hwidth]
      rfl
  · exact hentryDown e he col hcol i hi

/-! ### Loading one tensor per expert -/

section Quantised

variable {config : MoeModelConfig} {width : Nat} {tensors : ExpertCheckpoint Nat ℚ}

/-- A dense rank's block. -/
def denseBlock (config : MoeModelConfig) (width : Nat) : ExpertBlock :=
  ⟨config.hiddenSize, width, false, config.numExperts, 0⟩

/-- A tensor of the shape of its view is copied. -/
theorem StackedParam.fill_fits {X : Type} {param : StackedParam X} {slot : Nat} {proj : ExpertProj}
    {loaded : Grid X} (hslot : slot < param.count) (hrows : param.viewRows proj = loaded.rows)
    (hcols : param.cols = loaded.cols) : ∃ param', param.fill slot proj loaded = .ok param' := by
  refine ⟨_, (if_neg (not_le.mpr hslot)).trans (if_neg ?_)⟩
  rw [hrows, hcols]
  exact not_not.mpr rfl

/-- A dense rank loads the tensors that its slices of have the shape of its views. -/
theorem ExpertBlock.load_dense {X : Type} {params : ExpertStacks X} {e : Nat} {proj : ExpertProj}
    {t : Grid X} (hslot : e < (params proj.stack).count)
    (hrows : (params proj.stack).viewRows proj = (ranks.narrow proj t).rows)
    (hcols : (params proj.stack).cols = (ranks.narrow proj t).cols) :
    ∃ params', (denseBlock config width).load ranks params e proj t = .ok params' := by
  obtain ⟨param', hfill⟩ := StackedParam.fill_fits hslot hrows hcols
  exact ⟨_, map_eq_ok.mpr ⟨param', hfill, rfl⟩⟩

/-- The extents of a lane's share. -/
theorem ExpertRanks.narrow_extents {X : Type} (ranks : ExpertRanks) (t : Grid X) :
    (∀ proj : ExpertProj, proj.stack = .gateUp →
      (ranks.narrow proj t).rows = t.rows / ranks.tpSize ∧ (ranks.narrow proj t).cols = t.cols) ∧
    (ranks.narrow .down t).rows = t.rows ∧ (ranks.narrow .down t).cols = t.cols / ranks.tpSize := by
  have hrank := ranks.tpRank_lt
  unfold ExpertRanks.narrow
  split
  · refine ⟨fun proj hproj => ?_, rfl, rfl⟩
    cases proj with
    | gate => exact ⟨rfl, rfl⟩
    | up => exact ⟨rfl, rfl⟩
    | down => cases hproj
  · have hone : ranks.tpSize = 1 := by omega
    rw [hone, Nat.div_one, Nat.div_one]
    exact ⟨fun _ _ => ⟨rfl, rfl⟩, rfl, rfl⟩

theorem ExpertParams.Loaded.sameShape {W A : Type} {block : ExpertBlock} {quant : ExpertQuant}
    {ckpt : ExpertCheckpoint W A} {start params : ExpertParams W A} {keys : List ExpertKey}
    (h : Loaded config ranks block quant ckpt start keys params) : start.SameShape params :=
  ⟨h.weight.shape, h.scaleInv.shape⟩

/-- Every key of a checkpoint of whole groups loads into a dense rank. -/
theorem ExpertParams.loadKey_dense (tensors : ExpertCheckpoint Nat ℚ)
    (hwidth : width * ranks.tpSize = config.moeIntermediateSize)
    (hgroups : 32 ∣ width) (hhidden : 32 ∣ config.hiddenSize) {key : ExpertKey}
    (hkey : key.expert < config.numExperts) (words : ExpertStack → Nat → Nat → Nat → Nat)
    (scales : ExpertStack → Nat → Nat → Nat → ℚ) :
    ∃ params, (ExpertQuant.mxfp4.createWeights (denseBlock config width) words scales).loadKey
      config ranks (denseBlock config width) .mxfp4 tensors key = .ok params := by
  obtain ⟨e, proj, leaf⟩ := key
  have hpos : 0 < ranks.tpSize := Nat.zero_lt_of_lt ranks.tpRank_lt
  have hshare : config.moeIntermediateSize / ranks.tpSize = width := by
    rw [← hwidth, Nat.mul_div_cancel _ hpos]
  obtain ⟨groups, rfl⟩ := hgroups
  obtain ⟨hiddenGroups, hhidden⟩ := hhidden
  have hwords : config.moeIntermediateSize / 8 / ranks.tpSize = 32 * groups / 8 := by
    rw [Nat.div_div_eq_div_mul, Nat.mul_comm 8, ← Nat.div_div_eq_div_mul, hshare]
  have hscales : (config.moeIntermediateSize + 32 - 1) / 32 / ranks.tpSize = 32 * groups / 32 := by
    have hceil : (config.moeIntermediateSize + 32 - 1) / 32 = config.moeIntermediateSize / 32 := by
      have : config.moeIntermediateSize = 32 * (groups * ranks.tpSize) := by
        rw [← hwidth, Nat.mul_assoc]
      omega
    rw [hceil, Nat.div_div_eq_div_mul, Nat.mul_comm 32, ← Nat.div_div_eq_div_mul, hshare]
  unfold ExpertParams.loadKey
  cases leaf with
  | weight =>
    have hload : ∃ params', (denseBlock config (32 * groups)).load ranks
        (ExpertQuant.mxfp4.createWeights (denseBlock config (32 * groups)) words scales).weight e
        proj (tensors.weightTensor config .mxfp4 e proj) = .ok params' := by
      obtain ⟨hup, hdownRows, hdownCols⟩ :=
        ranks.narrow_extents (tensors.weightTensor config .mxfp4 e proj)
      cases proj with
      | gate =>
        refine ExpertBlock.load_dense hkey ?_ ?_
        · exact (half_rows _).trans (hshare.symm.trans (hup .gate rfl).1.symm)
        · exact (hup .gate rfl).2.symm
      | up =>
        refine ExpertBlock.load_dense hkey ?_ ?_
        · exact (half_rows _).trans (hshare.symm.trans (hup .up rfl).1.symm)
        · exact (hup .up rfl).2.symm
      | down => exact ExpertBlock.load_dense hkey hdownRows.symm (hwords.symm.trans hdownCols.symm)
    obtain ⟨weight, hload⟩ := hload
    exact ⟨_, map_eq_ok.mpr ⟨weight, hload, rfl⟩⟩
  | weightScaleInv =>
    have hcols : config.hiddenSize / 32 = (config.hiddenSize + 32 - 1) / 32 := by omega
    have hload : ∃ params', (denseBlock config (32 * groups)).load ranks
        (ExpertQuant.mxfp4.createWeights (denseBlock config (32 * groups)) words scales).scaleInv e
        proj (tensors.scaleTensor config .mxfp4 e proj) = .ok params' := by
      obtain ⟨hup, hdownRows, hdownCols⟩ :=
        ranks.narrow_extents (tensors.scaleTensor config .mxfp4 e proj)
      have hrows : (tensors.scaleTensor config .mxfp4 e proj).rows = (config.extents proj).1 :=
        Nat.div_one _
      rw [hrows] at hup hdownRows
      cases proj with
      | gate =>
        refine ExpertBlock.load_dense hkey ?_ ?_
        · exact (half_rows _).trans (hshare.symm.trans (hup .gate rfl).1.symm)
        · exact hcols.trans (hup .gate rfl).2.symm
      | up =>
        refine ExpertBlock.load_dense hkey ?_ ?_
        · exact (half_rows _).trans (hshare.symm.trans (hup .up rfl).1.symm)
        · exact hcols.trans (hup .up rfl).2.symm
      | down => exact ExpertBlock.load_dense hkey hdownRows.symm (hscales.symm.trans hdownCols.symm)
    obtain ⟨scaleInv, hload⟩ := hload
    exact ⟨_, map_eq_ok.mpr ⟨scaleInv, hload, rfl⟩⟩

/-- Keys that load one by one load in any order. -/
theorem ExpertParams.loadKeys_total {W A : Type} {block : ExpertBlock} {quant : ExpertQuant}
    {ckpt : ExpertCheckpoint W A} {start : ExpertParams W A} {keys : List ExpertKey}
    (h : ∀ key ∈ keys, ∃ params, start.loadKey config ranks block quant ckpt key = .ok params) :
    ∃ params, ExpertParams.loadKeys config ranks block quant ckpt keys start = .ok params := by
  induction keys generalizing start with
  | nil => exact ⟨start, rfl⟩
  | cons key keys ih =>
    obtain ⟨next, hnext⟩ := h key List.mem_cons_self
    have hshape : start.SameShape next :=
      ((ExpertParams.Loaded.init config ranks block quant ckpt start).loadKey hnext).sameShape
    obtain ⟨params, hparams⟩ := ih fun key' hmem => by
      obtain ⟨params', hload⟩ := h key' (List.mem_cons_of_mem _ hmem)
      obtain ⟨other', hother, -⟩ := ExpertParams.loadKey_congr ckpt hshape hload
      exact ⟨other', hother⟩
    exact ⟨params, bind_eq_ok.mpr ⟨next, hnext, hparams⟩⟩

/-- Aligned elements are the numbers of the checkpoint. -/
theorem ExpertParams.mxfp4Value_eq {params : ExpertParams Nat ℚ} {e i j : Nat} {proj : ExpertProj}
    (hgroups : 32 ∣ width)
    (h : (denseBlock config width).ElementAligned ranks .mxfp4 tensors params e proj i j) :
    params.mxfp4Value proj.stack e ((denseBlock config width).stackedRow proj i) j =
      tensors.mxfp4Value e proj ((denseBlock config width).originRow ranks proj i)
        ((denseBlock config width).originCol ranks .mxfp4 proj j) := by
  have hnibble : (denseBlock config width).originCol ranks .mxfp4 proj j % 8 = j % 8 := by
    cases proj with
    | gate => rfl
    | up => rfl
    | down =>
      obtain ⟨groups, rfl⟩ := hgroups
      change (_ * (8 * (32 * groups / 8)) + j) % 8 = j % 8
      rw [Nat.mul_left_comm, Nat.mul_add_mod]
  have hweight := h.weight_eq
  have hscale := h.scale_eq
  rw [show (denseBlock config width).expertOffset + e = e from Nat.zero_add e] at hweight hscale
  unfold ExpertParams.mxfp4Value ExpertCheckpoint.mxfp4Value
  refine congrArg₂ (e2m1 · * ·) ?_ hscale
  unfold nibble
  rw [hnibble]
  exact congrArg (· / 16 ^ (j % 8) % 16) hweight

end Quantised

/-- The per-expert loader leaves a dense rank the slices of its lane. -/
theorem DeepseekV4MoE.load_perExpert_dense {block : ExpertBlock} {quant : DeepseekV4Fp8Config}
    {tensors : ExpertCheckpoint Nat ℚ} {keys : List ExpertKey} (memory : V4Memory K)
    (hdense : ¬ (ranks.expertParallel = true ∧ 1 < ranks.epSize))
    (hcreate : DeepseekV4MoE.create config ranks (some quant) = .ok block)
    (hcomplete : (V4Checkpoint.perExpert (K := K) quant tensors keys).Complete
      config.toMoeModelConfig) (hhidden : 32 ∣ config.hiddenSize) :
    ∃ params width, width * ranks.tpSize = config.moeIntermediateSize ∧
      DeepseekV4MoE.load config ranks memory (.perExpert quant tensors keys) =
        .ok (.mxfp4 params) ∧
      LoadsSlice config (.perExpert quant tensors keys) ranks.tpRank width (.mxfp4 params) := by
  obtain ⟨hplace, localInter, hlocal, haligned⟩ := DeepseekV4MoE.create_inv hcreate
  obtain ⟨width, hwidth, rfl⟩ := ExpertBlock.create_dense hdense hplace
  have hpos : 0 < ranks.tpSize := Nat.zero_lt_of_lt ranks.tpRank_lt
  obtain rfl : localInter = width := Nat.eq_of_mul_eq_mul_right hpos (hlocal.trans hwidth.symm)
  have hgroups := haligned quant rfl
  obtain ⟨params, hload⟩ := ExpertParams.loadKeys_total fun key hkey =>
    ExpertParams.loadKey_dense tensors hwidth hgroups hhidden (hcomplete.2 key hkey)
      memory.words memory.scales
  have hcreated := ExpertBlock.create_inv hplace
  have lc := loadedCheckpoint hcreated hcomplete.1 hload
  have hall := lc.aligned_mxfp4 hcreated (by
    obtain ⟨groups, rfl⟩ := hgroups
    change 32 * groups % 32 < 8
    omega)
  have hcols : (params.weight .gateUp).cols * 8 = config.hiddenSize := by
    rw [(lc.weightShape .gateUp).2]
    change config.hiddenSize / 8 * 8 = config.hiddenSize
    omega
  have hdownCols : (params.weight .down).cols * 8 = localInter := by
    rw [(lc.weightShape .down).2]
    change localInter / 8 * 8 = localInter
    omega
  have hhalf : (params.weight .gateUp).rows / 2 = localInter := by
    rw [(lc.weightShape .gateUp).1]
    exact half_rows localInter
  refine ⟨params, localInter, hwidth, ?_, ?_, hhalf, ?_⟩
  · unfold DeepseekV4MoE.load
    rw [V4Checkpoint.quant, hcreate]
    exact bind_eq_ok.mpr ⟨_, rfl, bind_eq_ok.mpr ⟨_, hload, rfl⟩⟩
  · exact ((ExpertParams.loadKeys_loaded hload).sameShape.1 .gateUp).1
  · intro e he
    refine ⟨fun i hi k hk => ?_, fun i hi k hk => ?_, fun col hcol i hi => ?_⟩
    · have hvalue := ExpertParams.mxfp4Value_eq hgroups (hall e he .gate i k hi (hcols ▸ hk))
      exact congrArg (fun q : ℚ => (q : K)) hvalue
    · have hvalue := ExpertParams.mxfp4Value_eq hgroups (hall e he .up i k hi (hcols ▸ hk))
      refine congrArg (fun q : ℚ => (q : K)) (Eq.trans ?_ hvalue)
      exact congrArg (fun half => params.mxfp4Value .gateUp e (half + i) k) hhalf
    · have hvalue := ExpertParams.mxfp4Value_eq hgroups
        (hall e he .down col i hcol (hdownCols ▸ hi))
      refine congrArg (fun q : ℚ => (q : K)) (hvalue.trans ?_)
      refine congrArg (tensors.mxfp4Value e .down col) ?_
      obtain ⟨groups, rfl⟩ := hgroups
      change ranks.tpRank * (8 * (32 * groups / 8)) + i = ranks.tpRank * (32 * groups) + i
      rw [Nat.mul_div_cancel' (Dvd.intro (4 * groups) (by omega))]

/-- With the experts split a stacked checkpoint loads too. -/
theorem DeepseekV4MoE.load_stacked_split {block : ExpertBlock} (memory : V4Memory K)
    (gateUp down : Nat → Nat → Nat → K)
    (hsplit : ranks.expertParallel = true ∧ 1 < ranks.epSize)
    (hcreate : DeepseekV4MoE.create config ranks none = .ok block) :
    ∃ weight numLocal, numLocal * ranks.epSize = config.numExperts ∧
      DeepseekV4MoE.load config ranks memory (.stacked gateUp down) =
        .ok (.unquantized weight) ∧ (weight .gateUp).count = numLocal := by
  obtain ⟨hplace, -⟩ := DeepseekV4MoE.create_inv hcreate
  obtain ⟨numLocal, hlocal, rfl⟩ := ExpertBlock.create_split hsplit hplace
  have hfit : ranks.epRank * numLocal + numLocal ≤ config.numExperts := by
    rw [← hlocal, ← Nat.succ_mul, Nat.mul_comm numLocal]
    exact Nat.mul_le_mul_right _ ranks.epRank_lt
  exact ⟨_, numLocal, hlocal, DeepseekV4MoE.load_stacked hcreate
    (stackedGateUpLoader_split hsplit hfit rfl rfl) (stackedDownLoader_split hsplit hfit rfl rfl),
    rfl⟩

/-- What loading the tensors of the experts one by one takes and leaves. -/
theorem DeepseekV4MoE.load_perExpert_inv {quant : DeepseekV4Fp8Config}
    {tensors : ExpertCheckpoint Nat ℚ} {keys : List ExpertKey}
    (h : DeepseekV4MoE.load config ranks memory (.perExpert quant tensors keys) = .ok loaded) :
    ∃ block params, DeepseekV4MoE.create config ranks (some quant) = .ok block ∧
      ExpertParams.loadKeys config.toMoeModelConfig ranks block .mxfp4 tensors keys
        (ExpertQuant.mxfp4.createWeights block memory.words memory.scales) = .ok params ∧
      loaded = .mxfp4 params := by
  unfold DeepseekV4MoE.load at h
  obtain ⟨block, hcreate, h⟩ := bind_eq_ok.mp h
  obtain ⟨params, hload, h⟩ := bind_eq_ok.mp h
  cases h
  exact ⟨block, params, hcreate, hload, rfl⟩

/-- A checkpoint loads only with a hidden size of whole groups. -/
theorem DeepseekV4MoE.hidden_of_load {quant : DeepseekV4Fp8Config}
    {tensors : ExpertCheckpoint Nat ℚ} {keys : List ExpertKey}
    (hcovers : config.toMoeModelConfig.Covers keys)
    (h : DeepseekV4MoE.load config ranks memory (.perExpert quant tensors keys) = .ok loaded) :
    32 ∣ config.hiddenSize := by
  obtain ⟨block, params, hcreate, hload, rfl⟩ := DeepseekV4MoE.load_perExpert_inv h
  obtain ⟨hplace, -⟩ := DeepseekV4MoE.create_inv hcreate
  have hcreated := ExpertBlock.create_inv hplace
  have hexperts : 0 < config.numExperts := lt_of_lt_of_le config.topK_pos config.topK_le
  have hlocal : 0 < block.numLocalExperts := by
    by_cases hsplit : ranks.expertParallel = true ∧ 1 < ranks.epSize
    · obtain ⟨numLocal, htiles, rfl⟩ := ExpertBlock.create_split hsplit hplace
      exact Nat.pos_of_mul_pos_right (htiles ▸ hexperts)
    · obtain ⟨width, -, rfl⟩ := ExpertBlock.create_dense hsplit hplace
      exact hexperts
  have lc := loadedCheckpoint hcreated hcovers hload
  have hfit : (params.scaleInv .gateUp).cols = ExpertQuant.blocksOf config.hiddenSize 32 :=
    (lc.scaleInv 0 hlocal .gate).gate.2.1
  have hcols : (params.scaleInv .gateUp).cols = block.hiddenSize / 32 :=
    congrArg Prod.snd (lc.scaleShape .gateUp)
  rw [hcols, hcreated.hidden_eq] at hfit
  exact ExpertQuant.dvd_of_blocksOf_le (by decide) hfit.ge

/-- With the experts split a rank has the places of its run. -/
theorem DeepseekV4MoE.count_of_split {quant : DeepseekV4Fp8Config}
    {tensors : ExpertCheckpoint Nat ℚ} {keys : List ExpertKey}
    (hsplit : ranks.expertParallel = true ∧ 1 < ranks.epSize)
    (h : DeepseekV4MoE.load config ranks memory (.perExpert quant tensors keys) = .ok loaded) :
    ∃ params, loaded = .mxfp4 params ∧ loaded.count * ranks.epSize = config.numExperts ∧
      loaded.intermediate = config.moeIntermediateSize := by
  obtain ⟨block, params, hcreate, hload, rfl⟩ := DeepseekV4MoE.load_perExpert_inv h
  obtain ⟨numLocal, htiles, rfl⟩ :=
    ExpertBlock.create_split hsplit (DeepseekV4MoE.create_inv hcreate).1
  obtain ⟨hcount, hrows, -⟩ := (ExpertParams.loadKeys_loaded hload).sameShape.1 .gateUp
  refine ⟨params, rfl, (congrArg (· * ranks.epSize) hcount).trans htiles, ?_⟩
  exact (congrArg (· / 2) hrows).trans (half_rows _)

end Load

end RapidLlm
