import RapidLlm.Models.DeepseekV4Experts

/-!
# RapidLlm.Models.DeepseekV4Placement

**Where DeepSeek-V4's experts may be.** Cut along the intermediate dimension, the experts of a
tensor-parallel group add up to the block's value (`placementIndependent_of_dense`). Dealt whole
over the ranks they do not: `forward` takes no dispatcher, so each rank looks the global ids up in
its own stack. An id past the stack raises in the expert loop and is dropped by the grouped GEMM.

`placementIndependent_iff` puts the two together, with the batch the grouped GEMM cannot take.
-/

namespace RapidLlm

open Finset (range)

variable {K : Type} [Field K] [LinearOrder K]

/-! ### The block on a group -/

section Forward

variable {fns : V4Functions K} {config : V4MoeConfig K} {topk : TorchTopk K} {tile : MoeTile}
  {n : Nat} {x : Nat → TokenRow K config.hiddenSize} {layer : V4Layer K config.hiddenSize}
  {tokens : Nat → Nat} {routing : V4Routing K} {tpSize : Nat} {loaded : Nat → LoadedExperts K}

/-- With its input ids a layer routes. -/
theorem V4Layer.route_exists (fns : V4Functions K) (topk : TorchTopk K)
    (layer : V4Layer K config.hiddenSize) (x : Nat → TokenRow K config.hiddenSize)
    (tokens : Nat → Nat) :
    ∃ routing, layer.route fns config topk x (some tokens) = .ok routing := by
  unfold V4Layer.route
  cases layer.router with
  | noauxTc bias => exact ⟨_, rfl⟩
  | hash tid2eid => exact ⟨_, rfl⟩

/-- The ids of a layer are experts. -/
theorem V4Layer.route_ids (hvalid : layer.Valid config)
    (h : layer.route fns config topk x (some tokens) = .ok routing) (t : Nat) {j : Nat}
    (hj : j < config.topK) : routing.ids t j < config.numExperts := by
  unfold V4Layer.route at h
  unfold V4Layer.Valid at hvalid
  cases hrouter : layer.router with
  | noauxTc bias =>
    rw [hrouter] at h
    obtain rfl := Except.ok.inj h
    obtain ⟨order, hperm, hlen, htop⟩ := topk.best config.numExperts
      (fun e => fns.sqrtsoftplus (∑ k, x t k * layer.gateWeight e k) + bias e) config.topK
      config.topK_le
    have hj' : j < (topk.indices config.numExperts (fun e =>
        fns.sqrtsoftplus (∑ k, x t k * layer.gateWeight e k) + bias e) config.topK).length := by
      rw [← hperm.length_eq, hlen]
      exact hj
    dsimp only
    rw [List.getD_eq_getElem _ _ hj']
    exact List.mem_range.mp (htop.subset (hperm.mem_iff.mpr (List.getElem_mem hj')))
  | hash tid2eid =>
    rw [hrouter] at h hvalid
    obtain rfl := Except.ok.inj h
    exact hvalid (tokens t) j hj

/-- The lanes' slices of the shared expert are the shared expert. -/
theorem V4Layer.shared_eq (htp : 0 < tpSize) (hdiv : tpSize ∣ config.moeIntermediateSize) :
    layer.shared fns config n x tpSize = (List.range n).map fun t =>
      layer.sharedExperts.apply (config.act fns) config.moeIntermediateSize (x t) := by
  refine (allReduce_range htp fun _ _ => rfl).trans (List.map_congr_left fun t _ => ?_)
  rw [SwigluWeights.sum_slices, Nat.mul_div_cancel' hdiv]

/-- Where each lane leaves one tensor, the group returns the sum. -/
theorem DeepseekV4MoE.returns_iff (tile : MoeTile) (loaded : Nat → LoadedExperts K)
    (htp : 0 < tpSize) (hdiv : tpSize ∣ config.moeIntermediateSize)
    (hroute : layer.route fns config topk x (some tokens) = .ok routing)
    (hlanes : ∀ lane < tpSize, ∃ leaves,
      (loaded lane).apply fns config n x routing tile = .ok leaves ∧ ∀ out, leaves out ↔
        out = (List.range n).map ((loaded lane).routedSum fns config x routing))
    (out : List (TokenRow K config.hiddenSize)) :
    DeepseekV4MoE.Returns fns config n x tile topk tpSize loaded layer (some tokens) out ↔
      out = (List.range n).map fun t =>
        (∑ lane ∈ range tpSize, (loaded lane).routedSum fns config x routing t) +
          layer.sharedExperts.apply (config.act fns) config.moeIntermediateSize (x t) := by
  have hsum : ∀ locals : Nat → List (TokenRow K config.hiddenSize),
      (∀ lane < tpSize,
        locals lane = (List.range n).map ((loaded lane).routedSum fns config x routing)) →
      List.zipWith (· + ·) (tensorModelParallelAllReduce tpSize locals)
          (layer.shared fns config n x tpSize) =
        (List.range n).map fun t =>
          (∑ lane ∈ range tpSize, (loaded lane).routedSum fns config x routing t) +
            layer.sharedExperts.apply (config.act fns) config.moeIntermediateSize (x t) := by
    intro locals hlocals
    rw [allReduce_range htp hlocals, V4Layer.shared_eq htp hdiv, List.zipWith_map_left,
      List.zipWith_map_right, List.zipWith_self]
  constructor
  · rintro ⟨routing', hroute', locals, hlocals, rfl⟩
    obtain rfl := Except.ok.inj (hroute.symm.trans hroute')
    refine hsum locals fun lane hlane => ?_
    obtain ⟨leaves, hok, hleaves⟩ := hlocals lane hlane
    obtain ⟨leaves', hok', hiff⟩ := hlanes lane hlane
    obtain rfl := Except.ok.inj (hok.symm.trans hok')
    exact (hiff _).mp hleaves
  · rintro rfl
    refine ⟨routing, hroute,
      fun lane => (List.range n).map ((loaded lane).routedSum fns config x routing), ?_,
      (hsum _ fun _ _ => rfl).symm⟩
    intro lane hlane
    obtain ⟨leaves, hok, hiff⟩ := hlanes lane hlane
    exact ⟨leaves, hok, (hiff _).mpr rfl⟩

/-- The slices of the dense lanes add up to the routed experts. -/
theorem LoadsSlice.sum_routedSum {ckpt : V4Checkpoint K} {width t : Nat}
    (hwidth : width * tpSize = config.moeIntermediateSize)
    (hloaded : ∀ lane < tpSize, LoadsSlice config ckpt lane width (loaded lane))
    (hids : ∀ j < config.topK, routing.ids t j < config.numExperts) :
    ∑ lane ∈ range tpSize, (loaded lane).routedSum fns config x routing t =
      ∑ j ∈ range config.topK, routing.weights t j •
        (ckpt.expert config.toMoeModelConfig (routing.ids t j)).apply (config.act fns)
          config.moeIntermediateSize (x t) := by
  have hlane : ∀ lane ∈ range tpSize, (loaded lane).routedSum fns config x routing t =
      ∑ j ∈ range config.topK, routing.weights t j •
        ((ckpt.expert config.toMoeModelConfig (routing.ids t j)).slice width lane).apply
          (config.act fns) width (x t) := by
    intro lane hlane
    have hslice := hloaded lane (Finset.mem_range.mp hlane)
    refine Finset.sum_congr rfl fun j hj => ?_
    have hid := hids j (Finset.mem_range.mp hj)
    rw [if_pos (hslice.count_eq ▸ hid), hslice.intermediate_eq, (hslice.expert _ hid).apply_eq]
  rw [Finset.sum_congr rfl hlane, Finset.sum_comm]
  refine Finset.sum_congr rfl fun j _ => ?_
  rw [← hwidth, Nat.mul_comm, ← SwigluWeights.sum_slices]
  exact (Finset.smul_sum (r := routing.weights t j)).symm

end Forward

/-! ### Dense placements -/

section Dense

variable {fns : V4Functions K} {config : V4MoeConfig K} {topk : TorchTopk K} {tile : MoeTile}
  {quant : Option DeepseekV4Fp8Config} {placement : V4Placement} {n : Nat}

/-- A dense rank loads its lane's slices, and its method leaves their routed sum. -/
theorem DeepseekV4MoE.load_dense (fns : V4Functions K) (tile : MoeTile) (n : Nat)
    {ranks : ExpertRanks} {block : ExpertBlock}
    (hdense : ¬ (ranks.expertParallel = true ∧ 1 < ranks.epSize)) {ckpt : V4Checkpoint K}
    (hcreate : DeepseekV4MoE.create config ranks ckpt.quant = .ok block)
    (hcomplete : ckpt.Complete config.toMoeModelConfig)
    (hfp4 : ckpt.quant ≠ none → 0 < n ∧ 32 ∣ config.hiddenSize) (memory : V4Memory K) :
    ∃ loaded width, width * ranks.tpSize = config.moeIntermediateSize ∧
      DeepseekV4MoE.load config ranks memory ckpt = .ok loaded ∧
      LoadsSlice config ckpt ranks.tpRank width loaded ∧
      ∀ (x : Nat → TokenRow K config.hiddenSize) (routing : V4Routing K),
        (∀ t < n, ∀ j < config.topK, routing.ids t j < config.numExperts) →
        ∃ leaves, loaded.apply fns config n x routing tile = .ok leaves ∧ ∀ out, leaves out ↔
          out = (List.range n).map (loaded.routedSum fns config x routing) := by
  cases ckpt with
  | stacked gateUp down =>
    obtain ⟨weight, width, hwidth, hload, hslice⟩ :=
      DeepseekV4MoE.load_stacked_dense memory gateUp down hdense hcreate
    refine ⟨_, width, hwidth, hload, hslice, fun x routing hids => ⟨_, ?_, fun out => Iff.rfl⟩⟩
    have happly := LoadedExperts.applyUnquantized_eq fns x routing (.unquantized weight) hids
      fun t ht j hj => hslice.count_eq.symm ▸ hids t ht j hj
    rw [LoadedExperts.apply, happly]
    rfl
  | perExpert quant tensors keys =>
    obtain ⟨hn, hhidden⟩ := hfp4 (Option.some_ne_none _)
    obtain ⟨params, width, hwidth, hload, hslice⟩ :=
      DeepseekV4MoE.load_perExpert_dense memory hdense hcreate hcomplete hhidden
    refine ⟨_, width, hwidth, hload, hslice, fun x routing hids => ?_⟩
    have hinter : 0 < width := by
      refine Nat.pos_of_ne_zero fun hzero => ?_
      have := config.moeIntermediateSize_pos
      rw [hzero, Nat.zero_mul] at hwidth
      omega
    exact LoadedExperts.applyMxfp4_eq fns x tile (hslice.intermediate_eq.symm ▸ hinter) hn
      (hslice.count_eq.symm ▸ lt_of_lt_of_le config.topK_pos config.topK_le)
      fun t ht j hj => .inl (hslice.count_eq.symm ▸ hids t ht j hj)

/-- Without expert parallelism every rank gets the value of the block. -/
theorem placementIndependent_of_dense (haccepted : placement.Accepted config quant)
    (hdense : ¬ placement.SplitsExperts)
    (hfp4 : quant ≠ none → 0 < n ∧ 32 ∣ config.hiddenSize) :
    PlacementIndependent fns config topk tile quant placement n := by
  rintro ckpt rfl hcomplete layer hvalid memory x tokens replica hreplica
  have hlane : ∀ lane, ∃ loaded : LoadedExperts K, ∀ hlane : lane < placement.tpSize,
      DeepseekV4MoE.load config (placement.ranks hreplica hlane) (memory lane) ckpt = .ok loaded ∧
      LoadsSlice config ckpt lane (config.moeIntermediateSize / placement.tpSize) loaded ∧
      placement.tpSize ∣ config.moeIntermediateSize ∧
      ∀ (x : Nat → TokenRow K config.hiddenSize) (routing : V4Routing K),
        (∀ t < n, ∀ j < config.topK, routing.ids t j < config.numExperts) →
        ∃ leaves, loaded.apply fns config n x routing tile = .ok leaves ∧ ∀ out, leaves out ↔
          out = (List.range n).map (loaded.routedSum fns config x routing) := by
    intro lane
    by_cases hlane : lane < placement.tpSize
    · obtain ⟨block, hcreate⟩ := haccepted hreplica hlane
      have hrank : ¬ ((placement.ranks hreplica hlane).expertParallel = true ∧
          1 < (placement.ranks hreplica hlane).epSize) := hdense
      obtain ⟨loaded, width, hwidth, hload, hslice, happly⟩ :=
        DeepseekV4MoE.load_dense fns tile n hrank hcreate hcomplete hfp4 (memory lane)
      have hwidth' : width * placement.tpSize = config.moeIntermediateSize := hwidth
      refine ⟨loaded, fun _ => ⟨hload, ?_, Dvd.intro_left _ hwidth', happly⟩⟩
      rwa [← hwidth', Nat.mul_div_cancel _ placement.tpSize_pos]
    · exact ⟨.unquantized fun _ => ⟨0, 0, 0, fun _ _ _ => 0⟩, fun h => absurd h hlane⟩
  choose loaded hloaded using hlane
  obtain ⟨routing, hroute⟩ := V4Layer.route_exists fns topk layer x tokens
  have hids : ∀ t, ∀ j < config.topK, routing.ids t j < config.numExperts :=
    fun t j hj => V4Layer.route_ids hvalid hroute t hj
  have hdiv := (hloaded 0 placement.tpSize_pos).2.2.1
  have hreturns := DeepseekV4MoE.returns_iff tile loaded placement.tpSize_pos hdiv hroute
    fun lane hlane => (hloaded lane hlane).2.2.2 x routing fun t _ => hids t
  have hvalue : (List.range n).map (fun t =>
        (∑ lane ∈ range placement.tpSize, (loaded lane).routedSum fns config x routing t) +
          layer.sharedExperts.apply (config.act fns) config.moeIntermediateSize (x t)) =
      (List.range n).map (layer.value fns config x routing ckpt) := by
    refine List.map_congr_left fun t _ => ?_
    rw [LoadsSlice.sum_routedSum (Nat.div_mul_cancel hdiv)
      (fun lane hlane => (hloaded lane hlane).2.1) (hids t), V4Layer.value]
  refine ⟨loaded, fun lane hlane => (hloaded lane hlane).1, routing, hroute, ?_, ?_⟩
  · exact ⟨_, (hreturns _).mpr rfl⟩
  · exact fun out hout => ((hreturns out).mp hout).trans hvalue

end Dense

/-! ### Split experts -/

section Split

variable {fns : V4Functions K} {config : V4MoeConfig K} {topk : TorchTopk K} {tile : MoeTile}
  {quant : DeepseekV4Fp8Config} {placement : V4Placement} {n : Nat}

/-- A hash layer that sends every slot to the last expert. -/
def lastExpertLayer (config : V4MoeConfig K) : V4Layer K config.hiddenSize where
  gateWeight := fun _ _ => 0
  router := .hash fun _ _ => config.numExperts - 1
  sharedExperts := ⟨fun _ _ => 0, fun _ _ => 0, fun _ _ => 0⟩

/-- Memory of zeros. -/
def zeroMemory : V4Memory K := ⟨fun _ _ _ _ => 0, fun _ _ _ _ => 0, fun _ _ _ _ => 0⟩

theorem numExperts_pos (config : V4MoeConfig K) : 0 < config.numExperts :=
  lt_of_lt_of_le config.topK_pos config.topK_le

theorem lastExpertLayer_valid (config : V4MoeConfig K) : (lastExpertLayer config).Valid config :=
  fun _ _ _ => Nat.sub_lt (numExperts_pos config) Nat.one_pos

theorem lastExpertLayer_ids {x : Nat → TokenRow K config.hiddenSize} {tokens : Nat → Nat}
    {routing : V4Routing K}
    (h : (lastExpertLayer config).route fns config topk x (some tokens) = .ok routing) (t j : Nat) :
    routing.ids t j = config.numExperts - 1 := by
  obtain rfl := Except.ok.inj h
  rfl

/-- More than one run of equal length: the last expert is past the first run. -/
theorem count_le_last {count ranks total : Nat} (hranks : 1 < ranks) (htotal : 0 < total)
    (h : count * ranks = total) : 0 < count ∧ 2 * count ≤ total := by
  have hpos : 0 < count := Nat.pos_of_mul_pos_right (h ▸ htotal)
  exact ⟨hpos, by rw [← h, Nat.mul_comm]; exact Nat.mul_le_mul_left _ hranks⟩

/-- Without a slot to place, a stacked model does not depend on where its experts are. -/
theorem placementIndependent_of_empty (haccepted : placement.Accepted config none)
    (hsplit : placement.SplitsExperts) :
    PlacementIndependent fns config topk tile none placement 0 := by
  intro ckpt hquant _ layer hvalid memory x tokens replica hreplica
  cases ckpt with
  | perExpert quant tensors keys => cases hquant
  | stacked gateUp down =>
  have hlane : ∀ lane, ∃ weight : ExpertStacks K, ∀ hlane : lane < placement.tpSize,
      DeepseekV4MoE.load config (placement.ranks hreplica hlane) (memory lane)
        (.stacked gateUp down) = .ok (.unquantized weight) := by
    intro lane
    by_cases hlane : lane < placement.tpSize
    · obtain ⟨block, hcreate⟩ := haccepted hreplica hlane
      have hrank : (placement.ranks hreplica hlane).expertParallel = true ∧
          1 < (placement.ranks hreplica hlane).epSize := hsplit
      obtain ⟨weight, -, -, hload, -⟩ :=
        DeepseekV4MoE.load_stacked_split (memory lane) gateUp down hrank hcreate
      exact ⟨weight, fun _ => hload⟩
    · exact ⟨fun _ => ⟨0, 0, 0, fun _ _ _ => 0⟩, fun h => absurd h hlane⟩
  choose weight hload using hlane
  obtain ⟨routing, hroute⟩ := V4Layer.route_exists fns topk layer x tokens
  have hdiv : placement.tpSize ∣ config.moeIntermediateSize := by
    obtain ⟨block, hcreate⟩ := haccepted hreplica placement.tpSize_pos
    obtain ⟨-, localInter, hlocal, -⟩ := DeepseekV4MoE.create_inv hcreate
    exact Dvd.intro_left localInter hlocal
  have hreturns := DeepseekV4MoE.returns_iff (n := 0) tile
    (fun lane => .unquantized (weight lane)) placement.tpSize_pos hdiv hroute
    fun lane _ => by
      have happly := LoadedExperts.applyUnquantized_eq (n := 0) fns x routing
        (.unquantized (weight lane))
        (fun t ht => absurd ht (Nat.not_lt_zero t)) fun t ht => absurd ht (Nat.not_lt_zero t)
      refine ⟨fun out => out = _, ?_, fun out => Iff.rfl⟩
      rw [LoadedExperts.apply, happly]
      rfl
  refine ⟨fun lane => .unquantized (weight lane), hload, routing, hroute, ⟨_, (hreturns _).mpr rfl⟩,
    fun out hout => (hreturns out).mp hout⟩

/-- With a slot to place, a global id past a rank's stack raises. -/
theorem not_placementIndependent_of_split (hsplit : placement.SplitsExperts) (hn : 0 < n)
    (haccepted : placement.Accepted config none) :
    ¬ PlacementIndependent fns config topk tile none placement n := by
  intro hindependent
  obtain ⟨loaded, hload, -, -, ⟨out, routing, hroute, locals, hlocals, -⟩, -⟩ :=
    hindependent (.stacked (fun _ _ _ => 0) fun _ _ _ => 0) rfl trivial (lastExpertLayer config)
      (lastExpertLayer_valid config)
      (fun _ => zeroMemory) (fun _ _ => 0) (fun _ => 0) 0 placement.dpSize_pos
  obtain ⟨block, hcreate⟩ := haccepted placement.dpSize_pos placement.tpSize_pos
  have hrank : (placement.ranks placement.dpSize_pos placement.tpSize_pos).expertParallel = true ∧
      1 < (placement.ranks placement.dpSize_pos placement.tpSize_pos).epSize := hsplit
  obtain ⟨weight, numLocal, htiles, hok, hcount⟩ :=
    DeepseekV4MoE.load_stacked_split zeroMemory (fun _ _ _ => 0) (fun _ _ _ => 0) hrank hcreate
  have hweight : loaded 0 = .unquantized weight :=
    Except.ok.inj ((hload 0 placement.tpSize_pos).symm.trans hok)
  obtain ⟨hpos, hpast⟩ := count_le_last hsplit.2 (numExperts_pos config) htiles
  obtain ⟨leaves, happly, -⟩ := hlocals 0 placement.tpSize_pos
  rw [hweight] at happly
  obtain ⟨final, hfinal, -⟩ := map_eq_ok.mp happly
  have hid := lastExpertLayer_ids hroute 0 0
  refine LoadedExperts.applyUnquantized_raises (t := 0) (j := 0) hn config.topK_pos ?_ ?_ final
    hfinal
  · omega
  · change (weight .gateUp).count ≤ _
    omega

/-! ### Split quantised experts -/

/-- The keys of every expert of a checkpoint. -/
def allKeys (numExperts : Nat) : List ExpertKey :=
  (List.range numExperts).flatMap fun e => [.gate, .up, .down].flatMap fun proj =>
    [⟨e, proj, .weight⟩, ⟨e, proj, .weightScaleInv⟩]

/-- A quantised checkpoint with the weight 1 everywhere: code point 2 in every nibble. -/
def onesCheckpoint (quant : DeepseekV4Fp8Config) (numExperts : Nat) : V4Checkpoint K :=
  .perExpert quant ⟨fun _ _ _ _ => 0x22222222, fun _ _ _ _ => 1⟩ (allKeys numExperts)

omit [Field K] [LinearOrder K] in
theorem onesCheckpoint_complete (quant : DeepseekV4Fp8Config) (config : MoeModelConfig) :
    (onesCheckpoint (K := K) quant config.numExperts).Complete config := by
  constructor
  · intro e he proj leaf
    refine List.mem_flatMap.mpr ⟨e, List.mem_range.mpr he,
      List.mem_flatMap.mpr ⟨proj, by cases proj <;> simp, ?_⟩⟩
    cases leaf <;> simp
  · intro key hkey
    obtain ⟨e, he, hkey⟩ := List.mem_flatMap.mp hkey
    obtain ⟨proj, -, hkey⟩ := List.mem_flatMap.mp hkey
    have he' := List.mem_range.mp he
    simp only [List.mem_cons, List.not_mem_nil, or_false] at hkey
    rcases hkey with rfl | rfl
    · exact he'
    · exact he'

theorem onesCheckpoint_value (expert : Nat) (proj : ExpertProj) (row col : Nat) :
    (⟨fun _ _ _ _ => 0x22222222, fun _ _ _ _ => 1⟩ : ExpertCheckpoint Nat ℚ).mxfp4Value expert proj
      row col = 1 := by
  have hcode : nibble 0x22222222 col = 2 := by
    unfold nibble
    have hplace : ∀ m < 8, 0x22222222 / 16 ^ m % 16 = 2 := by decide
    exact hplace _ (Nat.mod_lt _ (by decide))
  have hone : e2m1 2 = 1 := by norm_num [e2m1]
  unfold ExpertCheckpoint.mxfp4Value ExpertCheckpoint.scaleOf
  rw [hcode, hone, mul_one]

variable [IsStrictOrderedRing K]

/-- A positive row the activation of `onesCheckpoint` is positive on. -/
def probeRow (config : V4MoeConfig K) : TokenRow K config.hiddenSize :=
  fun k => if (k : Nat) = 0 then config.swigluLimit.getD 1 else 0

theorem act_probe_pos (fns : V4Functions K) (config : V4MoeConfig K) :
    0 < config.act fns (config.swigluLimit.getD 1) (config.swigluLimit.getD 1) := by
  unfold V4MoeConfig.act V4Functions.boundedSwiglu
  cases hlimit : config.swigluLimit with
  | none =>
    simp only [Option.getD_none, mul_one]
    exact fns.silu_pos 1 one_pos
  | some limit =>
    have hpos := config.swigluLimit_pos limit hlimit
    simp only [Option.getD_some, min_self]
    rw [max_eq_left (by linarith), min_self]
    exact mul_pos (fns.silu_pos limit hpos) hpos

theorem onesCheckpoint_apply_pos (fns : V4Functions K) (config : V4MoeConfig K) (e : Nat)
    (col : Fin config.hiddenSize) :
    0 < ((onesCheckpoint (K := K) quant config.numExperts).expert config.toMoeModelConfig e).apply
      (config.act fns) config.moeIntermediateSize (probeRow config) col := by
  refine Finset.sum_pos (fun i _ => ?_)
    (Finset.nonempty_range_iff.mpr config.moeIntermediateSize_pos.ne')
  have hdot : ∑ k, probeRow config k * ((1 : ℚ) : K) = config.swigluLimit.getD 1 := by
    rw [Rat.cast_one, Finset.sum_eq_single ⟨0, config.hiddenSize_pos⟩]
    · simp [probeRow]
    · intro k _ hk
      have hne : (k : Nat) ≠ 0 := fun h => hk (Fin.ext h)
      simp [probeRow, hne]
    · exact fun h => absurd (Finset.mem_univ _) h
  simp only [onesCheckpoint, V4Checkpoint.expert, onesCheckpoint_value]
  rw [hdot, Rat.cast_one, mul_one]
  exact act_probe_pos fns config

/-- Routing weights are positive. -/
theorem lastExpertLayer_weights_pos {x : Nat → TokenRow K config.hiddenSize} {tokens : Nat → Nat}
    {routing : V4Routing K}
    (h : (lastExpertLayer config).route fns config topk x (some tokens) = .ok routing) (t j : Nat) :
    0 < routing.weights t j := by
  obtain rfl := Except.ok.inj h
  refine mul_pos (div_pos (fns.sqrtsoftplus_pos _) ?_) config.routedScalingFactor_pos
  exact add_pos_of_nonneg_of_pos (Finset.sum_nonneg fun _ _ => (fns.sqrtsoftplus_pos _).le)
    (by positivity)

theorem nextPowerOf2_lt {count : Nat} (h : 0 < count) : nextPowerOf2 count < 2 * count := by
  unfold nextPowerOf2
  split
  · omega
  · have hlog := Nat.log2_self_le (n := count - 1) (by omega)
    rw [Nat.pow_succ]
    omega

omit [IsStrictOrderedRing K] in
/-- With the experts split every rank drops a slot of the last expert: no stack has a place of its
number. -/
theorem LoadedExperts.routedSum_last {loaded : LoadedExperts K}
    {x : Nat → TokenRow K config.hiddenSize} {tokens : Nat → Nat} {routing : V4Routing K}
    (hroute : (lastExpertLayer config).route fns config topk x (some tokens) = .ok routing)
    (hcount : loaded.count ≤ config.numExperts - 1) (t : Nat) :
    loaded.routedSum fns config x routing t = 0 := by
  refine Finset.sum_eq_zero fun j _ => if_neg ?_
  rw [lastExpertLayer_ids hroute]
  exact not_lt.mpr hcount

/-- The routed part of the block is not zero on the probe. -/
theorem routed_probe_pos (quant : DeepseekV4Fp8Config)
    {x : Nat → TokenRow K config.hiddenSize} {tokens : Nat → Nat} {routing : V4Routing K} {t : Nat}
    (hroute : (lastExpertLayer config).route fns config topk x (some tokens) = .ok routing)
    (hx : x t = probeRow config) (col : Fin config.hiddenSize) :
    0 < (∑ j ∈ range config.topK, routing.weights t j •
      ((onesCheckpoint (K := K) quant config.numExperts).expert config.toMoeModelConfig
        (routing.ids t j)).apply (config.act fns) config.moeIntermediateSize (x t)) col := by
  rw [Finset.sum_apply]
  refine Finset.sum_pos (fun j _ => ?_) (Finset.nonempty_range_iff.mpr config.topK_pos.ne')
  rw [hx]
  exact mul_pos (lastExpertLayer_weights_pos hroute t j) (onesCheckpoint_apply_pos fns config _ col)

theorem not_placementIndependent_of_split_quantised (hsplit : placement.SplitsExperts)
    (hn : 0 < n) : ¬ PlacementIndependent fns config topk tile (some quant) placement n := by
  intro hindependent
  obtain ⟨loaded, hload, routing, hroute, ⟨out, hout⟩, hall⟩ :=
    hindependent (onesCheckpoint quant config.numExperts) rfl (onesCheckpoint_complete quant _)
      (lastExpertLayer config) (lastExpertLayer_valid config) (fun _ => zeroMemory)
      (fun _ => probeRow config) (fun _ => 0) 0 placement.dpSize_pos
  have hids := lastExpertLayer_ids hroute
  have hlane : ∀ lane < placement.tpSize, (loaded lane).count ≤ config.numExperts - 1 ∧
      ∃ leaves, (loaded lane).apply fns config n (fun _ => probeRow config) routing tile =
        .ok leaves ∧ ∀ out, leaves out ↔ out = (List.range n).map
          ((loaded lane).routedSum fns config (fun _ => probeRow config) routing) := by
    intro lane hlane
    have hrank : (placement.ranks placement.dpSize_pos hlane).expertParallel = true ∧
        1 < (placement.ranks placement.dpSize_pos hlane).epSize := hsplit
    obtain ⟨params, hparams, htiles, hinter⟩ :=
      DeepseekV4MoE.count_of_split hrank (hload lane hlane)
    obtain ⟨hpos, hpast⟩ := count_le_last hsplit.2 (numExperts_pos config) htiles
    have hpow := nextPowerOf2_lt hpos
    refine ⟨by omega, ?_⟩
    have happly := LoadedExperts.applyMxfp4_eq fns (fun _ => probeRow config) tile
      (hinter.symm ▸ config.moeIntermediateSize_pos) hn hpos fun t _ j _ => .inr (by
        rw [hids]
        omega)
    rw [hparams] at happly ⊢
    exact happly
  have hdiv : placement.tpSize ∣ config.moeIntermediateSize := by
    obtain ⟨block, -, hcreate, -⟩ :=
      DeepseekV4MoE.load_perExpert_inv (hload 0 placement.tpSize_pos)
    obtain ⟨-, localInter, hlocal, -⟩ := DeepseekV4MoE.create_inv hcreate
    exact Dvd.intro_left localInter hlocal
  have hreturned := (DeepseekV4MoE.returns_iff tile loaded placement.tpSize_pos hdiv hroute
    (fun lane hlane' => (hlane lane hlane').2) out).mp hout
  -- the rows the group returns and the rows of the block, at the first token
  have hrows := hreturned.symm.trans (hall out hout)
  have hrow := List.map_inj_left.mp hrows 0 (List.mem_range.mpr hn)
  have hzero : ∑ lane ∈ range placement.tpSize,
      (loaded lane).routedSum fns config (fun _ => probeRow config) routing 0 = 0 :=
    Finset.sum_eq_zero fun lane hmem =>
      LoadedExperts.routedSum_last hroute (hlane lane (Finset.mem_range.mp hmem)).1 0
  rw [hzero, V4Layer.value, add_left_inj] at hrow
  have hpos := routed_probe_pos quant hroute (t := 0) rfl ⟨0, config.hiddenSize_pos⟩
  rw [← hrow] at hpos
  exact lt_irrefl _ hpos

omit [IsStrictOrderedRing K] in
/-- A batch without a slot does not get through the grouped GEMM. -/
theorem not_placementIndependent_of_empty_quantised :
    ¬ PlacementIndependent fns config topk tile (some quant) placement 0 := by
  intro hindependent
  obtain ⟨loaded, hload, -, -, ⟨out, routing, -, locals, hlocals, -⟩, -⟩ :=
    hindependent (onesCheckpoint quant config.numExperts) rfl (onesCheckpoint_complete quant _)
      (lastExpertLayer config) (lastExpertLayer_valid config) (fun _ => zeroMemory)
      (fun _ => probeRow config) (fun _ => 0) 0 placement.dpSize_pos
  obtain ⟨-, params, -, -, hparams⟩ :=
    DeepseekV4MoE.load_perExpert_inv (hload 0 placement.tpSize_pos)
  obtain ⟨leaves, happly, -⟩ := hlocals 0 placement.tpSize_pos
  rw [hparams] at happly
  change LoadedExperts.applyMxfp4 .. = _ at happly
  unfold LoadedExperts.applyMxfp4 at happly
  split at happly
  · obtain ⟨executes, hok, -⟩ := map_eq_ok.mp happly
    obtain ⟨hcompiles, -⟩ := RoutedCall.fusedMoe_ok.mp hok
    have hslots := hcompiles.slots
    rw [RoutedCall.align_numSlots] at hslots
    exact absurd hslots (by simp [RoutedCall.numSlots, LoadedExperts.mxfp4Call])
  · cases happly

end Split

/-- **When DeepSeek-V4's experts may be anywhere.** A stacked model returns the value of the block
on every rank exactly when no experts are dealt to ranks, or there is no token; a quantised one
when no experts are dealt, there is a token, and the hidden size is whole scale groups. -/
theorem placementIndependent_iff [IsStrictOrderedRing K] (fns : V4Functions K)
    (config : V4MoeConfig K) (topk : TorchTopk K) (tile : MoeTile)
    (quant : Option DeepseekV4Fp8Config) (placement : V4Placement) (n : Nat)
    (accepted : placement.Accepted config quant) :
    PlacementIndependent fns config topk tile quant placement n ↔
      match quant with
      | none => ¬ placement.SplitsExperts ∨ n = 0
      | some _ => ¬ placement.SplitsExperts ∧ 0 < n ∧ 32 ∣ config.hiddenSize := by
  cases quant with
  | none =>
    constructor
    · intro hindependent
      by_contra hnot
      rw [not_or, not_not] at hnot
      exact not_placementIndependent_of_split hnot.1 (Nat.pos_of_ne_zero hnot.2) accepted
        hindependent
    · rintro (hdense | rfl)
      · exact placementIndependent_of_dense accepted hdense fun h => absurd rfl h
      · by_cases hsplit : placement.SplitsExperts
        · exact placementIndependent_of_empty accepted hsplit
        · exact placementIndependent_of_dense accepted hsplit fun h => absurd rfl h
  | some quant =>
    constructor
    · intro hindependent
      have hn : 0 < n := by
        refine Nat.pos_of_ne_zero ?_
        rintro rfl
        exact not_placementIndependent_of_empty_quantised hindependent
      refine ⟨fun hsplit => not_placementIndependent_of_split_quantised hsplit hn hindependent, hn,
        ?_⟩
      obtain ⟨loaded, hload, -⟩ := hindependent (onesCheckpoint quant config.numExperts) rfl
        (onesCheckpoint_complete quant _) (lastExpertLayer config) (lastExpertLayer_valid config)
        (fun _ => zeroMemory) (fun _ => probeRow config) (fun _ => 0) 0 placement.dpSize_pos
      exact DeepseekV4MoE.hidden_of_load (onesCheckpoint_complete (K := K) quant
        config.toMoeModelConfig).1 (hload 0 placement.tpSize_pos)
    · rintro ⟨hdense, hn, hhidden⟩
      exact placementIndependent_of_dense accepted hdense fun _ => ⟨hn, hhidden⟩

/-! ### Two ranks -/

/-- The functions the names stand for. -/
noncomputable def realFunctions : V4Functions ℝ where
  sqrtsoftplus := fun z => √(Real.log (1 + Real.exp z))
  silu := fun z => z / (1 + Real.exp (-z))
  sqrtsoftplus_pos := fun z => Real.sqrt_pos.mpr (Real.log_pos (by linarith [Real.exp_pos z]))
  silu_pos := fun z hz => div_pos hz (by linarith [Real.exp_pos (-z)])

theorem two_experts_enough : 1 ≤ 2 := Nat.le_succ 1

theorem ten_limit_pos : ∀ limit ∈ some ((10 : Nat) : ℝ), 0 < limit := fun limit h => by
  rw [Option.mem_some_iff] at h
  rw [← h]
  norm_num

theorem unit_factor_pos : (0 : ℝ) < 1 := one_pos

/-- Two experts of width 2, one for each token. -/
def twoExperts : V4MoeConfig ℝ where
  numExperts := 2
  hiddenSize := 1
  moeIntermediateSize := 2
  topK := 1
  scoringFunc := "sqrtsoftplus"
  nSharedExperts := 1
  swigluLimit := some (10 : Nat)
  routedScalingFactor := 1
  topK_pos := Nat.one_pos
  topK_le := two_experts_enough
  hiddenSize_pos := Nat.one_pos
  moeIntermediateSize_pos := Nat.two_pos
  swigluLimit_pos := ten_limit_pos
  routedScalingFactor_pos := unit_factor_pos

/-- Two lanes, the experts dealt to them or not. -/
def twoLanes (expertParallel : Bool) : V4Placement where
  dpSize := 1
  tpSize := 2
  expertParallel := expertParallel
  dpAttention := false
  dpSize_pos := Nat.one_pos
  tpSize_pos := Nat.two_pos

theorem block_sixteen_pos : 0 < 16 := by decide

theorem block_sixty_four_pos : 0 < 64 := by decide

theorem block_one_twenty_eight_pos : 0 < 128 := by decide

/-- A tile configuration. -/
def smallTile : MoeTile where
  blockM := 16
  blockN := 64
  blockK := 128
  groupM := 1
  numWarps := 4
  numStages := 3
  blockM_pos := block_sixteen_pos
  blockN_pos := block_sixty_four_pos
  blockK_pos := block_one_twenty_eight_pos
  groupM_pos := Nat.one_pos

theorem twoLanes_accepted (expertParallel : Bool) :
    (twoLanes expertParallel).Accepted twoExperts none := by
  intro replica lane hreplica hlane
  have hdiv : ∀ what, divide 2 2 what = .ok 1 := fun _ => rfl
  rw [DeepseekV4MoE.create_of_scoring rfl rfl]
  cases expertParallel with
  | true =>
    have hsplit : ExpertBlock.create twoExperts.toMoeModelConfig
        ((twoLanes true).ranks hreplica hlane) = .ok ⟨1, 2, true, 1, lane * 1⟩ :=
      (if_pos ⟨rfl, Nat.one_lt_two⟩).trans (map_eq_ok.mpr ⟨1, hdiv _, rfl⟩)
    exact ⟨_, bind_eq_ok.mpr ⟨_, hsplit, bind_eq_ok.mpr ⟨1, hdiv _, rfl⟩⟩⟩
  | false =>
    have hdense : ExpertBlock.create twoExperts.toMoeModelConfig
        ((twoLanes false).ranks hreplica hlane) = .ok ⟨1, 1, false, 2, 0⟩ :=
      (if_neg fun h => Bool.false_ne_true h.1).trans (map_eq_ok.mpr ⟨1, hdiv _, rfl⟩)
    exact ⟨_, bind_eq_ok.mpr ⟨_, hdense, bind_eq_ok.mpr ⟨1, hdiv _, rfl⟩⟩⟩

/-- Two lanes that cut both experts, on three tokens. -/
theorem twoLanes_independent : PlacementIndependent realFunctions twoExperts (sortedTopk ℝ)
    smallTile none (twoLanes false) 3 :=
  (placementIndependent_iff realFunctions twoExperts (sortedTopk ℝ) smallTile none (twoLanes false)
    3 (twoLanes_accepted false)).mpr (.inl fun h => absurd h.1 Bool.false_ne_true)

/-- Two lanes with an expert each: a token of expert 1 raises on both. -/
theorem second_expert_raises :
    (twoLanes true).Accepted twoExperts none ∧
      (∀ weight : ExpertStacks ℝ, (weight .gateUp).count = 1 →
        (LoadedExperts.unquantized weight).applyUnquantized realFunctions twoExperts 1
            (fun _ _ => 1) ⟨fun _ _ => 1, fun _ _ => 1⟩ =
          .error (.indexError "index 1 is out of bounds for dimension 0 with size 1")) ∧
      ¬ PlacementIndependent realFunctions twoExperts (sortedTopk ℝ) smallTile none (twoLanes true)
        1 := by
  refine ⟨twoLanes_accepted true, fun weight hcount => ?_, ?_⟩
  · have hplaces : (LoadedExperts.unquantized weight).count = 1 := hcount
    have hround : ∀ final, (LoadedExperts.unquantized weight).addExpert realFunctions twoExperts
        (fun _ _ => 1) ⟨fun _ _ => 1, fun _ _ => 1⟩ final 1 =
          .error (.indexError "index 1 is out of bounds for dimension 0 with size 1") := by
      intro final
      rw [LoadedExperts.addExpert, hplaces]
      rfl
    change Except.map _ (LoadedExperts.addExpert .. >>= _) = _
    rw [hround]
    rfl
  · exact not_placementIndependent_of_split ⟨rfl, by decide⟩ Nat.one_pos (twoLanes_accepted true)

end RapidLlm
