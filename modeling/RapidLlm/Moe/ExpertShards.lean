import Mathlib.Tactic.Linarith
import RapidLlm.Moe.ExpertLoader

/-!
# RapidLlm.Moe.ExpertShards

**Which scale an expert's element is multiplied by after loading.** A run over a checkpoint's keys
leaves every local expert's tensors in their views, whatever the order (`loadKeys_loaded`). The
grouped GEMM then divides a stacked row by `group_n` and a column by `group_k`, and
`expert_scales_aligned_iff` says when that lands on the scale the checkpoint has for the element.

Gate and up are stacked, so up's rows have to begin on a block boundary whatever the rank; down is
cut along its columns, so the ranks after the first have to begin on one. An mxfp4 slice has to
stay within the whole groups of its local width.
-/

namespace RapidLlm

/-! ### A run over the keys -/

namespace ExpertStacks

variable {X : Type} {block : ExpertBlock} {ranks : ExpertRanks}
  {tensors : Nat → ExpertProj → Grid X} {start params : ExpertStacks X}
  {done done' : Nat → ExpertProj → Prop}

theorem Progress.mono (hp : Progress block ranks tensors start done params)
    (h : ∀ e proj, done' e proj → done e proj) :
    Progress block ranks tensors start done' params where
  shape := hp.shape
  filled := fun e proj hdone hown => hp.filled e proj (h e proj hdone) hown
  kept := hp.kept

namespace SameShape

variable {params₀ params₁ params₂ : ExpertStacks X}

theorem symm (h : params₀.SameShape params₁) : params₁.SameShape params₀ := by
  intro stack
  obtain ⟨hcount, hrows, hcols⟩ := h stack
  exact ⟨hcount.symm, hrows.symm, hcols.symm⟩

theorem trans (h : params₀.SameShape params₁) (h' : params₁.SameShape params₂) :
    params₀.SameShape params₂ := by
  intro stack
  obtain ⟨hcount, hrows, hcols⟩ := h stack
  obtain ⟨hcount', hrows', hcols'⟩ := h' stack
  exact ⟨hcount'.trans hcount, hrows'.trans hrows, hcols'.trans hcols⟩

end SameShape

/-- A load allocates nothing. -/
theorem load_shape {params' : ExpertStacks X} {e : Nat} {proj : ExpertProj} {t : Grid X}
    (h : block.load ranks params e proj t = .ok params') : params.SameShape params' :=
  ((Progress.init block ranks (fun _ _ => t) params).load h).shape

end ExpertStacks

namespace ExpertParams

variable {W A : Type} {config : MoeModelConfig} {ranks : ExpertRanks} {block : ExpertBlock}
  {quant : ExpertQuant} {ckpt : ExpertCheckpoint W A} {start params params' : ExpertParams W A}
  {keys : List ExpertKey}

/-- The weights and the scales after a set of keys. -/
structure Loaded (config : MoeModelConfig) (ranks : ExpertRanks) (block : ExpertBlock)
    (quant : ExpertQuant) (ckpt : ExpertCheckpoint W A) (start : ExpertParams W A)
    (keys : List ExpertKey) (params : ExpertParams W A) : Prop where
  weight : ExpertStacks.Progress block ranks (ckpt.weightTensor config quant) start.weight
    (fun e proj => ⟨e, proj, .weight⟩ ∈ keys) params.weight
  scaleInv : ExpertStacks.Progress block ranks (ckpt.scaleTensor config quant) start.scaleInv
    (fun e proj => ⟨e, proj, .weightScaleInv⟩ ∈ keys) params.scaleInv

theorem Loaded.init (config : MoeModelConfig) (ranks : ExpertRanks) (block : ExpertBlock)
    (quant : ExpertQuant) (ckpt : ExpertCheckpoint W A) (start : ExpertParams W A) :
    Loaded config ranks block quant ckpt start [] start where
  weight := (ExpertStacks.Progress.init _ _ _ _).mono fun _ _ h => absurd h List.not_mem_nil
  scaleInv := (ExpertStacks.Progress.init _ _ _ _).mono fun _ _ h => absurd h List.not_mem_nil

theorem Loaded.loadKey {key : ExpertKey} (hl : Loaded config ranks block quant ckpt start keys params)
    (h : params.loadKey config ranks block quant ckpt key = .ok params') :
    Loaded config ranks block quant ckpt start (key :: keys) params' := by
  obtain ⟨e, proj, leaf⟩ := key
  unfold ExpertParams.loadKey at h
  cases leaf with
  | weight =>
    cases hload : block.load ranks params.weight e proj (ckpt.weightTensor config quant e proj) with
    | error raised => simp [hload, Except.map] at h
    | ok weight =>
      simp only [hload, Except.map, Except.ok.injEq] at h
      subst h
      refine ⟨(hl.weight.load hload).mono ?_, hl.scaleInv.mono ?_⟩
      · intro e' proj' hmem
        simpa using hmem
      · intro e' proj' hmem
        simpa using hmem
  | weightScaleInv =>
    cases hload : block.load ranks params.scaleInv e proj
        (ckpt.scaleTensor config quant e proj) with
    | error raised => simp [hload, Except.map] at h
    | ok scaleInv =>
      simp only [hload, Except.map, Except.ok.injEq] at h
      subst h
      refine ⟨hl.weight.mono ?_, (hl.scaleInv.load hload).mono ?_⟩
      · intro e' proj' hmem
        simpa using hmem
      · intro e' proj' hmem
        simpa using hmem

theorem Loaded.loadKeys {more : List ExpertKey}
    (hl : Loaded config ranks block quant ckpt start keys params)
    (h : ExpertParams.loadKeys config ranks block quant ckpt more params = .ok params') :
    Loaded config ranks block quant ckpt start (more.reverse ++ keys) params' := by
  induction more generalizing keys params with
  | nil =>
    cases h
    exact hl
  | cons key more ih =>
    unfold ExpertParams.loadKeys at h
    obtain ⟨next, hnext, hrest⟩ := bind_eq_ok.mp h
    rw [List.reverse_cons, List.append_assoc]
    exact ih (hl.loadKey hnext) hrest

/-- A run over a checkpoint's keys leaves each of its tensors in its place. -/
theorem loadKeys_loaded
    (h : ExpertParams.loadKeys config ranks block quant ckpt keys start = .ok params) :
    Loaded config ranks block quant ckpt start keys.reverse params := by
  have hl := (Loaded.init config ranks block quant ckpt start).loadKeys h
  rwa [List.append_nil] at hl

/-- Parameters allocated alike. -/
def SameShape (params params' : ExpertParams W A) : Prop :=
  params.weight.SameShape params'.weight ∧ params.scaleInv.SameShape params'.scaleInv

/-- Whether a key loads depends on no value. -/
theorem loadKey_congr (ckpt' : ExpertCheckpoint W A) {key : ExpertKey} {other : ExpertParams W A}
    (hshape : params.SameShape other)
    (h : params.loadKey config ranks block quant ckpt key = .ok params') :
    ∃ other', other.loadKey config ranks block quant ckpt' key = .ok other' ∧
      params'.SameShape other' := by
  obtain ⟨e, proj, leaf⟩ := key
  unfold ExpertParams.loadKey at h ⊢
  cases leaf with
  | weight =>
    cases hload : block.load ranks params.weight e proj (ckpt.weightTensor config quant e proj) with
    | error raised => simp [hload, Except.map] at h
    | ok weight =>
      simp only [hload, Except.map, Except.ok.injEq] at h
      subst h
      obtain ⟨weight', hload'⟩ := ExpertStacks.load_congr hload hshape.1
        (ckpt'.weightTensor config quant e proj) rfl rfl
      refine ⟨{ other with weight := weight' }, by simp [hload', Except.map], ?_, hshape.2⟩
      exact (ExpertStacks.load_shape hload).symm.trans
        (hshape.1.trans (ExpertStacks.load_shape hload'))
  | weightScaleInv =>
    cases hload : block.load ranks params.scaleInv e proj
        (ckpt.scaleTensor config quant e proj) with
    | error raised => simp [hload, Except.map] at h
    | ok scaleInv =>
      simp only [hload, Except.map, Except.ok.injEq] at h
      subst h
      obtain ⟨scaleInv', hload'⟩ := ExpertStacks.load_congr hload hshape.2
        (ckpt'.scaleTensor config quant e proj) rfl rfl
      refine ⟨{ other with scaleInv := scaleInv' }, by simp [hload', Except.map], hshape.1, ?_⟩
      exact (ExpertStacks.load_shape hload).symm.trans
        (hshape.2.trans (ExpertStacks.load_shape hload'))

/-- Whether a checkpoint loads depends on no value. -/
theorem loadKeys_congr (ckpt' : ExpertCheckpoint W A) {other : ExpertParams W A}
    (hshape : params.SameShape other)
    (h : ExpertParams.loadKeys config ranks block quant ckpt keys params = .ok params') :
    ∃ other', ExpertParams.loadKeys config ranks block quant ckpt' keys other = .ok other' := by
  induction keys generalizing params other with
  | nil => exact ⟨other, rfl⟩
  | cons key keys ih =>
    unfold ExpertParams.loadKeys at h ⊢
    obtain ⟨next, hnext, hrest⟩ := bind_eq_ok.mp h
    obtain ⟨next', hnext', hshape'⟩ := loadKey_congr ckpt' hshape hnext
    rw [hnext']
    exact ih hshape' hrest

end ExpertParams

/-! ### Shards -/

namespace ExpertBlock

/-- The number of ways an expert is cut. -/
def shards (block : ExpertBlock) (ranks : ExpertRanks) : Nat :=
  if block.epEnabled then 1 else ranks.tpSize

/-- Which of the cuts the rank holds. -/
def shardIndex (block : ExpertBlock) (ranks : ExpertRanks) : Nat :=
  if block.epEnabled then 0 else ranks.tpRank

/-- What `SparseMoeBlock.__init__` leaves for its loader. -/
structure Created (config : MoeModelConfig) (ranks : ExpertRanks) (block : ExpertBlock) : Prop where
  hidden_eq : block.hiddenSize = config.hiddenSize
  shards_pos : 0 < block.shards ranks
  intermediate_eq : config.moeIntermediateSize = block.shards ranks * block.moeIntermediateSize
  owned : ∀ slot < block.numLocalExperts, block.expertOffset + slot < config.numExperts ∧
    block.Owns (block.expertOffset + slot) ∧ block.slot (block.expertOffset + slot) = slot

theorem create_inv {config : MoeModelConfig} {ranks : ExpertRanks} {block : ExpertBlock}
    (h : create config ranks = .ok block) : Created config ranks block := by
  unfold create at h
  split at h
  · cases hdiv : divide config.numExperts ranks.epSize "experts per EP rank" with
    | error raised => simp [hdiv, Except.map] at h
    | ok numLocal =>
      obtain ⟨hpos, hmul⟩ := divide_inv hdiv
      simp only [hdiv, Except.map, Except.ok.injEq] at h
      subst h
      refine ⟨rfl, Nat.one_pos, (Nat.one_mul _).symm, ?_⟩
      intro slot hslot
      refine ⟨?_, fun _ => ⟨Nat.le_add_right _ _, by simpa using hslot⟩, by simp [ExpertBlock.slot]⟩
      have hle : ranks.epRank * numLocal + numLocal ≤ ranks.epSize * numLocal := by
        rw [← Nat.succ_mul]
        exact Nat.mul_le_mul_right _ ranks.epRank_lt
      simp only at hslot ⊢
      rw [Nat.mul_comm] at hmul
      omega
  · cases hdiv : divide config.moeIntermediateSize ranks.tpSize "MoE intermediate" with
    | error raised => simp [hdiv, Except.map] at h
    | ok localSize =>
      obtain ⟨hpos, hmul⟩ := divide_inv hdiv
      simp only [hdiv, Except.map, Except.ok.injEq] at h
      subst h
      refine ⟨rfl, hpos, by rw [← hmul]; exact Nat.mul_comm _ _, ?_⟩
      intro slot hslot
      exact ⟨by simpa using hslot, fun h => (by cases h), by simp [ExpertBlock.slot]⟩

section Incoming

variable {X : Type} (block : ExpertBlock) (ranks : ExpertRanks) (t : Grid X)

/-- The share of a gate or up tensor: whole rows. -/
theorem incoming_rows {proj : ExpertProj} (hproj : proj.stack = .gateUp) :
    (block.incoming ranks proj t).rows = t.rows / block.shards ranks ∧
      (block.incoming ranks proj t).cols = t.cols ∧ ∀ i j, (block.incoming ranks proj t).entry i j =
        t.entry (block.shardIndex ranks * (t.rows / block.shards ranks) + i) j := by
  have hid : proj.id < 2 := by
    cases proj with
    | gate => exact Nat.two_pos
    | up => exact Nat.one_lt_two
    | down => cases hproj
  unfold incoming shards shardIndex ExpertRanks.narrow
  split
  · simp
  · split
    · exact ⟨rfl, rfl, fun _ _ => rfl⟩
    · have hone : ranks.tpSize = 1 := by have := ranks.tpRank_lt; omega
      have hzero : ranks.tpRank = 0 := by have := ranks.tpRank_lt; omega
      simp [hone, hzero]

/-- The share of a down tensor: whole columns. -/
theorem incoming_cols :
    (block.incoming ranks .down t).rows = t.rows ∧
      (block.incoming ranks .down t).cols = t.cols / block.shards ranks ∧
      ∀ i j, (block.incoming ranks .down t).entry i j =
        t.entry i (block.shardIndex ranks * (t.cols / block.shards ranks) + j) := by
  unfold incoming shards shardIndex ExpertRanks.narrow
  split
  · simp
  · split
    · exact ⟨rfl, rfl, fun _ _ => rfl⟩
    · have hone : ranks.tpSize = 1 := by have := ranks.tpRank_lt; omega
      have hzero : ranks.tpRank = 0 := by have := ranks.tpRank_lt; omega
      simp [hone, hzero]

end Incoming

end ExpertBlock

namespace ExpertStacks.Filled

variable {X : Type} {block : ExpertBlock} {ranks : ExpertRanks} {params : ExpertStacks X} {e : Nat}
  {t : Grid X}

theorem gate (h : params.Filled block ranks e .gate t) :
    (params .gateUp).rows / 2 = t.rows / block.shards ranks ∧ (params .gateUp).cols = t.cols ∧
      ∀ i j, i < (params .gateUp).rows / 2 → (params .gateUp).entry (block.slot e) i j =
        t.entry (block.shardIndex ranks * (t.rows / block.shards ranks) + i) j := by
  obtain ⟨hrows, hcols, hentry⟩ :=
    block.incoming_rows ranks t (rfl : ExpertProj.gate.stack = .gateUp)
  have he := h.entry_eq
  simp only [hentry, ExpertProj.stack, StackedParam.viewRows_gate, StackedParam.viewStart_gate,
    Nat.zero_add] at he
  exact ⟨h.rows_eq.trans hrows, h.cols_eq.trans hcols, he⟩

theorem up (h : params.Filled block ranks e .up t) :
    (params .gateUp).rows / 2 = t.rows / block.shards ranks ∧ (params .gateUp).cols = t.cols ∧
      ∀ i j, i < (params .gateUp).rows / 2 →
        (params .gateUp).entry (block.slot e) ((params .gateUp).rows / 2 + i) j =
          t.entry (block.shardIndex ranks * (t.rows / block.shards ranks) + i) j := by
  obtain ⟨hrows, hcols, hentry⟩ :=
    block.incoming_rows ranks t (rfl : ExpertProj.up.stack = .gateUp)
  have he := h.entry_eq
  simp only [hentry, ExpertProj.stack, StackedParam.viewRows_up, StackedParam.viewStart_up] at he
  exact ⟨h.rows_eq.trans hrows, h.cols_eq.trans hcols, he⟩

theorem down (h : params.Filled block ranks e .down t) :
    (params .down).rows = t.rows ∧ (params .down).cols = t.cols / block.shards ranks ∧
      ∀ i j, i < (params .down).rows → (params .down).entry (block.slot e) i j =
        t.entry i (block.shardIndex ranks * (t.cols / block.shards ranks) + j) := by
  obtain ⟨hrows, hcols, hentry⟩ := block.incoming_cols ranks t
  have he := h.entry_eq
  simp only [hentry, ExpertProj.stack, StackedParam.viewRows_down, StackedParam.viewStart_down,
    Nat.zero_add] at he
  exact ⟨h.rows_eq.trans hrows, h.cols_eq.trans hcols, he⟩

end ExpertStacks.Filled

/-! ### Blocks over an extent -/

namespace ExpertQuant

theorem blocksOf_mul {group : Nat} (hg : 0 < group) (count : Nat) :
    blocksOf (group * count) group = count := by
  unfold blocksOf
  rw [Nat.add_sub_assoc hg, Nat.mul_add_div hg, Nat.div_eq_of_lt (Nat.sub_lt hg Nat.one_pos)]
  rfl

theorem packFactor_pos (quant : ExpertQuant) : 0 < quant.packFactor := by
  cases quant <;> simp [packFactor]

theorem le_blocksOf_mul {group : Nat} (hg : 0 < group) (size : Nat) :
    size ≤ blocksOf size group * group := by
  have h := Nat.lt_div_mul_add (a := size + group - 1) hg
  unfold blocksOf
  omega

/-- As many blocks as whole groups: there is no rest. -/
theorem dvd_of_blocksOf_le {group size : Nat} (hg : 0 < group) (h : blocksOf size group ≤ size / group) :
    group ∣ size := by
  have hle := le_blocksOf_mul hg size
  have hmul := Nat.mul_le_mul_right group h
  have hfloor := Nat.div_mul_le_self size group
  exact Dvd.intro_left _ (le_antisymm hfloor (hle.trans hmul))

end ExpertQuant

/-! ### What an element is multiplied by -/

namespace ExpertBlock

/-- The rows of a projection in the rank's slice. -/
def sliceRows (block : ExpertBlock) : ExpertProj → Nat
  | .gate => block.moeIntermediateSize
  | .up => block.moeIntermediateSize
  | .down => block.hiddenSize

/-- The row of the stacked weight a row of the slice is. -/
def stackedRow (block : ExpertBlock) : ExpertProj → Nat → Nat
  | .gate, i => i
  | .up, i => block.moeIntermediateSize + i
  | .down, i => i

/-- The row of the full matrix a row of the slice is. -/
def originRow (block : ExpertBlock) (ranks : ExpertRanks) : ExpertProj → Nat → Nat
  | .gate, i => block.shardIndex ranks * block.moeIntermediateSize + i
  | .up, i => block.shardIndex ranks * block.moeIntermediateSize + i
  | .down, i => i

/-- The column of the full matrix a column of the slice is: slices are cut in stored words. -/
def originCol (block : ExpertBlock) (ranks : ExpertRanks) (quant : ExpertQuant) :
    ExpertProj → Nat → Nat
  | .gate, j => j
  | .up, j => j
  | .down, j => block.shardIndex ranks *
      (quant.packFactor * (block.moeIntermediateSize / quant.packFactor)) + j

end ExpertBlock

/-- The scale of the grouped GEMM for a stacked row and column. The mxfp4 branch masks the groups
past the reduction length `k`. -/
def ExpertQuant.appliedScale (quant : ExpertQuant) (scale : StackedParam ℚ) (k slot row col : Nat) :
    ℚ :=
  match quant with
  | blocks groupN groupK .. => scale.entry slot (row / groupN) (col / groupK)
  | mxfp4 => if col / mxfp4Group < k / mxfp4Group then scale.entry slot row (col / mxfp4Group) else 0

/-- The checkpoint's scale for an element of a full matrix. -/
def ExpertCheckpoint.scaleOf (ckpt : ExpertCheckpoint Nat ℚ) (quant : ExpertQuant) (expert : Nat)
    (proj : ExpertProj) (row col : Nat) : ℚ :=
  ckpt.scaleInv expert proj (row / quant.groupN) (col / quant.groupK)

theorem ExpertCheckpoint.scaleOf_mxfp4 (ckpt : ExpertCheckpoint Nat ℚ) (expert : Nat)
    (proj : ExpertProj) (row col : Nat) : ckpt.scaleOf .mxfp4 expert proj row col =
      ckpt.scaleInv expert proj row (col / mxfp4Group) := by
  simp [scaleOf, ExpertQuant.groupN, ExpertQuant.groupK]

namespace ExpertBlock

/-- An element of a slice is the checkpoint's and has the checkpoint's scale. -/
structure ElementAligned (block : ExpertBlock) (ranks : ExpertRanks) (quant : ExpertQuant)
    (ckpt : ExpertCheckpoint Nat ℚ) (params : ExpertParams Nat ℚ) (slot : Nat) (proj : ExpertProj)
    (i j : Nat) : Prop where
  weight_eq : (params.weight proj.stack).entry slot (block.stackedRow proj i) (j / quant.packFactor) =
    ckpt.weight (block.expertOffset + slot) proj (block.originRow ranks proj i)
      (block.originCol ranks quant proj j / quant.packFactor)
  scale_eq : quant.appliedScale (params.scaleInv proj.stack)
      ((params.weight proj.stack).cols * quant.packFactor) slot (block.stackedRow proj i) j =
    ckpt.scaleOf quant (block.expertOffset + slot) proj (block.originRow ranks proj i)
      (block.originCol ranks quant proj j)

/-- Every element of every local expert is aligned. -/
def ScalesAligned (block : ExpertBlock) (ranks : ExpertRanks) (quant : ExpertQuant)
    (ckpt : ExpertCheckpoint Nat ℚ) (params : ExpertParams Nat ℚ) : Prop :=
  ∀ slot < block.numLocalExperts, ∀ proj i j, i < block.sliceRows proj →
    j < (params.weight proj.stack).cols * quant.packFactor →
      block.ElementAligned ranks quant ckpt params slot proj i j

/-- Shards that end where scale blocks do. -/
def OnBoundaries (block : ExpertBlock) (ranks : ExpertRanks) : ExpertQuant → Prop
  | .blocks groupN groupK .. => groupN ∣ block.moeIntermediateSize ∧
      (block.shardIndex ranks = 0 ∨ groupK ∣ block.moeIntermediateSize)
  | .mxfp4 => block.moeIntermediateSize % mxfp4Group < 8

/-- A rank without any expert element. -/
def NoElements (block : ExpertBlock) : Prop :=
  block.numLocalExperts = 0 ∨ block.moeIntermediateSize = 0 ∨ block.hiddenSize = 0

end ExpertBlock

/-- Every expert's tensors are in the checkpoint. -/
def MoeModelConfig.Covers (config : MoeModelConfig) (keys : List ExpertKey) : Prop :=
  ∀ expert < config.numExperts, ∀ proj leaf, ⟨expert, proj, leaf⟩ ∈ keys

section Alignment

variable {config : MoeModelConfig} {ranks : ExpertRanks} {block : ExpertBlock}
  {quant : ExpertQuant} {ckpt : ExpertCheckpoint Nat ℚ} {params : ExpertParams Nat ℚ}
  {emptyWeight : ExpertStack → Nat → Nat → Nat → Nat}
  {emptyScale : ExpertStack → Nat → Nat → Nat → ℚ} {keys : List ExpertKey}

/-- A loaded checkpoint: allocated by the quantisation method and filled by its keys. -/
structure LoadedCheckpoint (config : MoeModelConfig) (ranks : ExpertRanks) (block : ExpertBlock)
    (quant : ExpertQuant) (ckpt : ExpertCheckpoint Nat ℚ)
    (emptyScale : ExpertStack → Nat → Nat → Nat → ℚ) (params : ExpertParams Nat ℚ) : Prop where
  weightShape : ∀ stack, (params.weight stack).rows = (block.extents stack).1 ∧
    (params.weight stack).cols = (block.extents stack).2 / quant.packFactor
  scaleShape : ∀ stack, ((params.scaleInv stack).rows, (params.scaleInv stack).cols) =
    quant.scaleShape (block.extents stack).1 (block.extents stack).2
  weight : ∀ slot < block.numLocalExperts, ∀ proj, params.weight.Filled block ranks
    (block.expertOffset + slot) proj (ckpt.weightTensor config quant (block.expertOffset + slot) proj)
  scaleInv : ∀ slot < block.numLocalExperts, ∀ proj, params.scaleInv.Filled block ranks
    (block.expertOffset + slot) proj (ckpt.scaleTensor config quant (block.expertOffset + slot) proj)
  kept : ∀ stack slot i j, (params.scaleInv stack).Unviewed stack i →
    (params.scaleInv stack).entry slot i j = emptyScale stack slot i j

theorem loadedCheckpoint (hcreated : block.Created config ranks) (hcovers : config.Covers keys)
    (h : ExpertParams.loadKeys config ranks block quant ckpt keys
      (quant.createWeights block emptyWeight emptyScale) = .ok params) :
    LoadedCheckpoint config ranks block quant ckpt emptyScale params := by
  have hl := ExpertParams.loadKeys_loaded h
  have hmem : ∀ slot < block.numLocalExperts, ∀ proj leaf,
      (⟨block.expertOffset + slot, proj, leaf⟩ : ExpertKey) ∈ keys.reverse := by
    intro slot hslot proj leaf
    exact List.mem_reverse.mpr (hcovers _ (hcreated.owned slot hslot).1 proj leaf)
  refine ⟨?_, ?_, ?_, ?_, ?_⟩
  · intro stack
    exact (hl.weight.shape stack).2
  · intro stack
    obtain ⟨-, hrows, hcols⟩ := hl.scaleInv.shape stack
    exact Prod.ext hrows hcols
  · intro slot hslot proj
    exact hl.weight.filled _ proj (hmem slot hslot proj .weight) (hcreated.owned slot hslot).2.1
  · intro slot hslot proj
    exact hl.scaleInv.filled _ proj (hmem slot hslot proj .weightScaleInv)
      (hcreated.owned slot hslot).2.1
  · intro stack slot i j hun
    refine hl.scaleInv.kept stack slot i j ?_
    intro proj hproj
    obtain ⟨-, hrows, -⟩ := hl.scaleInv.shape stack
    rw [← StackedParam.viewStart_congr hrows, ← StackedParam.viewRows_congr hrows]
    exact hun proj hproj

/-! ### Where the loaded cells come from -/

namespace LoadedCheckpoint

variable (lc : LoadedCheckpoint config ranks block quant ckpt emptyScale params)
  (hcreated : block.Created config ranks) {slot : Nat} (hslot : slot < block.numLocalExperts)

include lc hcreated hslot

theorem weight_gate {i : Nat} (j : Nat) (hi : i < block.moeIntermediateSize) :
    (params.weight .gateUp).entry slot i j = ckpt.weight (block.expertOffset + slot) .gate
      (block.shardIndex ranks * block.moeIntermediateSize + i) j := by
  obtain ⟨hrows, -, hentry⟩ := (lc.weight slot hslot .gate).gate
  obtain ⟨-, -, hown⟩ := hcreated.owned slot hslot
  have hhalf : (params.weight .gateUp).rows / 2 = block.moeIntermediateSize := by
    rw [(lc.weightShape .gateUp).1]
    exact Nat.mul_div_cancel_left _ Nat.two_pos
  rw [hown, ← hrows, hhalf] at hentry
  exact hentry i j hi

theorem weight_up {i : Nat} (j : Nat) (hi : i < block.moeIntermediateSize) :
    (params.weight .gateUp).entry slot (block.moeIntermediateSize + i) j =
      ckpt.weight (block.expertOffset + slot) .up
        (block.shardIndex ranks * block.moeIntermediateSize + i) j := by
  obtain ⟨hrows, -, hentry⟩ := (lc.weight slot hslot .up).up
  obtain ⟨-, -, hown⟩ := hcreated.owned slot hslot
  have hhalf : (params.weight .gateUp).rows / 2 = block.moeIntermediateSize := by
    rw [(lc.weightShape .gateUp).1]
    exact Nat.mul_div_cancel_left _ Nat.two_pos
  rw [hown, ← hrows, hhalf] at hentry
  exact hentry i j hi

theorem weight_down {i : Nat} (j : Nat) (hi : i < block.hiddenSize) :
    (params.weight .down).entry slot i j = ckpt.weight (block.expertOffset + slot) .down i
      (block.shardIndex ranks * (block.moeIntermediateSize / quant.packFactor) + j) := by
  obtain ⟨-, hcols, hentry⟩ := (lc.weight slot hslot .down).down
  obtain ⟨-, -, hown⟩ := hcreated.owned slot hslot
  rw [hown, ← hcols, (lc.weightShape .down).1, (lc.weightShape .down).2] at hentry
  exact hentry i j hi

theorem scale_gate {i : Nat} (j : Nat) (hi : i < (params.scaleInv .gateUp).rows / 2) :
    (params.scaleInv .gateUp).entry slot i j = ckpt.scaleInv (block.expertOffset + slot) .gate
      (block.shardIndex ranks * ((params.scaleInv .gateUp).rows / 2) + i) j := by
  obtain ⟨hrows, -, hentry⟩ := (lc.scaleInv slot hslot .gate).gate
  obtain ⟨-, -, hown⟩ := hcreated.owned slot hslot
  rw [hown, ← hrows] at hentry
  exact hentry i j hi

theorem scale_up {i : Nat} (j : Nat) (hi : i < (params.scaleInv .gateUp).rows / 2) :
    (params.scaleInv .gateUp).entry slot ((params.scaleInv .gateUp).rows / 2 + i) j =
      ckpt.scaleInv (block.expertOffset + slot) .up
        (block.shardIndex ranks * ((params.scaleInv .gateUp).rows / 2) + i) j := by
  obtain ⟨hrows, -, hentry⟩ := (lc.scaleInv slot hslot .up).up
  obtain ⟨-, -, hown⟩ := hcreated.owned slot hslot
  rw [hown, ← hrows] at hentry
  exact hentry i j hi

theorem scale_down {i : Nat} (j : Nat) (hi : i < (params.scaleInv .down).rows) :
    (params.scaleInv .down).entry slot i j = ckpt.scaleInv (block.expertOffset + slot) .down i
      (block.shardIndex ranks * (params.scaleInv .down).cols + j) := by
  obtain ⟨-, hcols, hentry⟩ := (lc.scaleInv slot hslot .down).down
  obtain ⟨-, -, hown⟩ := hcreated.owned slot hslot
  rw [hown, ← hcols] at hentry
  exact hentry i j hi

/-- The weights land where they belong whatever the scales do. -/
theorem weight_aligned (proj : ExpertProj) {i j : Nat} (hi : i < block.sliceRows proj)
    (hj : j < (params.weight proj.stack).cols * quant.packFactor) :
    (params.weight proj.stack).entry slot (block.stackedRow proj i) (j / quant.packFactor) =
      ckpt.weight (block.expertOffset + slot) proj (block.originRow ranks proj i)
        (block.originCol ranks quant proj j / quant.packFactor) := by
  cases proj with
  | gate => exact lc.weight_gate hcreated hslot _ hi
  | up => exact lc.weight_up hcreated hslot _ hi
  | down =>
    refine (lc.weight_down hcreated hslot _ hi).trans (congrArg _ ?_)
    simp only [ExpertBlock.originCol]
    rw [Nat.mul_left_comm, Nat.mul_add_div quant.packFactor_pos]

end LoadedCheckpoint

/-! ### Both directions -/

section Blocks

variable {groupN groupK : Nat} {posN : 0 < groupN} {posK : 0 < groupK}

theorem LoadedCheckpoint.aligned_blocks
    (lc : LoadedCheckpoint config ranks block (.blocks groupN groupK posN posK) ckpt emptyScale params)
    (hcreated : block.Created config ranks) (hn : groupN ∣ block.moeIntermediateSize)
    (hk : block.shardIndex ranks = 0 ∨ groupK ∣ block.moeIntermediateSize) :
    block.ScalesAligned ranks (.blocks groupN groupK posN posK) ckpt params := by
  intro slot hslot proj i j hi hj
  refine ⟨lc.weight_aligned hcreated hslot proj hi hj, ?_⟩
  obtain ⟨count, hcount⟩ := hn
  have hhalf : (params.scaleInv .gateUp).rows / 2 = count := by
    have hshape := congrArg Prod.fst (lc.scaleShape .gateUp)
    have hrows : (params.scaleInv .gateUp).rows = ExpertQuant.blocksOf
        (2 * block.moeIntermediateSize) groupN := hshape
    rw [hrows, hcount, Nat.mul_left_comm, ExpertQuant.blocksOf_mul posN]
    exact Nat.mul_div_cancel_left _ Nat.two_pos
  -- a row of the slice, in blocks of the full matrix
  have horigin : ∀ i, (block.shardIndex ranks * block.moeIntermediateSize + i) / groupN =
      block.shardIndex ranks * count + i / groupN := by
    intro i
    rw [hcount, Nat.mul_left_comm, Nat.mul_add_div posN]
  cases proj with
  | gate =>
    have hrow : i / groupN < count := Nat.div_lt_of_lt_mul (hcount ▸ hi)
    refine (lc.scale_gate hcreated hslot (j / groupK) (by rw [hhalf]; exact hrow)).trans ?_
    rw [hhalf, ← horigin]
    rfl
  | up =>
    have hrow : i / groupN < count := Nat.div_lt_of_lt_mul (hcount ▸ hi)
    have hstacked : (block.moeIntermediateSize + i) / groupN = count + i / groupN := by
      rw [hcount, Nat.mul_add_div posN]
    have hup := lc.scale_up hcreated hslot (j / groupK) (by rw [hhalf]; exact hrow)
    rw [hhalf, ← hstacked, ← horigin] at hup
    exact hup
  | down =>
    have hshape : ((params.scaleInv .down).rows, (params.scaleInv .down).cols) =
        (ExpertQuant.blocksOf block.hiddenSize groupN,
          ExpertQuant.blocksOf block.moeIntermediateSize groupK) := lc.scaleShape .down
    obtain ⟨hrows, hcols⟩ := Prod.mk.inj hshape
    have hrow : i / groupN < (params.scaleInv .down).rows := by
      rw [hrows]
      exact Nat.div_lt_of_lt_mul (lt_of_lt_of_le hi
        (Nat.mul_comm _ _ ▸ ExpertQuant.le_blocksOf_mul posN block.hiddenSize))
    refine (lc.scale_down hcreated hslot (j / groupK) hrow).trans ?_
    have hcol : (block.shardIndex ranks * (1 * (block.moeIntermediateSize / 1)) + j) / groupK =
        block.shardIndex ranks * (params.scaleInv .down).cols + j / groupK := by
      rw [Nat.one_mul, Nat.div_one, hcols]
      rcases hk with hzero | ⟨countK, hcountK⟩
      · rw [hzero, Nat.zero_mul, Nat.zero_mul, Nat.zero_add, Nat.zero_add]
      · rw [hcountK, ExpertQuant.blocksOf_mul posK, Nat.mul_left_comm, Nat.mul_add_div posK]
    rw [← hcol]
    rfl

end Blocks

theorem LoadedCheckpoint.aligned_mxfp4
    (lc : LoadedCheckpoint config ranks block .mxfp4 ckpt emptyScale params)
    (hcreated : block.Created config ranks) (hrest : block.moeIntermediateSize % mxfp4Group < 8) :
    block.ScalesAligned ranks .mxfp4 ckpt params := by
  intro slot hslot proj i j hi hj
  refine ⟨lc.weight_aligned hcreated hslot proj hi hj, ?_⟩
  have hup : ((params.scaleInv .gateUp).rows, (params.scaleInv .gateUp).cols) =
      (2 * block.moeIntermediateSize, block.hiddenSize / 32) := lc.scaleShape .gateUp
  have hdown : ((params.scaleInv .down).rows, (params.scaleInv .down).cols) =
      (block.hiddenSize, block.moeIntermediateSize / 32) := lc.scaleShape .down
  obtain ⟨huprows, hupcols⟩ := Prod.mk.inj hup
  obtain ⟨hdownrows, hdowncols⟩ := Prod.mk.inj hdown
  have hhalf : (params.scaleInv .gateUp).rows / 2 = block.moeIntermediateSize := by
    rw [huprows]
    exact Nat.mul_div_cancel_left _ Nat.two_pos
  have hdvd : 32 ∣ block.hiddenSize := by
    have hfit : (params.scaleInv .gateUp).cols = ExpertQuant.blocksOf config.hiddenSize 32 :=
      (lc.scaleInv slot hslot .gate).gate.2.1
    rw [hupcols, ← hcreated.hidden_eq] at hfit
    exact ExpertQuant.dvd_of_blocksOf_le (by decide) hfit.ge
  -- the groups of the slice are whole, so the mask of the kernel hides none of them
  have hmask : j / mxfp4Group < (params.weight proj.stack).cols * 8 / mxfp4Group := by
    have hj' : j < (params.weight proj.stack).cols * 8 := hj
    rw [(lc.weightShape proj.stack).2] at hj' ⊢
    cases proj with
    | gate =>
      simp only [ExpertProj.stack, ExpertBlock.extents, ExpertQuant.packFactor, mxfp4Group] at hj' ⊢
      omega
    | up =>
      simp only [ExpertProj.stack, ExpertBlock.extents, ExpertQuant.packFactor, mxfp4Group] at hj' ⊢
      omega
    | down =>
      simp only [ExpertProj.stack, ExpertBlock.extents, ExpertQuant.packFactor, mxfp4Group]
        at hj' hrest ⊢
      omega
  refine (if_pos hmask).trans ?_
  rw [ExpertCheckpoint.scaleOf_mxfp4]
  cases proj with
  | gate =>
    have hentry := lc.scale_gate hcreated hslot (j / mxfp4Group) (by rw [hhalf]; exact hi)
    rw [hhalf] at hentry
    exact hentry
  | up =>
    have hentry := lc.scale_up hcreated hslot (j / mxfp4Group) (by rw [hhalf]; exact hi)
    rw [hhalf] at hentry
    exact hentry
  | down =>
    refine (lc.scale_down hcreated hslot (j / mxfp4Group) (by rw [hdownrows]; exact hi)).trans ?_
    have hcol : (block.shardIndex ranks * (8 * (block.moeIntermediateSize / 8)) + j) / mxfp4Group =
        block.shardIndex ranks * (params.scaleInv .down).cols + j / mxfp4Group := by
      have hwhole : 8 * (block.moeIntermediateSize / 8) =
          mxfp4Group * (block.moeIntermediateSize / 32) := by
        simp only [mxfp4Group] at hrest ⊢
        omega
      rw [hdowncols, hwhole, Nat.mul_left_comm, Nat.mul_add_div (by decide)]
    rw [← hcol]
    rfl

end Alignment

/-- A checkpoint whose scales tell the projections and the blocks along the cut apart: positive for
gate and down, negative for up, and none of them 0. -/
def markedCheckpoint : ExpertCheckpoint Nat ℚ where
  weight := fun _ _ _ _ => 0
  scaleInv := fun _ proj r c =>
    match proj with
    | .gate => (r + 1 : Nat)
    | .up => -(r + 1 : Nat)
    | .down => (c + 1 : Nat)

section Marked

variable {config : MoeModelConfig} {ranks : ExpertRanks} {block : ExpertBlock}
  {params : ExpertParams Nat ℚ} {slot : Nat}

/-- Whatever stands from the middle of the gate/up stack on is not a scale of gate. -/
theorem LoadedCheckpoint.marked_stack {quant : ExpertQuant}
    (lc : LoadedCheckpoint config ranks block quant markedCheckpoint (fun _ _ _ _ => 0) params)
    (hcreated : block.Created config ranks) (hslot : slot < block.numLocalExperts) {i : Nat} (j : Nat)
    (hi : (params.scaleInv .gateUp).rows / 2 ≤ i) :
    (params.scaleInv .gateUp).entry slot i j = 0 ∨ (params.scaleInv .gateUp).entry slot i j =
      -((block.shardIndex ranks * ((params.scaleInv .gateUp).rows / 2) +
        (i - (params.scaleInv .gateUp).rows / 2) + 1 : Nat) : ℚ) := by
  obtain ⟨k, rfl⟩ := Nat.exists_eq_add_of_le hi
  rw [Nat.add_sub_cancel_left]
  by_cases hk : k < (params.scaleInv .gateUp).rows / 2
  · exact .inr (lc.scale_up hcreated hslot j hk)
  · refine .inl (lc.kept .gateUp slot _ j ?_)
    intro proj hproj
    cases proj with
    | gate =>
      rw [StackedParam.viewStart_gate, StackedParam.viewRows_gate]
      omega
    | up =>
      rw [StackedParam.viewStart_up, StackedParam.viewRows_up]
      omega
    | down => cases hproj

section Blocks

variable {groupN groupK : Nat} {posN : 0 < groupN} {posK : 0 < groupK}
  (lc : LoadedCheckpoint config ranks block (.blocks groupN groupK posN posK) markedCheckpoint
    (fun _ _ _ _ => 0) params)
  (hcreated : block.Created config ranks)
  (haligned : block.ScalesAligned ranks (.blocks groupN groupK posN posK) markedCheckpoint params)
  (hslot : slot < block.numLocalExperts) (hH : 0 < block.hiddenSize)

include lc hcreated haligned hslot hH

/-- A gate row reads gate's half, at the row it comes from. -/
theorem LoadedCheckpoint.marked_gate {i : Nat} (hi : i < block.moeIntermediateSize) :
    i / groupN < (params.scaleInv .gateUp).rows / 2 ∧
      block.shardIndex ranks * ((params.scaleInv .gateUp).rows / 2) + i / groupN =
        (block.shardIndex ranks * block.moeIntermediateSize + i) / groupN := by
  have hcols : 0 < (params.weight .gateUp).cols * 1 := by
    rw [(lc.weightShape .gateUp).2]
    simpa [ExpertQuant.packFactor, ExpertBlock.extents] using hH
  have hscale : (params.scaleInv .gateUp).entry slot (i / groupN) (0 / groupK) =
      (((block.shardIndex ranks * block.moeIntermediateSize + i) / groupN + 1 : Nat) : ℚ) :=
    (haligned slot hslot .gate i 0 hi hcols).scale_eq
  have hpos : (0 : ℚ) < (((block.shardIndex ranks * block.moeIntermediateSize + i) / groupN + 1 : Nat)
      : ℚ) := by exact_mod_cast Nat.succ_pos _
  have hrow : i / groupN < (params.scaleInv .gateUp).rows / 2 := by
    by_contra hge
    rcases lc.marked_stack hcreated hslot (0 / groupK) (Nat.le_of_not_lt hge) with h | h
    · rw [h] at hscale
      exact hpos.ne hscale
    · rw [h] at hscale
      have : (0 : ℚ) ≤ ((block.shardIndex ranks * ((params.scaleInv .gateUp).rows / 2) +
        (i / groupN - (params.scaleInv .gateUp).rows / 2) + 1 : Nat) : ℚ) := Nat.cast_nonneg _
      linarith
  refine ⟨hrow, ?_⟩
  have hgate : (params.scaleInv .gateUp).entry slot (i / groupN) (0 / groupK) =
      ((block.shardIndex ranks * ((params.scaleInv .gateUp).rows / 2) + i / groupN + 1 : Nat) : ℚ) :=
    lc.scale_gate hcreated hslot _ hrow
  exact Nat.succ_injective (by exact_mod_cast hgate.symm.trans hscale)

/-- An up row reads up's half, at the row it comes from. -/
theorem LoadedCheckpoint.marked_up {i : Nat} (hi : i < block.moeIntermediateSize) :
    (params.scaleInv .gateUp).rows / 2 ≤ (block.moeIntermediateSize + i) / groupN ∧
      block.shardIndex ranks * ((params.scaleInv .gateUp).rows / 2) +
          ((block.moeIntermediateSize + i) / groupN - (params.scaleInv .gateUp).rows / 2) =
        (block.shardIndex ranks * block.moeIntermediateSize + i) / groupN := by
  have hcols : 0 < (params.weight .gateUp).cols * 1 := by
    rw [(lc.weightShape .gateUp).2]
    simpa [ExpertQuant.packFactor, ExpertBlock.extents] using hH
  have hscale : (params.scaleInv .gateUp).entry slot ((block.moeIntermediateSize + i) / groupN)
      (0 / groupK) =
        -(((block.shardIndex ranks * block.moeIntermediateSize + i) / groupN + 1 : Nat) : ℚ) :=
    (haligned slot hslot .up i 0 hi hcols).scale_eq
  have hpos : (0 : ℚ) < (((block.shardIndex ranks * block.moeIntermediateSize + i) / groupN + 1 : Nat)
      : ℚ) := by exact_mod_cast Nat.succ_pos _
  have hrow : (params.scaleInv .gateUp).rows / 2 ≤ (block.moeIntermediateSize + i) / groupN := by
    by_contra hlt
    have hgate := lc.scale_gate hcreated hslot (0 / groupK) (Nat.lt_of_not_le hlt)
    have hnonneg : (0 : ℚ) ≤ (params.scaleInv .gateUp).entry slot
        ((block.moeIntermediateSize + i) / groupN) (0 / groupK) := by
      rw [hgate]
      exact Nat.cast_nonneg _
    linarith
  refine ⟨hrow, ?_⟩
  rcases lc.marked_stack hcreated hslot (0 / groupK) hrow with h | h
  · rw [h] at hscale
    linarith
  · have hsame := neg_injective (h.symm.trans hscale)
    exact Nat.succ_injective (by exact_mod_cast hsame)

theorem LoadedCheckpoint.marked_groupN (hS : 0 < block.moeIntermediateSize) :
    groupN ∣ block.moeIntermediateSize := by
  obtain ⟨hhalf, hgate⟩ := lc.marked_gate hcreated haligned hslot hH hS
  obtain ⟨hle, hup⟩ := lc.marked_up hcreated haligned hslot hH hS
  rw [Nat.zero_div] at hhalf hgate
  rw [Nat.add_zero] at hle hup hgate
  -- up begins where gate ends
  have hfirst : block.moeIntermediateSize / groupN = (params.scaleInv .gateUp).rows / 2 := by omega
  have hlast : groupN - 1 < block.moeIntermediateSize := by
    have := Nat.div_pos_iff.mp (hfirst ▸ hhalf)
    omega
  obtain ⟨-, hgate'⟩ := lc.marked_gate hcreated haligned hslot hH hlast
  obtain ⟨-, hup'⟩ := lc.marked_up hcreated haligned hslot hH hlast
  rw [Nat.div_eq_of_lt (Nat.sub_lt posN Nat.one_pos)] at hgate'
  -- and its first block reaches as far as gate's
  refine ExpertQuant.dvd_of_blocksOf_le posN ?_
  unfold ExpertQuant.blocksOf
  rw [Nat.add_sub_assoc (show 1 ≤ groupN from posN)]
  omega

theorem LoadedCheckpoint.marked_groupK (hS : 0 < block.moeIntermediateSize) :
    block.shardIndex ranks = 0 ∨ groupK ∣ block.moeIntermediateSize := by
  have hshape : ((params.scaleInv .down).rows, (params.scaleInv .down).cols) =
      (ExpertQuant.blocksOf block.hiddenSize groupN,
        ExpertQuant.blocksOf block.moeIntermediateSize groupK) := lc.scaleShape .down
  obtain ⟨hrows, hcols⟩ := Prod.mk.inj hshape
  have hwide : 0 < (params.weight .down).cols * 1 := by
    rw [(lc.weightShape .down).2]
    simpa [ExpertQuant.packFactor, ExpertBlock.extents] using hS
  have hscale : (params.scaleInv .down).entry slot (0 / groupN) (0 / groupK) =
      (((block.shardIndex ranks * (1 * (block.moeIntermediateSize / 1)) + 0) / groupK + 1 : Nat)
        : ℚ) := (haligned slot hslot .down 0 0 hH hwide).scale_eq
  have hrow : 0 / groupN < (params.scaleInv .down).rows := by
    rw [hrows, Nat.zero_div]
    refine Nat.pos_of_ne_zero fun hzero => ?_
    have := ExpertQuant.le_blocksOf_mul posN block.hiddenSize
    rw [hzero] at this
    omega
  have hcell : (params.scaleInv .down).entry slot (0 / groupN) (0 / groupK) =
      ((block.shardIndex ranks * (params.scaleInv .down).cols + 0 / groupK + 1 : Nat) : ℚ) :=
    lc.scale_down hcreated hslot _ hrow
  have hcol : block.shardIndex ranks * (params.scaleInv .down).cols + 0 / groupK =
      (block.shardIndex ranks * (1 * (block.moeIntermediateSize / 1)) + 0) / groupK :=
    Nat.succ_injective (by exact_mod_cast hcell.symm.trans hscale)
  rw [Nat.zero_div, Nat.add_zero, Nat.add_zero, Nat.one_mul, Nat.div_one, hcols] at hcol
  rcases Nat.eq_zero_or_pos (block.shardIndex ranks) with hzero | hpos
  · exact .inl hzero
  · refine .inr (ExpertQuant.dvd_of_blocksOf_le posK ?_)
    rw [Nat.le_div_iff_mul_le posK]
    have hle := Nat.div_mul_le_self (block.shardIndex ranks * block.moeIntermediateSize) groupK
    rw [← hcol, Nat.mul_assoc] at hle
    exact Nat.le_of_mul_le_mul_left hle hpos

end Blocks

theorem LoadedCheckpoint.marked_mxfp4
    (lc : LoadedCheckpoint config ranks block .mxfp4 markedCheckpoint (fun _ _ _ _ => 0) params)
    (haligned : block.ScalesAligned ranks .mxfp4 markedCheckpoint params)
    (hslot : slot < block.numLocalExperts) (hH : 0 < block.hiddenSize) :
    block.moeIntermediateSize % mxfp4Group < 8 := by
  by_contra hrest
  have hcols : (params.weight .down).cols = block.moeIntermediateSize / 8 :=
    (lc.weightShape .down).2
  -- the first column past the whole groups
  have hj : mxfp4Group * (block.moeIntermediateSize / mxfp4Group) < (params.weight .down).cols * 8 := by
    rw [hcols]
    simp only [mxfp4Group] at hrest ⊢
    omega
  have hscale := (haligned slot hslot .down 0 _ hH hj).scale_eq
  have hmasked : ¬ mxfp4Group * (block.moeIntermediateSize / mxfp4Group) / mxfp4Group <
      (params.weight .down).cols * 8 / mxfp4Group := by
    rw [hcols]
    simp only [mxfp4Group] at hrest ⊢
    omega
  have hzero := (if_neg hmasked).symm.trans hscale
  rw [ExpertCheckpoint.scaleOf_mxfp4] at hzero
  exact Nat.cast_ne_zero.mpr (Nat.succ_ne_zero _) hzero.symm

end Marked

/-- What alignment on every checkpoint takes. -/
theorem ExpertBlock.onBoundaries_of_aligned {config : MoeModelConfig} {ranks : ExpertRanks}
    {block : ExpertBlock} {quant : ExpertQuant} {params : ExpertParams Nat ℚ}
    (lc : LoadedCheckpoint config ranks block quant markedCheckpoint (fun _ _ _ _ => 0) params)
    (hcreated : block.Created config ranks) (helements : ¬ block.NoElements)
    (haligned : block.ScalesAligned ranks quant markedCheckpoint params) :
    block.OnBoundaries ranks quant := by
  simp only [NoElements, not_or] at helements
  obtain ⟨hexperts, hS, hH⟩ := helements
  have hslot : 0 < block.numLocalExperts := Nat.pos_of_ne_zero hexperts
  cases quant with
  | blocks groupN groupK posN posK =>
    exact ⟨lc.marked_groupN hcreated haligned hslot (Nat.pos_of_ne_zero hH) (Nat.pos_of_ne_zero hS),
      lc.marked_groupK hcreated haligned hslot (Nat.pos_of_ne_zero hH) (Nat.pos_of_ne_zero hS)⟩
  | mxfp4 => exact lc.marked_mxfp4 haligned hslot (Nat.pos_of_ne_zero hH)

/-- **When loaded experts stay with their scale blocks.** The keys of a checkpoint that loads, in
any order, align every element of every local expert with its scale, whatever the checkpoint's
values and whatever the memory held before, exactly when the rank has no element, or the shards
end on block boundaries: `group_n` divides the rank's share of the intermediate size and so does
`group_k` after the first rank; packed e2m1 columns do not start a group past the whole ones. -/
theorem expert_scales_aligned_iff (config : MoeModelConfig) (ranks : ExpertRanks)
    (quant : ExpertQuant) (block : ExpertBlock) (keys : List ExpertKey)
    (ckpt₀ : ExpertCheckpoint Nat ℚ) (emptyWeight₀ : ExpertStack → Nat → Nat → Nat → Nat)
    (emptyScale₀ : ExpertStack → Nat → Nat → Nat → ℚ) (params₀ : ExpertParams Nat ℚ)
    (created : ExpertBlock.create config ranks = .ok block) (covers : config.Covers keys)
    (loads : ExpertParams.loadKeys config ranks block quant ckpt₀ keys
      (quant.createWeights block emptyWeight₀ emptyScale₀) = .ok params₀) :
    (∀ ckpt emptyWeight emptyScale params, ExpertParams.loadKeys config ranks block quant ckpt keys
        (quant.createWeights block emptyWeight emptyScale) = .ok params →
          block.ScalesAligned ranks quant ckpt params) ↔
      block.NoElements ∨ block.OnBoundaries ranks quant := by
  have hcreated := ExpertBlock.create_inv created
  constructor
  · intro hall
    by_cases helements : block.NoElements
    · exact .inl helements
    -- the same keys load the marked checkpoint
    have hshape : (quant.createWeights block emptyWeight₀ emptyScale₀).SameShape
        (quant.createWeights block emptyWeight₀ fun _ _ _ _ => 0) :=
      ⟨fun _ => ⟨rfl, rfl, rfl⟩, fun _ => ⟨rfl, rfl, rfl⟩⟩
    obtain ⟨params, hload⟩ := ExpertParams.loadKeys_congr markedCheckpoint hshape loads
    exact .inr (ExpertBlock.onBoundaries_of_aligned (loadedCheckpoint hcreated covers hload) hcreated
      helements (hall _ _ _ _ hload))
  · intro hcond ckpt emptyWeight emptyScale params hload
    have lc := loadedCheckpoint hcreated covers hload
    rcases hcond with hnone | hbound
    · intro slot hslot proj i j hi hj
      rcases hnone with hnone | hnone | hnone
      · omega
      · cases proj with
        | gate => exact absurd hi (by simp [ExpertBlock.sliceRows, hnone])
        | up => exact absurd hi (by simp [ExpertBlock.sliceRows, hnone])
        | down =>
          rw [(lc.weightShape _).2] at hj
          simp [ExpertBlock.extents, hnone] at hj
      · cases proj with
        | gate =>
          rw [(lc.weightShape _).2] at hj
          simp [ExpertBlock.extents, hnone] at hj
        | up =>
          rw [(lc.weightShape _).2] at hj
          simp [ExpertBlock.extents, hnone] at hj
        | down => exact absurd hi (by simp [ExpertBlock.sliceRows, hnone])
    · cases quant with
      | blocks groupN groupK posN posK => exact lc.aligned_blocks hcreated hbound.1 hbound.2
      | mxfp4 => exact lc.aligned_mxfp4 hcreated hbound

/-- The keys of a checkpoint with one expert. -/
def oneExpertKeys : List ExpertKey :=
  [⟨0, .gate, .weight⟩, ⟨0, .up, .weight⟩, ⟨0, .down, .weight⟩, ⟨0, .down, .weightScaleInv⟩,
    ⟨0, .up, .weightScaleInv⟩, ⟨0, .gate, .weightScaleInv⟩]

theorem oneExpertKeys_covers (hidden intermediate : Nat) :
    (⟨1, hidden, intermediate⟩ : MoeModelConfig).Covers oneExpertKeys := by
  intro expert hexpert proj leaf
  obtain rfl : expert = 0 := Nat.lt_one_iff.mp hexpert
  cases proj <;> cases leaf <;> simp [oneExpertKeys]

/-- An expert of 512 × 256 under 128 × 128 blocks, on the second of two ranks. -/
theorem expert_scales_aligned_iff_whole_blocks :
    ∃ params, ExpertParams.loadKeys ⟨1, 256, 512⟩ ⟨2, 1, false, 1, 0, by decide, by decide⟩
        ⟨256, 256, false, 1, 0⟩ (.blocks 128 128 (by decide) (by decide)) markedCheckpoint
        oneExpertKeys ((ExpertQuant.blocks 128 128 (by decide) (by decide)).createWeights
          ⟨256, 256, false, 1, 0⟩ (fun _ _ _ _ => 0) (fun _ _ _ _ => 0)) = .ok params ∧
      ExpertBlock.ScalesAligned ⟨256, 256, false, 1, 0⟩
        ⟨2, 1, false, 1, 0, by decide, by decide⟩ (.blocks 128 128 (by decide) (by decide))
        markedCheckpoint params :=
  ⟨_, rfl, (expert_scales_aligned_iff ⟨1, 256, 512⟩ ⟨2, 1, false, 1, 0, by decide, by decide⟩
    (.blocks 128 128 (by decide) (by decide)) ⟨256, 256, false, 1, 0⟩ oneExpertKeys markedCheckpoint
    (fun _ _ _ _ => 0) (fun _ _ _ _ => 0) _ rfl (oneExpertKeys_covers 256 512) rfl).mpr
      (.inr ⟨by decide, .inr (by decide)⟩) markedCheckpoint (fun _ _ _ _ => 0) (fun _ _ _ _ => 0) _ rfl⟩

/-- Two ranks of an expert of 448 × 128: the grids of 224 rows and columns fit, and up's first row
is multiplied by a scale of gate. -/
theorem split_block_misaligned :
    ∃ params, ExpertParams.loadKeys ⟨1, 128, 448⟩ ⟨2, 0, false, 1, 0, by decide, by decide⟩
        ⟨128, 224, false, 1, 0⟩ (.blocks 128 128 (by decide) (by decide)) markedCheckpoint
        oneExpertKeys ((ExpertQuant.blocks 128 128 (by decide) (by decide)).createWeights
          ⟨128, 224, false, 1, 0⟩ (fun _ _ _ _ => 0) (fun _ _ _ _ => 0)) = .ok params ∧
      ExpertBlock.create ⟨1, 128, 448⟩ ⟨2, 0, false, 1, 0, by decide, by decide⟩ =
        .ok ⟨128, 224, false, 1, 0⟩ ∧
      ¬ ExpertBlock.ScalesAligned ⟨128, 224, false, 1, 0⟩
        ⟨2, 0, false, 1, 0, by decide, by decide⟩ (.blocks 128 128 (by decide) (by decide))
        markedCheckpoint params := by
  obtain ⟨params, hload⟩ : ∃ params, ExpertParams.loadKeys ⟨1, 128, 448⟩
      ⟨2, 0, false, 1, 0, by decide, by decide⟩ ⟨128, 224, false, 1, 0⟩
      (.blocks 128 128 (by decide) (by decide)) markedCheckpoint oneExpertKeys
      ((ExpertQuant.blocks 128 128 (by decide) (by decide)).createWeights ⟨128, 224, false, 1, 0⟩
        (fun _ _ _ _ => 0) (fun _ _ _ _ => 0)) = .ok params := ⟨_, rfl⟩
  refine ⟨params, hload, rfl, ?_⟩
  intro haligned
  have hcreated : ExpertBlock.Created ⟨1, 128, 448⟩ ⟨2, 0, false, 1, 0, by decide, by decide⟩
      ⟨128, 224, false, 1, 0⟩ := ExpertBlock.create_inv rfl
  have hbound := ExpertBlock.onBoundaries_of_aligned
    (loadedCheckpoint hcreated (oneExpertKeys_covers 128 448) hload) hcreated
    (by simp [ExpertBlock.NoElements]) haligned
  exact absurd hbound.1 (by decide)

end RapidLlm
