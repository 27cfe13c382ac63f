import Mathlib.Algebra.Order.Field.Rat
import RapidLlm.Distributed.HeadSharding
import RapidLlm.Lib.Grid

/-!
# RapidLlm.Moe.ExpertLoader

**Loading a quantised expert checkpoint** (`SparseMoeBlock._expert_loader`,
`allocate_expert_weights`, `Mxfp4MoEMethod.create_weights`). Gate and up share one stacked tensor,
down has its own, and beside each stands a grid of scales. A rank's slice of a tensor is cut by
the proportion of the tensor's own extent, for weights and scale grids alike.

That a weight slice and its grid slice cover the same part of the full matrix takes shards that
end on block boundaries, which nothing here checks: `expert_scales_aligned_iff`. Where they do
not, the shapes can still agree, since the local grid is rounded up and the incoming grid's share
down.
-/

namespace RapidLlm

/-! ### Blocks -/

/-- What a MoE block reads of the model config. -/
structure MoeModelConfig where
  numExperts : Nat
  hiddenSize : Nat
  moeIntermediateSize : Nat

/-- The place of the rank a block is built on. -/
structure ExpertRanks where
  tpSize : Nat
  tpRank : Nat
  expertParallel : Bool
  epSize : Nat
  epRank : Nat
  tpRank_lt : tpRank < tpSize
  epRank_lt : epRank < epSize

/-- The fields of `SparseMoeBlock` its expert weights depend on. -/
structure ExpertBlock where
  hiddenSize : Nat
  moeIntermediateSize : Nat
  epEnabled : Bool
  numLocalExperts : Nat
  expertOffset : Nat

/-- The expert placement of `SparseMoeBlock.__init__`. -/
def ExpertBlock.create (config : MoeModelConfig) (ranks : ExpertRanks) :
    Except Raised ExpertBlock :=
  if ranks.expertParallel ∧ 1 < ranks.epSize then
    (divide config.numExperts ranks.epSize "experts per EP rank").map fun numLocalExperts =>
      { hiddenSize := config.hiddenSize
        moeIntermediateSize := config.moeIntermediateSize
        epEnabled := true
        numLocalExperts
        expertOffset := ranks.epRank * numLocalExperts }
  else
    (divide config.moeIntermediateSize ranks.tpSize "MoE intermediate").map fun localSize =>
      { hiddenSize := config.hiddenSize
        moeIntermediateSize := localSize
        epEnabled := false
        numLocalExperts := config.numExperts
        expertOffset := 0 }

/-- The three projections of an expert, in the order of their ids. -/
inductive ExpertProj
  | gate
  | up
  | down
  deriving DecidableEq, Repr

/-- `_EXPERT_PROJ_ID`. -/
def ExpertProj.id : ExpertProj → Nat
  | gate => 0
  | up => 1
  | down => 2

/-- The stacked tensors, `gate_up_proj` and `down_proj`. -/
inductive ExpertStack
  | gateUp
  | down
  deriving DecidableEq, Repr

/-- The stack a projection is part of. -/
@[simp] def ExpertProj.stack : ExpertProj → ExpertStack
  | gate => .gateUp
  | up => .gateUp
  | down => .down

/-! ### Formats -/

/-- `MXFP4_GROUP`. -/
def mxfp4Group : Nat := 32

/-- How an expert checkpoint is quantised: one value per element under scale blocks, or packed
e2m1 with a scale for every 32 elements of a row. -/
inductive ExpertQuant
  | blocks (groupN groupK : Nat) (posN : 0 < groupN) (posK : 0 < groupK)
  | mxfp4

namespace ExpertQuant

def groupN : ExpertQuant → Nat
  | blocks groupN .. => groupN
  | mxfp4 => 1

def groupK : ExpertQuant → Nat
  | blocks _ groupK .. => groupK
  | mxfp4 => mxfp4Group

/-- Elements of a row in one stored word. -/
def packFactor : ExpertQuant → Nat
  | blocks .. => 1
  | mxfp4 => 8

/-- Blocks that cover an extent. -/
def blocksOf (size group : Nat) : Nat := (size + group - 1) / group

/-- The shape `create_weights` allocates for a weight of one expert. -/
def weightShape (quant : ExpertQuant) (n k : Nat) : Nat × Nat := (n, k / quant.packFactor)

/-- The shape `create_weights` allocates for its scales: `scale_shape` rounds up, the mxfp4 method
rounds down. -/
def scaleShape (quant : ExpertQuant) (n k : Nat) : Nat × Nat :=
  match quant with
  | blocks groupN groupK .. => (blocksOf n groupN, blocksOf k groupK)
  | mxfp4 => (n, k / mxfp4Group)

end ExpertQuant

/-- The extents of a stacked weight of one local expert. -/
def ExpertBlock.extents (block : ExpertBlock) : ExpertStack → Nat × Nat
  | .gateUp => (2 * block.moeIntermediateSize, block.hiddenSize)
  | .down => (block.hiddenSize, block.moeIntermediateSize)

/-- A parameter stacked over experts. -/
structure StackedParam (X : Type) where
  count : Nat
  rows : Nat
  cols : Nat
  entry : Nat → Nat → Nat → X

/-- One parameter for each stack. -/
abbrev ExpertStacks (X : Type) := ExpertStack → StackedParam X

/-- The expert weights of a block and their scale grids. -/
structure ExpertParams (W A : Type) where
  weight : ExpertStacks W
  scaleInv : ExpertStacks A

/-- `create_weights`, with what the allocated memory happens to hold. -/
def ExpertQuant.createWeights {W A : Type} (quant : ExpertQuant) (block : ExpertBlock)
    (emptyWeight : ExpertStack → Nat → Nat → Nat → W)
    (emptyScale : ExpertStack → Nat → Nat → Nat → A) : ExpertParams W A where
  weight := fun stack =>
    { count := block.numLocalExperts
      rows := (quant.weightShape (block.extents stack).1 (block.extents stack).2).1
      cols := (quant.weightShape (block.extents stack).1 (block.extents stack).2).2
      entry := emptyWeight stack }
  scaleInv := fun stack =>
    { count := block.numLocalExperts
      rows := (quant.scaleShape (block.extents stack).1 (block.extents stack).2).1
      cols := (quant.scaleShape (block.extents stack).1 (block.extents stack).2).2
      entry := emptyScale stack }

/-! ### The loader -/

namespace StackedParam

variable {X : Type}

/-- The first row a projection fills. -/
def viewStart (param : StackedParam X) (proj : ExpertProj) : Nat :=
  if proj.id < 2 then proj.id * (param.rows / 2) else 0

/-- The number of rows a projection fills. -/
def viewRows (param : StackedParam X) (proj : ExpertProj) : Nat :=
  if proj.id < 2 then param.rows / 2 else param.rows

@[simp] theorem viewStart_gate (param : StackedParam X) : param.viewStart .gate = 0 :=
  Nat.zero_mul _

@[simp] theorem viewStart_up (param : StackedParam X) : param.viewStart .up = param.rows / 2 :=
  Nat.one_mul _

@[simp] theorem viewStart_down (param : StackedParam X) : param.viewStart .down = 0 := rfl

@[simp] theorem viewRows_gate (param : StackedParam X) : param.viewRows .gate = param.rows / 2 :=
  rfl

@[simp] theorem viewRows_up (param : StackedParam X) : param.viewRows .up = param.rows / 2 := rfl

@[simp] theorem viewRows_down (param : StackedParam X) : param.viewRows .down = param.rows := rfl

/-- Copies a tensor into a projection's view of one expert. -/
def fill (param : StackedParam X) (slot : Nat) (proj : ExpertProj) (loaded : Grid X) :
    Except Raised (StackedParam X) :=
  if param.count ≤ slot then
    .error (.indexError s!"index {slot} is out of bounds for dimension 0 with size {param.count}")
  else if (param.viewRows proj, param.cols) ≠ (loaded.rows, loaded.cols) then
    .error (.valueError (s!"checkpoint tensor of shape {(loaded.rows, loaded.cols)} does not fit " ++
      s!"parameter view of shape {(param.viewRows proj, param.cols)}"))
  else
    .ok { param with
      entry := fun l i j =>
        if l = slot ∧ param.viewStart proj ≤ i ∧ i < param.viewStart proj + param.viewRows proj then
          loaded.entry (i - param.viewStart proj) j
        else param.entry l i j }

end StackedParam

/-- A tensor of an expert checkpoint: one expert's projection, or all experts already stacked. -/
inductive ExpertTensor (X : Type)
  | ofExpert (expert : Nat) (proj : ExpertProj) (loaded : Grid X)
  | prestacked (loaded : StackedParam X)

/-- A rank's share of an incoming projection: rows of gate and up, columns of down. -/
def ExpertRanks.narrow {X : Type} (ranks : ExpertRanks) (proj : ExpertProj) (loaded : Grid X) :
    Grid X :=
  if 1 < ranks.tpSize then
    if proj.id < 2 then
      loaded.narrowRows (ranks.tpRank * (loaded.rows / ranks.tpSize)) (loaded.rows / ranks.tpSize)
    else
      loaded.narrowCols (ranks.tpRank * (loaded.cols / ranks.tpSize)) (loaded.cols / ranks.tpSize)
  else loaded

/-- `SparseMoeBlock._expert_loader`: the parameter with the tensor in its place. -/
def ExpertBlock.expertLoader {X : Type} (block : ExpertBlock) (ranks : ExpertRanks)
    (param : StackedParam X) : ExpertTensor X → Except Raised (StackedParam X)
  | .ofExpert expert proj loaded =>
    if block.epEnabled then
      if block.expertOffset ≤ expert ∧ expert - block.expertOffset < block.numLocalExperts then
        param.fill (expert - block.expertOffset) proj loaded
      else .ok param
    else param.fill expert proj (ranks.narrow proj loaded)
  | .prestacked loaded => do
    let incoming ←
      if block.epEnabled then
        if loaded.count < block.expertOffset + block.numLocalExperts then
          .error (.runtimeError (s!"start ({block.expertOffset}) + length " ++
            s!"({block.numLocalExperts}) exceeds dimension size ({loaded.count})."))
        else
          pure { loaded with
            count := block.numLocalExperts
            entry := fun l => loaded.entry (block.expertOffset + l) }
      else if 1 < ranks.tpSize then
        .error (.valueError ("a checkpoint with pre-stacked experts cannot be TP-sharded on " ++
          "load; use the per-expert layout or enable expert parallelism"))
      else pure loaded
    if (param.count, param.rows, param.cols) ≠ (incoming.count, incoming.rows, incoming.cols) then
      .error (.valueError (s!"checkpoint tensor of shape " ++
        s!"{(incoming.count, incoming.rows, incoming.cols)} does not fit " ++
        s!"parameter of shape {(param.count, param.rows, param.cols)}"))
    else pure { param with entry := incoming.entry }

/-! ### A checkpoint with one tensor per expert -/

/-- The tensors of a checkpoint, by expert and projection. -/
structure ExpertCheckpoint (W A : Type) where
  weight : Nat → ExpertProj → Nat → Nat → W
  scaleInv : Nat → ExpertProj → Nat → Nat → A

/-- The extents of a projection's full matrix. -/
def MoeModelConfig.extents (config : MoeModelConfig) : ExpertProj → Nat × Nat
  | .gate => (config.moeIntermediateSize, config.hiddenSize)
  | .up => (config.moeIntermediateSize, config.hiddenSize)
  | .down => (config.hiddenSize, config.moeIntermediateSize)

namespace ExpertCheckpoint

variable {W A : Type}

/-- A weight as stored, packed along its columns. -/
def weightTensor (ckpt : ExpertCheckpoint W A) (config : MoeModelConfig) (quant : ExpertQuant)
    (expert : Nat) (proj : ExpertProj) : Grid W where
  rows := (config.extents proj).1
  cols := (config.extents proj).2 / quant.packFactor
  entry := ckpt.weight expert proj

/-- A scale grid, with a block for every element of the full matrix. -/
def scaleTensor (ckpt : ExpertCheckpoint W A) (config : MoeModelConfig) (quant : ExpertQuant)
    (expert : Nat) (proj : ExpertProj) : Grid A where
  rows := ExpertQuant.blocksOf (config.extents proj).1 quant.groupN
  cols := ExpertQuant.blocksOf (config.extents proj).2 quant.groupK
  entry := ckpt.scaleInv expert proj

end ExpertCheckpoint

/-- The two leaves of an expert's projection. -/
inductive ExpertLeaf
  | weight
  | weightScaleInv

/-- `layers.N.mlp.experts.E.{gate,up,down}_proj.{weight,weight_scale_inv}`. -/
structure ExpertKey where
  expert : Nat
  proj : ExpertProj
  leaf : ExpertLeaf

section Load

variable {X W A : Type}

/-- One tensor loaded into its stack. -/
def ExpertBlock.load (block : ExpertBlock) (ranks : ExpertRanks) (params : ExpertStacks X)
    (expert : Nat) (proj : ExpertProj) (loaded : Grid X) : Except Raised (ExpertStacks X) :=
  (block.expertLoader ranks (params proj.stack) (.ofExpert expert proj loaded)).map
    (Function.update params proj.stack)

/-- One key of the checkpoint loaded. -/
def ExpertParams.loadKey (config : MoeModelConfig) (ranks : ExpertRanks) (block : ExpertBlock)
    (quant : ExpertQuant) (ckpt : ExpertCheckpoint W A) (params : ExpertParams W A)
    (key : ExpertKey) : Except Raised (ExpertParams W A) :=
  match key.leaf with
  | .weight =>
    (block.load ranks params.weight key.expert key.proj
      (ckpt.weightTensor config quant key.expert key.proj)).map fun weight => { params with weight }
  | .weightScaleInv =>
    (block.load ranks params.scaleInv key.expert key.proj
      (ckpt.scaleTensor config quant key.expert key.proj)).map fun scaleInv =>
        { params with scaleInv }

/-- The keys of a checkpoint loaded in the order they come. -/
def ExpertParams.loadKeys (config : MoeModelConfig) (ranks : ExpertRanks) (block : ExpertBlock)
    (quant : ExpertQuant) (ckpt : ExpertCheckpoint W A) :
    List ExpertKey → ExpertParams W A → Except Raised (ExpertParams W A)
  | [], params => .ok params
  | key :: keys, params =>
    (params.loadKey config ranks block quant ckpt key).bind
      (ExpertParams.loadKeys config ranks block quant ckpt keys)

end Load

/-! ### What a load leaves -/

section Run

variable {X Y : Type} {block : ExpertBlock} {ranks : ExpertRanks}

/-- Parameters allocated alike. -/
def ExpertStacks.SameShape (params : ExpertStacks X) (params' : ExpertStacks Y) : Prop :=
  ∀ stack, (params' stack).count = (params stack).count ∧ (params' stack).rows = (params stack).rows ∧
    (params' stack).cols = (params stack).cols

theorem StackedParam.viewStart_congr {param : StackedParam X} {param' : StackedParam Y}
    (h : param'.rows = param.rows) (proj : ExpertProj) :
    param'.viewStart proj = param.viewStart proj := by
  unfold viewStart
  rw [h]

theorem StackedParam.viewRows_congr {param : StackedParam X} {param' : StackedParam Y}
    (h : param'.rows = param.rows) (proj : ExpertProj) :
    param'.viewRows proj = param.viewRows proj := by
  unfold viewRows
  rw [h]

/-- A row of a parameter that is in no projection's view. -/
def StackedParam.Unviewed (param : StackedParam X) (stack : ExpertStack) (i : Nat) : Prop :=
  ∀ proj : ExpertProj, proj.stack = stack →
    ¬ (param.viewStart proj ≤ i ∧ i < param.viewStart proj + param.viewRows proj)

/-- Two projections of one stack have disjoint views. -/
theorem StackedParam.views_disjoint {param : StackedParam X} {proj proj' : ExpertProj} {i : Nat}
    (hstack : proj'.stack = proj.stack)
    (h : param.viewStart proj ≤ i ∧ i < param.viewStart proj + param.viewRows proj)
    (h' : param.viewStart proj' ≤ i ∧ i < param.viewStart proj' + param.viewRows proj') :
    proj' = proj := by
  cases proj <;> cases proj' <;> simp at hstack h h' ⊢ <;> omega

namespace ExpertBlock

/-- Whether an expert of the checkpoint lives on the rank. -/
def Owns (block : ExpertBlock) (expert : Nat) : Prop :=
  block.epEnabled = true →
    block.expertOffset ≤ expert ∧ expert - block.expertOffset < block.numLocalExperts

/-- The place of an expert in the stacked parameters. -/
def slot (block : ExpertBlock) (expert : Nat) : Nat :=
  if block.epEnabled then expert - block.expertOffset else expert

/-- What of an incoming tensor is copied. -/
def incoming (block : ExpertBlock) (ranks : ExpertRanks) (proj : ExpertProj) (loaded : Grid X) :
    Grid X :=
  if block.epEnabled then loaded else ranks.narrow proj loaded

theorem slot_inj {e e' : Nat} (he : block.Owns e) (he' : block.Owns e')
    (h : block.slot e' = block.slot e) : e' = e := by
  unfold slot at h
  split at h
  · next hep =>
    have := he hep
    have := he' hep
    omega
  · exact h

/-- A load skips an expert of another rank, or fills a view the tensor fits. -/
theorem load_cases {params params' : ExpertStacks X} {e : Nat} {proj : ExpertProj} {t : Grid X}
    (h : block.load ranks params e proj t = .ok params') :
    (¬ block.Owns e ∧ params' = params) ∨
      (block.Owns e ∧ ∃ param', (params proj.stack).fill (block.slot e) proj
        (block.incoming ranks proj t) = .ok param' ∧
          params' = Function.update params proj.stack param') := by
  unfold load expertLoader at h
  simp only [Owns, slot, incoming]
  by_cases hep : block.epEnabled = true
  · simp only [hep, if_true] at h ⊢
    split at h
    · next hin =>
      refine .inr ⟨fun _ => hin, ?_⟩
      cases hfill : (params proj.stack).fill (e - block.expertOffset) proj t with
      | error raised => rw [hfill] at h; cases h
      | ok param' =>
        rw [hfill] at h
        cases h
        exact ⟨param', rfl, rfl⟩
    · next hout =>
      cases h
      exact .inl ⟨fun howns => hout (howns trivial), Function.update_eq_self _ _⟩
  · simp only [hep, if_false, Bool.false_eq_true] at h ⊢
    refine .inr ⟨fun hf => (by cases hf), ?_⟩
    cases hfill : (params proj.stack).fill e proj (ranks.narrow proj t) with
    | error raised => rw [hfill] at h; cases h
    | ok param' =>
      rw [hfill] at h
      cases h
      exact ⟨param', rfl, rfl⟩

end ExpertBlock

/-- A fill that returns: the tensor has the view's shape and nothing else changes. -/
theorem StackedParam.fill_inv {param param' : StackedParam X} {slot : Nat} {proj : ExpertProj}
    {loaded : Grid X} (h : param.fill slot proj loaded = .ok param') :
    slot < param.count ∧ param.viewRows proj = loaded.rows ∧ param.cols = loaded.cols ∧
      param' = { param with
        entry := fun l i j =>
          if l = slot ∧ param.viewStart proj ≤ i ∧
              i < param.viewStart proj + param.viewRows proj then
            loaded.entry (i - param.viewStart proj) j
          else param.entry l i j } := by
  unfold fill at h
  split at h
  · cases h
  next hslot =>
  split at h
  · cases h
  next hshape =>
  rw [ne_eq, not_not, Prod.mk.injEq] at hshape
  cases h
  exact ⟨Nat.lt_of_not_le hslot, hshape.1, hshape.2, rfl⟩

namespace ExpertStacks

/-- One tensor stands where it belongs, whole. -/
structure Filled (block : ExpertBlock) (ranks : ExpertRanks) (params : ExpertStacks X) (e : Nat)
    (proj : ExpertProj) (t : Grid X) : Prop where
  rows_eq : (params proj.stack).viewRows proj = (block.incoming ranks proj t).rows
  cols_eq : (params proj.stack).cols = (block.incoming ranks proj t).cols
  entry_eq : ∀ i j, i < (params proj.stack).viewRows proj →
    (params proj.stack).entry (block.slot e) ((params proj.stack).viewStart proj + i) j =
      (block.incoming ranks proj t).entry i j

/-- The parameters after the tensors `done` names were loaded into `start`. -/
structure Progress (block : ExpertBlock) (ranks : ExpertRanks) (tensors : Nat → ExpertProj → Grid X)
    (start : ExpertStacks X) (done : Nat → ExpertProj → Prop) (params : ExpertStacks X) : Prop where
  shape : start.SameShape params
  filled : ∀ e proj, done e proj → block.Owns e → params.Filled block ranks e proj (tensors e proj)
  kept : ∀ stack l i j, (start stack).Unviewed stack i →
    (params stack).entry l i j = (start stack).entry l i j

theorem Progress.init (block : ExpertBlock) (ranks : ExpertRanks)
    (tensors : Nat → ExpertProj → Grid X) (start : ExpertStacks X) :
    Progress block ranks tensors start (fun _ _ => False) start where
  shape := fun _ => ⟨rfl, rfl, rfl⟩
  filled := fun _ _ h => h.elim
  kept := fun _ _ _ _ _ => rfl

variable {tensors : Nat → ExpertProj → Grid X} {start params params' : ExpertStacks X}
  {done : Nat → ExpertProj → Prop} {e : Nat} {proj : ExpertProj}

/-- Loading another tensor keeps what was loaded. -/
theorem Progress.load (hp : Progress block ranks tensors start done params)
    (h : block.load ranks params e proj (tensors e proj) = .ok params') :
    Progress block ranks tensors start (fun e' proj' => (e' = e ∧ proj' = proj) ∨ done e' proj')
      params' := by
  rcases ExpertBlock.load_cases h with ⟨hnot, rfl⟩ | ⟨howns, param', hfill, rfl⟩
  · refine ⟨hp.shape, ?_, hp.kept⟩
    rintro e' proj' (⟨rfl, rfl⟩ | hdone) hown
    · exact absurd hown hnot
    · exact hp.filled e' proj' hdone hown
  obtain ⟨hslot, hrows, hcols, rfl⟩ := StackedParam.fill_inv hfill
  refine ⟨?_, ?_, ?_⟩
  · intro stack
    by_cases hstack : stack = proj.stack
    · subst hstack
      rw [Function.update_self]
      exact hp.shape proj.stack
    · rw [Function.update_of_ne hstack]
      exact hp.shape stack
  · intro e' proj' hdone hown
    by_cases hstack : proj'.stack = proj.stack
    · -- the stack that was written: the same tensor again, or a view apart from it
      by_cases hsame : e' = e ∧ proj' = proj
      · obtain ⟨rfl, rfl⟩ := hsame
        refine ⟨?_, ?_, ?_⟩
        · rw [Function.update_self]
          exact hrows
        · rw [Function.update_self]
          exact hcols
        · intro i j hi
          rw [Function.update_self] at hi ⊢
          change i < (params proj'.stack).viewRows proj' at hi
          change (if _ then _ else _) = _
          rw [if_pos ⟨rfl, Nat.le_add_right _ _, Nat.add_lt_add_left hi _⟩]
          exact congrArg (fun i => (block.incoming ranks proj' (tensors e' proj')).entry i j)
            (Nat.add_sub_cancel_left _ _)
      · have hf := hp.filled e' proj' (hdone.resolve_left hsame) hown
        refine ⟨?_, ?_, ?_⟩
        · rw [hstack, Function.update_self, ← hf.rows_eq, hstack]
          rfl
        · rw [hstack, Function.update_self, ← hf.cols_eq, hstack]
        · intro i j hi
          have hentry := hf.entry_eq i j
          rw [hstack] at hentry hi ⊢
          rw [Function.update_self] at hi ⊢
          change i < (params proj.stack).viewRows proj' at hi
          rw [← hentry hi]
          refine if_neg ?_
          rintro ⟨heq, hin⟩
          apply hsame
          refine ⟨ExpertBlock.slot_inj howns hown heq, ?_⟩
          exact StackedParam.views_disjoint hstack hin
            ⟨Nat.le_add_right _ _, Nat.add_lt_add_left hi _⟩
    · have hf := hp.filled e' proj' (hdone.resolve_left fun h => hstack (by rw [h.2])) hown
      exact ⟨by rw [Function.update_of_ne hstack]; exact hf.rows_eq,
        by rw [Function.update_of_ne hstack]; exact hf.cols_eq,
        by rw [Function.update_of_ne hstack]; exact hf.entry_eq⟩
  · intro stack l i j hun
    by_cases hstack : stack = proj.stack
    · subst hstack
      rw [Function.update_self, ← hp.kept _ l i j hun]
      refine if_neg ?_
      rintro ⟨-, hin⟩
      obtain ⟨-, hr, -⟩ := hp.shape proj.stack
      rw [StackedParam.viewStart_congr hr, StackedParam.viewRows_congr hr] at hin
      exact hun proj rfl hin
    · rw [Function.update_of_ne hstack]
      exact hp.kept stack l i j hun

/-- Whether a load returns is a matter of shapes. -/
theorem load_congr {params₀ params₁ : ExpertStacks X} {t₀ : Grid X}
    (h : block.load ranks params₀ e proj t₀ = .ok params') (hshape : params₀.SameShape params₁)
    (t₁ : Grid X) (hrows : t₁.rows = t₀.rows) (hcols : t₁.cols = t₀.cols) :
    ∃ params'', block.load ranks params₁ e proj t₁ = .ok params'' := by
  obtain ⟨hcount, hprows, hpcols⟩ := hshape proj.stack
  have hnarrow : (ranks.narrow proj t₁).rows = (ranks.narrow proj t₀).rows ∧
      (ranks.narrow proj t₁).cols = (ranks.narrow proj t₀).cols := by
    unfold ExpertRanks.narrow
    split
    · split
      · exact ⟨congrArg (· / ranks.tpSize) hrows, hcols⟩
      · exact ⟨hrows, congrArg (· / ranks.tpSize) hcols⟩
    · exact ⟨hrows, hcols⟩
  have hfill : ∀ {slot : Nat} {u₀ u₁ : Grid X} {param' : StackedParam X}, u₁.rows = u₀.rows →
      u₁.cols = u₀.cols → (params₀ proj.stack).fill slot proj u₀ = .ok param' →
      ∃ param'', (params₁ proj.stack).fill slot proj u₁ = .ok param'' := by
    intro slot u₀ u₁ param' hur huc hok
    obtain ⟨hslot, hr, hc, -⟩ := StackedParam.fill_inv hok
    unfold StackedParam.fill
    rw [if_neg (by omega), if_neg]
    · exact ⟨_, rfl⟩
    · rw [ne_eq, not_not, StackedParam.viewRows_congr hprows, hpcols, hur, huc, hr, hc]
  unfold ExpertBlock.load ExpertBlock.expertLoader at h ⊢
  cases hep : block.epEnabled with
  | true =>
    simp only [hep, if_true] at h ⊢
    split at h
    · next hin =>
      rw [if_pos hin]
      cases hf : (params₀ proj.stack).fill (e - block.expertOffset) proj t₀ with
      | error raised => rw [hf] at h; cases h
      | ok param' =>
        obtain ⟨param'', hok⟩ := hfill hrows hcols hf
        exact ⟨_, by rw [hok]; rfl⟩
    · next hout =>
      rw [if_neg hout]
      exact ⟨_, rfl⟩
  | false =>
    simp only [hep, if_false, Bool.false_eq_true] at h ⊢
    cases hf : (params₀ proj.stack).fill e proj (ranks.narrow proj t₀) with
    | error raised => rw [hf] at h; cases h
    | ok param' =>
      obtain ⟨param'', hok⟩ := hfill hnarrow.1 hnarrow.2 hf
      exact ⟨_, by rw [hok]; rfl⟩

end ExpertStacks

end Run

end RapidLlm
