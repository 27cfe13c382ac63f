import Mathlib.Algebra.Order.Field.Rat
import Mathlib.Data.Fin.VecNotation
import RapidLlm.Engine.BlockPool
import RapidLlm.Lib.Tiling

/-!
# RapidLlm.Moe.FusedMoe

**The entry points of the fused MoE** (`kernels/ops/moe/fused_moe.py`): which expert weights
`fused_moe` and the two W8A8 rows accept, and the scale addressing of the two grouped GEMMs they
launch.

A k-tile of the kernel reads one scale for each output row, so the tile has to lie in one scale
group. The group check of the entry points is meant to guarantee that and looks at the shorter
of the two reductions. `scale_groups_fit_iff` gives the groups for which both GEMMs are right: a
group between the two reduction lengths is accepted and splits a tile of the longer one, and so
is `group_k = 0`.
-/

namespace RapidLlm

/-- `QUANT_MODE`. -/
inductive QuantMode
  | none
  | fp8
  | int8
  | int4
  | mxfp4
  | fp8A8
  | int8A8
  deriving DecidableEq, Repr

namespace QuantMode

/-- The number the kernel and the error texts use. -/
def code : QuantMode → Nat
  | none => 0
  | fp8 => 1
  | int8 => 2
  | int4 => 3
  | mxfp4 => 4
  | fp8A8 => 5
  | int8A8 => 6

/-- Logical k elements in one stored element of an expert weight. -/
def packFactor : QuantMode → Nat
  | int4 => 2
  | mxfp4 => 8
  | _ => 1

end QuantMode

/-- A torch dtype, as far as the expert weights are told apart by it. -/
inductive ExpertDtype
  | uint8
  | int8
  | int32
  | other (name : String)
  deriving DecidableEq, Repr

/-- What `torch.dtype` prints as. -/
def ExpertDtype.name : ExpertDtype → String
  | uint8 => "torch.uint8"
  | int8 => "torch.int8"
  | int32 => "torch.int32"
  | other name => name

/-- A stacked expert weight `[E, rows, cols]` and which side tensors come with it. -/
structure ExpertWeight where
  dtype : ExpertDtype
  numExperts : Nat
  rows : Nat
  cols : Nat
  hasScale : Bool
  hasZeros : Bool

/-- `_quant_mode`. -/
def ExpertWeight.quantMode (weight : ExpertWeight) (mxfp4 : Bool) : Except Raised QuantMode :=
  if weight.hasScale = false then .ok .none
  else if mxfp4 then
    if weight.dtype ≠ .int32 then
      .error (.valueError s!"mxfp4 expert weights must be int32 packed, got {weight.dtype.name}")
    else .ok .mxfp4
  else if weight.hasZeros then
    match weight.dtype with
    | .uint8 => .ok .int4
    | .int8 => .ok .int8
    | dtype => .error (.valueError ("int4 expert weights must be byte-packed uint8 [E, N, K//2], " ++
        s!"got {dtype.name}; convert the [E, N, K//8] int32 checkpoint layout " ++
        "once at load with repack_int4_experts"))
  else
    match weight.dtype with
    | .uint8 => .ok .fp8
    | .int8 => .ok .int8
    | .int32 => .error (.valueError ("int4 expert weights must be byte-packed uint8 " ++
        "[E, N, K//2]; the [E, N, K//8] int32 checkpoint layout needs repack_int4_experts " ++
        "(once, at load)"))
    | .other name => .error (.valueError
        s!"quantised expert weights must be uint8 or int8, got {name}")

/-! ### Launch configuration -/

/-- `TileTier`. -/
inductive TileTier
  | preHopper
  | hopperUp
  deriving DecidableEq

/-- The dict of one launch. -/
structure TileConfig where
  blockM : Nat
  blockN : Nat
  blockK : Nat
  groupM : Nat
  numWarps : Nat
  numStages : Nat

/-- `_QUANT_BLOCK_K`. -/
def quantBlockK : Nat := 128

/-- The tier of `_launch_config`. -/
def rowsTier (rowsPerExpert : ℚ) : Fin 4 :=
  if rowsPerExpert < 16 then 0
  else if rowsPerExpert ≤ 32 then 1
  else if rowsPerExpert ≤ 64 then 2
  else 3

/-- `_TILE_TABLE`. -/
def tileTable : QuantMode → Fin 4 → Nat × Nat × Nat
  | .none => ![(16, 64, 4), (64, 64, 4), (128, 128, 8), (128, 128, 8)]
  | .fp8 => ![(16, 64, 4), (64, 128, 4), (64, 128, 4), (128, 256, 8)]
  | .int8 => ![(16, 64, 4), (32, 128, 4), (64, 128, 4), (128, 256, 8)]
  | .int4 => ![(16, 128, 4), (64, 128, 4), (64, 128, 4), (64, 128, 4)]
  | .mxfp4 => ![(16, 128, 4), (64, 128, 4), (64, 128, 4), (64, 128, 4)]
  | .fp8A8 => ![(16, 64, 4), (32, 128, 4), (64, 128, 4), (64, 128, 4)]
  | .int8A8 => ![(16, 64, 4), (32, 128, 4), (64, 128, 4), (128, 256, 8)]

/-- `_TILE_TABLE_PRE_HOPPER`. -/
def tileTablePreHopper : Fin 4 → Nat × Nat × Nat :=
  ![(16, 64, 4), (32, 64, 4), (64, 64, 4), (64, 64, 4)]

/-- `_launch_config`. -/
def launchConfig (tier : TileTier) (mode : QuantMode) (rowsPerExpert : ℚ) : TileConfig :=
  match tier with
  | .preHopper =>
    let (blockM, blockN, numWarps) := tileTablePreHopper (rowsTier rowsPerExpert)
    ⟨blockM, blockN, quantBlockK, 8, numWarps, 2⟩
  | .hopperUp =>
    let (blockM, blockN, numWarps) := tileTable mode (rowsTier rowsPerExpert)
    ⟨blockM, blockN, quantBlockK, 8, numWarps, 3⟩

/-- `_compiler_safe_config`. -/
def compilerSafeConfig (triton32 : Bool) (config : TileConfig) (mode : QuantMode) : TileConfig :=
  if triton32 ∧ mode = .int8A8 ∧ 32 < config.blockM then { config with blockM := 32 } else config

theorem launchConfig_blockK (tier : TileTier) (mode : QuantMode) (rowsPerExpert : ℚ) :
    (launchConfig tier mode rowsPerExpert).blockK = quantBlockK := by
  cases tier <;> rfl

@[simp] theorem compilerSafeConfig_blockK (triton32 : Bool) (config : TileConfig)
    (mode : QuantMode) : (compilerSafeConfig triton32 config mode).blockK = config.blockK := by
  unfold compilerSafeConfig
  split <;> rfl

/-! ### One grouped GEMM -/

/-- What the scale loads of one launch depend on. -/
structure MoeGemm where
  kLogical : Nat
  groupK : Int
  blockK : Nat
  scaleHoisted : Bool

/-- The launch arguments of `_invoke_moe_gemm` for an expert weight. -/
def invokeMoeGemm (mode : QuantMode) (b : ExpertWeight) (groupK : Int) (config : TileConfig) :
    MoeGemm :=
  let kLogical := b.cols * mode.packFactor
  let groupKEff := if groupK = 0 then 1 else min groupK kLogical
  { kLogical
    groupK := groupKEff
    blockK := config.blockK
    scaleHoisted := decide (mode ∉ [.none, .int4, .mxfp4]) && decide ((kLogical : Int) ≤ groupKEff) }

namespace MoeGemm

/-- The group of a k index. Triton divides towards zero, which on indices is this division. -/
def groupOf (gemm : MoeGemm) (k : Nat) : Int := k / gemm.groupK

/-- The column of the zero point a k-tile loads, `(k * BLOCK_K) // GROUP_K`. -/
def zeroColumn (gemm : MoeGemm) (tile : Nat) : Int :=
  ((tile * gemm.blockK : Nat) : Int) / gemm.groupK

/-- The column of the scale a k-tile is multiplied by: read before the loop when hoisted. -/
def scaleColumn (gemm : MoeGemm) (tile : Nat) : Int :=
  if gemm.scaleHoisted then 0 else gemm.zeroColumn tile

/-- Every k index of every tile has the scale and the zero point the kernel loads for the tile. -/
def TilesInOneGroup (gemm : MoeGemm) : Prop :=
  ∀ tile k : Nat, tile * gemm.blockK ≤ k → k < (tile + 1) * gemm.blockK → k < gemm.kLogical →
    gemm.scaleColumn tile = gemm.groupOf k ∧ gemm.zeroColumn tile = gemm.groupOf k

end MoeGemm

/-! ### The entry points -/

/-- What the entry points read of their arguments. -/
structure FusedMoeCall where
  numTokens : Nat
  topK : Nat
  hidden : Nat
  w1 : ExpertWeight
  w2 : ExpertWeight
  groupK : Int
  mxfp4 : Bool

/-- The mode of a call and its two launches. -/
structure MoeLaunches where
  mode : QuantMode
  gateUp : MoeGemm
  down : MoeGemm

namespace FusedMoeCall

/-- `two_inter // 2`. -/
def intermediate (call : FusedMoeCall) : Nat := call.w1.rows / 2

def groupKError (groupK : Int) : Raised :=
  .valueError s!"group_k ({groupK}) must be a multiple of 128 unless it covers K"

/-- The rejection of a scale group: no multiple of 128 and shorter than both reductions. -/
def groupRejected (call : FusedMoeCall) (mode : QuantMode) : Prop :=
  mode ≠ .none ∧ mode ≠ .mxfp4 ∧ call.groupK % 128 ≠ 0 ∧
    call.groupK < min (call.hidden : Int) call.intermediate

instance (call : FusedMoeCall) (mode : QuantMode) : Decidable (call.groupRejected mode) := by
  unfold groupRejected
  infer_instance

/-- The heuristic configuration, for an autotune store without an entry. -/
def heuristic (call : FusedMoeCall) (tier : TileTier) (mode : QuantMode) :
    Except Raised TileConfig :=
  if call.w1.numExperts = 0 then .error (.zeroDivisionError "division by zero")
  else .ok (launchConfig tier mode (call.numTokens * call.topK / call.w1.numExperts))

/-- The two `_invoke_moe_gemm` calls. -/
def launches (call : FusedMoeCall) (mode : QuantMode) (config : TileConfig) : MoeLaunches where
  mode
  gateUp := invokeMoeGemm mode call.w1 call.groupK config
  down := invokeMoeGemm mode call.w2 call.groupK config

/-- The common mode of the two weights. -/
def commonMode (call : FusedMoeCall) (mxfp4 : Bool) : Except Raised QuantMode := do
  let mode ← call.w1.quantMode mxfp4
  let mode2 ← call.w2.quantMode mxfp4
  if mode ≠ mode2 then
    .error (.valueError "w1 and w2 must use the same quantisation format")
  else pure mode

/-- `fused_moe`, as far as its two launches. -/
def fusedMoe (tier : TileTier) (call : FusedMoeCall) : Except Raised MoeLaunches := do
  let mode ← call.commonMode call.mxfp4
  if call.groupRejected mode then .error (groupKError call.groupK)
  else if mode = .mxfp4 ∧ call.groupK ≠ 32 then
    .error (.valueError s!"mxfp4 scale groups are 32 elements wide, got group_k={call.groupK}")
  else
    let config ← call.heuristic tier mode
    pure (call.launches mode config)

/-- The mode `_fused_moe` promotes the weights' mode to. -/
def actQuantMode (call : FusedMoeCall) (mode : QuantMode) : Option String → Except Raised QuantMode
  | none => .ok mode
  | some "fp8" =>
    if mode ≠ .fp8 then
      .error (.valueError ("fp8 W8A8 experts must be uint8 e4m3 bytes with scales, got " ++
        s!"{call.w1.dtype.name} (mode {mode.code})"))
    else .ok .fp8A8
  | some "int8" =>
    if mode ≠ .int8 then
      .error (.valueError ("int8 W8A8 experts must be int8 bytes with scales, got " ++
        s!"{call.w1.dtype.name} (mode {mode.code})"))
    else if call.w1.hasZeros then
      .error (.valueError ("int8 W8A8 experts are symmetric and carry no zero points; zero " ++
        "points belong to weight-only int8 (GPTQ bits=8) or int4"))
    else .ok .int8A8
  | some other =>
    .error (.valueError s!"act_quant must be None, 'fp8' or 'int8', got '{other}'")

/-- `_fused_moe`, as far as its two launches. -/
def body (tier : TileTier) (triton32 : Bool) (actQuant : Option String) (call : FusedMoeCall) :
    Except Raised MoeLaunches := do
  let weightMode ← call.commonMode false
  if call.groupRejected weightMode then .error (groupKError call.groupK)
  else
    let mode ← call.actQuantMode weightMode actQuant
    let config ← call.heuristic tier mode
    pure (call.launches mode (compilerSafeConfig triton32 config mode))

/-- The two W8A8 entry points, with the texts of the arguments they reject. -/
def w8a8 (zerosError mxfp4Error actQuant : String) (tier : TileTier) (triton32 : Bool)
    (call : FusedMoeCall) : Except Raised MoeLaunches :=
  if call.w1.hasZeros ∨ call.w2.hasZeros then .error (.valueError zerosError)
  else if call.mxfp4 then .error (.valueError mxfp4Error)
  else call.body tier triton32 (some actQuant)

/-- `fused_moe_w8a8_fp8`. -/
def fusedMoeW8a8Fp8 : TileTier → Bool → FusedMoeCall → Except Raised MoeLaunches :=
  w8a8 "fp8 is symmetric; zero points belong to the int4 path"
    ("mxfp4 experts are the fused_moe row's int4-packed path; " ++
      "W8A8 fp8 experts are uint8 e4m3 bytes") "fp8"

/-- `fused_moe_w8a8_int8`. -/
def fusedMoeW8a8Int8 : TileTier → Bool → FusedMoeCall → Except Raised MoeLaunches :=
  w8a8 "symmetric int8 has no zero points; those belong to the int4 path"
    ("mxfp4 experts are the fused_moe row's int4-packed path; " ++
      "W8A8 int8 experts are int8 bytes") "int8"

end FusedMoeCall

/-- The three public entry points. -/
inductive MoeEntry
  | fusedMoe
  | fusedMoeW8a8Fp8
  | fusedMoeW8a8Int8

/-- A call through an entry point. -/
def MoeEntry.run (tier : TileTier) (triton32 : Bool) (call : FusedMoeCall) :
    MoeEntry → Except Raised MoeLaunches
  | .fusedMoe => call.fusedMoe tier
  | .fusedMoeW8a8Fp8 => call.fusedMoeW8a8Fp8 tier triton32
  | .fusedMoeW8a8Int8 => call.fusedMoeW8a8Int8 tier triton32

/-! ### What an accepted call launches -/

namespace MoeGemm

/-- Hoisting changes where the scale is read and not which scale it is. -/
theorem tilesInOneGroup_iff {gemm : MoeGemm}
    (hoisted : gemm.scaleHoisted = true → (gemm.kLogical : Int) ≤ gemm.groupK) :
    gemm.TilesInOneGroup ↔ Tiling.OneGroup gemm.blockK gemm.kLogical gemm.groupK := by
  constructor
  · intro h tile k hlo hhi hk
    exact (h tile k hlo hhi hk).2
  · intro h tile k hlo hhi hk
    have hzero : gemm.zeroColumn tile = gemm.groupOf k := h tile k hlo hhi hk
    refine ⟨?_, hzero⟩
    unfold scaleColumn
    split
    · next hh =>
      have hcover := hoisted hh
      exact (Int.ediv_eq_zero_of_lt (by omega) (by omega)).symm
    · exact hzero

end MoeGemm

/-- The groups one launch is right for, among those the entry points let through. -/
theorem invokeMoeGemm_tiles_iff (mode : QuantMode) (b : ExpertWeight) {groupK : Int}
    {config : TileConfig} (hblock : config.blockK = quantBlockK)
    (hgroup : (128 : Int) ∣ groupK ∨ 0 ≤ groupK) :
    (invokeMoeGemm mode b groupK config).TilesInOneGroup ↔
      (groupK ≠ 0 ∧ (128 : Int) ∣ groupK) ∨ ((b.cols * mode.packFactor : Nat) : Int) ≤ groupK ∨
        b.cols * mode.packFactor ≤ 1 := by
  rw [MoeGemm.tilesInOneGroup_iff (by simp [invokeMoeGemm])]
  simp only [invokeMoeGemm, hblock, quantBlockK]
  generalize b.cols * mode.packFactor = kLogical
  rcases lt_trichotomy groupK 0 with hneg | rfl | hpos
  · -- only multiples of the tile are let through here
    have hdvd : (128 : Int) ∣ groupK := hgroup.resolve_right (by omega)
    rw [if_neg hneg.ne, min_eq_left (by omega)]
    exact ⟨fun _ => .inl ⟨hneg.ne, hdvd⟩, fun _ => .of_dvd hdvd⟩
  · rw [if_pos rfl, Tiling.one_group_iff (by decide) (by decide)]
    have hnot : ¬ ((128 : Nat) : Int) ∣ 1 := by decide
    simp only [hnot, false_or, ne_eq, not_true_eq_false, false_and]
    omega
  · rw [if_neg hpos.ne']
    rcases Nat.eq_zero_or_pos kLogical with rfl | hk
    · have : Tiling.OneGroup 128 0 (min groupK 0) := fun _ k _ _ hk => (by omega)
      simp [this]
    · rw [Tiling.one_group_iff (by decide) (by omega)]
      rcases le_total groupK kLogical with hle | hle
      · rw [min_eq_left hle]
        have hone : kLogical ≤ 1 → (kLogical : Int) ≤ groupK := by omega
        constructor
        · rintro (h | h)
          · exact .inl ⟨hpos.ne', h⟩
          · exact .inr (.inl h)
        · rintro (h | h | h)
          · exact .inl h.2
          · exact .inr h
          · exact .inr (hone h)
      · rw [min_eq_right hle]
        exact ⟨fun _ => .inr (.inl hle), fun _ => .inr le_rfl⟩

namespace FusedMoeCall

variable {tier : TileTier} {triton32 : Bool} {call : FusedMoeCall} {gemms : MoeLaunches}

theorem heuristic_blockK {mode : QuantMode} {config : TileConfig}
    (h : call.heuristic tier mode = .ok config) : config.blockK = quantBlockK := by
  unfold heuristic at h
  split at h
  · cases h
  · cases h
    exact launchConfig_blockK tier mode _

/-- What an entry point has checked about the two launches it makes. -/
structure Accepted (call : FusedMoeCall) (gemms : MoeLaunches) : Prop where
  /-- The mode the group was checked under. -/
  checked : ∃ mode, ¬ call.groupRejected mode ∧
    (gemms.mode ≠ .none → gemms.mode ≠ .mxfp4 → mode ≠ .none ∧ mode ≠ .mxfp4)
  launched : ∃ config, config.blockK = quantBlockK ∧ gemms = call.launches gemms.mode config

theorem fusedMoe_accepted (h : call.fusedMoe tier = .ok gemms) : call.Accepted gemms := by
  obtain ⟨mode, -, h⟩ := bind_eq_ok.mp h
  split at h
  · cases h
  next hgroup =>
  split at h
  · cases h
  obtain ⟨config, hconfig, h⟩ := bind_eq_ok.mp h
  cases h
  exact ⟨⟨mode, hgroup, fun h1 h2 => ⟨h1, h2⟩⟩, config, heuristic_blockK hconfig, rfl⟩

/-- A mode `_fused_moe` promotes to was a weight-only 8-bit mode. -/
theorem actQuantMode_inv {mode promoted : QuantMode} {actQuant : String}
    (h : call.actQuantMode mode (some actQuant) = .ok promoted) : mode = .fp8 ∨ mode = .int8 := by
  unfold actQuantMode at h
  split at h
  · cases ‹some actQuant = none›
  · split at h
    · cases h
    · exact .inl (not_not.mp ‹_›)
  · split at h
    · cases h
    · exact .inr (not_not.mp ‹_›)
  · cases h

theorem w8a8_accepted {zerosError mxfp4Error actQuant : String}
    (h : call.w8a8 zerosError mxfp4Error actQuant tier triton32 = .ok gemms) :
    call.Accepted gemms := by
  unfold w8a8 at h
  split at h
  · cases h
  split at h
  · cases h
  obtain ⟨mode, -, h⟩ := bind_eq_ok.mp h
  split at h
  · cases h
  next hgroup =>
  obtain ⟨promoted, hpromoted, h⟩ := bind_eq_ok.mp h
  obtain ⟨config, hconfig, h⟩ := bind_eq_ok.mp h
  cases h
  refine ⟨⟨mode, hgroup, fun _ _ => ?_⟩, _, ?_, rfl⟩
  · rcases actQuantMode_inv hpromoted with rfl | rfl
    · exact ⟨by decide, by decide⟩
    · exact ⟨by decide, by decide⟩
  · rw [compilerSafeConfig_blockK]
    exact heuristic_blockK hconfig

/-- The three entry points check the same things. -/
theorem accepted_of_run {entry : MoeEntry} (h : entry.run tier triton32 call = .ok gemms) :
    call.Accepted gemms := by
  cases entry with
  | fusedMoe => exact fusedMoe_accepted h
  | fusedMoeW8a8Fp8 => exact w8a8_accepted h
  | fusedMoeW8a8Int8 => exact w8a8_accepted h

/-- The documented layouts: the stored columns unpack to the two reduction lengths. -/
structure WellShaped (call : FusedMoeCall) (mode : QuantMode) : Prop where
  hidden_eq : call.w1.cols * mode.packFactor = call.hidden
  intermediate_eq : call.w2.cols * mode.packFactor = call.intermediate

/-- **When an accepted group fits the tiles of both GEMMs.** Quantised weights other than mxfp4
whose call went through get, in every k-tile of both reductions, the scales and zero points of
all the tile's elements exactly when `group_k` is a multiple of the tile other than 0 or covers
the longer reduction; reductions of length 1 fit any group. -/
theorem scale_groups_fit_iff (tier : TileTier) (triton32 : Bool) (entry : MoeEntry)
    (call : FusedMoeCall) (gemms : MoeLaunches)
    (accepted : entry.run tier triton32 call = .ok gemms)
    (quantised : gemms.mode ≠ .none ∧ gemms.mode ≠ .mxfp4) (shaped : call.WellShaped gemms.mode) :
    (gemms.gateUp.TilesInOneGroup ∧ gemms.down.TilesInOneGroup) ↔
      (call.groupK ≠ 0 ∧ (128 : Int) ∣ call.groupK) ∨
        max (call.hidden : Int) call.intermediate ≤ call.groupK ∨
        max call.hidden call.intermediate ≤ 1 := by
  obtain ⟨⟨mode, hchecked, hmode⟩, config, hblock, hgemms⟩ := accepted_of_run accepted
  obtain ⟨hquant, hnotmx⟩ := hmode quantised.1 quantised.2
  have hgroup : (128 : Int) ∣ call.groupK ∨ 0 ≤ call.groupK := by
    by_contra hneither
    apply hchecked
    refine ⟨hquant, hnotmx, fun h => hneither (.inl (Int.dvd_of_emod_eq_zero h)), ?_⟩
    omega
  have hup : gemms.gateUp = invokeMoeGemm gemms.mode call.w1 call.groupK config := by
    rw [hgemms]
    rfl
  have hdown : gemms.down = invokeMoeGemm gemms.mode call.w2 call.groupK config := by
    rw [hgemms]
    rfl
  rw [hup, hdown, invokeMoeGemm_tiles_iff _ _ hblock hgroup,
    invokeMoeGemm_tiles_iff _ _ hblock hgroup, shaped.hidden_eq, shaped.intermediate_eq]
  by_cases hfit : call.groupK ≠ 0 ∧ (128 : Int) ∣ call.groupK
  · simp [hfit]
  · simp only [hfit, false_or]
    -- a group of 0 covers a reduction of length 0 only
    have hnonneg : (128 : Int) ∣ call.groupK → call.groupK = 0 := by
      intro h
      by_contra h0
      exact hfit ⟨h0, h⟩
    have hpos : 0 ≤ call.groupK := by
      rcases hgroup with h | h
      · exact (hnonneg h).ge
      · exact h
    omega

/-- Experts of a 128 × 256 FFN with two groups of 128 on each reduction. -/
theorem scale_groups_fit_iff_two_groups :
    ∃ gemms, (MoeEntry.fusedMoe.run .hopperUp false
        ⟨4, 2, 128, ⟨.uint8, 8, 512, 128, true, false⟩, ⟨.uint8, 8, 128, 256, true, false⟩,
          128, false⟩ = .ok gemms) ∧
      gemms.gateUp.TilesInOneGroup ∧ gemms.down.TilesInOneGroup :=
  ⟨_, rfl, (scale_groups_fit_iff .hopperUp false .fusedMoe
    ⟨4, 2, 128, ⟨.uint8, 8, 512, 128, true, false⟩, ⟨.uint8, 8, 128, 256, true, false⟩, 128, false⟩
    _ rfl (by decide) ⟨rfl, rfl⟩).mpr (.inl (by decide))⟩

/-- A group of 192 over reductions of 256 and 192: the entry point accepts it, and the second
k-tile of the gate/up GEMM multiplies column 192 by the scale of group 0. -/
theorem group_between_lengths_splits :
    ∃ gemms, (MoeEntry.fusedMoe.run .hopperUp false
        ⟨4, 2, 256, ⟨.uint8, 8, 384, 256, true, false⟩, ⟨.uint8, 8, 256, 192, true, false⟩,
          192, false⟩ = .ok gemms) ∧
      gemms.mode = .fp8 ∧ gemms.gateUp.kLogical = 256 ∧ gemms.down.kLogical = 192 ∧
      gemms.gateUp.scaleColumn 1 = 0 ∧ gemms.gateUp.groupOf 192 = 1 ∧
      ¬ (gemms.gateUp.TilesInOneGroup ∧ gemms.down.TilesInOneGroup) := by
  refine ⟨_, rfl, rfl, rfl, rfl, rfl, rfl, ?_⟩
  intro h
  have := (h.1 1 192 (by decide) (by decide) (by decide)).1
  exact absurd this (by decide)

end FusedMoeCall

end RapidLlm
