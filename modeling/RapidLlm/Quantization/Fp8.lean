import Mathlib.Algebra.Order.Field.Rat
import Mathlib.Tactic.Ring
import Mathlib.Tactic.NormNum
import RapidLlm.Engine.BlockPool
import RapidLlm.Lib.Grid

/-!
# RapidLlm.Quantization.Fp8

**Widening an fp8 checkpoint at load** (`quantization/fp8.py`). A linear layer holds e4m3 bit
patterns and a grid of scales, one for every `group_n` × `group_k` block of the weight. After
loading, `process_weights_after_loading` multiplies the blocks out and drops the grid.

It serves two kinds of grid, the block-wise one `allocate_linear_weights` allocates and a
per-channel one, and tells them apart by the number of entries. `widens_iff` says for which
shapes that is enough: a grid with as many entries as the weight has rows is read as one scale
a row, whatever its own rows and columns are.

Values are exact. A NaN bit pattern has no value and stays so.
-/

namespace RapidLlm

/-! ### The format -/

/-- The value of an e4m3 bit pattern (`torch.float8_e4m3fn`): bias 7, no infinities, NaN at all
ones. -/
def e4m3 (bits : UInt8) : Option ℚ :=
  let exponent := bits.toNat / 8 % 16
  let mantissa := bits.toNat % 8
  let sign : ℚ := if bits.toNat < 128 then 1 else -1
  if exponent = 15 ∧ mantissa = 7 then none
  else if exponent = 0 then some (sign * (mantissa / 512))
  else some (sign * ((8 + mantissa) * 2 ^ exponent / 1024))

example : e4m3 0x38 = some 1 ∧ e4m3 0x7e = some 448 ∧ e4m3 0xff = none := by decide +kernel

/-- `FP8_BLOCK`. -/
def fp8Block : Int := 128

/-- What `from_config` reads of a checkpoint's `quantization_config`. -/
structure Fp8Checkpoint where
  fmt : Option String
  weightBlockSize : Option (List Int)
  modulesToNotConvert : Option (List String)

/-- The fields of `Fp8Config`. -/
structure Fp8Config where
  groupN : Int
  groupK : Int
  ignored : List String
  deriving DecidableEq

namespace Fp8Config

/-- `Fp8Config.from_config`. -/
def fromConfig (config : Fp8Checkpoint) : Except Raised Fp8Config :=
  let fmt := (config.fmt.getD "e4m3").toLower
  if fmt ≠ "e4m3" then
    .error (.valueError s!"unsupported fp8 format '{fmt}'; only e4m3 is implemented")
  else
    let block := if config.weightBlockSize.getD [] = [] then [fp8Block, fp8Block]
      else config.weightBlockSize.getD []
    match block with
    | gn :: gk :: _ =>
      if gk.fmod fp8Block ≠ 0 ∨ gn.fmod fp8Block ≠ 0 then
        .error (.valueError (s!"weight_block_size {block} is not a multiple of {fp8Block}; " ++
          "the w8a16 kernel tiles k in 128-wide steps"))
      else .ok ⟨gn, gk, config.modulesToNotConvert.getD []⟩
    | _ => .error (.indexError "list index out of range")

/-- Blocks of `group` that cover `size`, as Python's floor division counts them. -/
def blocks (size : Nat) (group : Int) : Int := (size + group - 1).fdiv group

/-- `QuantizationConfig.scale_shape`. -/
def scaleShape (config : Fp8Config) (outFeatures inFeatures : Nat) : Except Raised (Int × Int) :=
  if config.groupN = 0 ∨ config.groupK = 0 then
    .error (.zeroDivisionError "integer division or modulo by zero")
  else .ok (blocks outFeatures config.groupN, blocks inFeatures config.groupK)

/-- `scale_parameter`: the rows and columns of the grid it allocates. -/
def scaleParameter (shape : Int × Int) : Except Raised (Nat × Nat) :=
  if shape.1 < 0 ∨ shape.2 < 0 then
    .error (.runtimeError "Trying to create tensor with negative dimension")
  else .ok (shape.1.toNat, shape.2.toNat)

/-- The scale grid of `allocate_linear_weights`. -/
def allocateScale (config : Fp8Config) (inputSize outputSize : Nat) : Except Raised (Nat × Nat) :=
  (config.scaleShape outputSize inputSize).bind scaleParameter

end Fp8Config

/-- A linear layer's weight by its dtype. -/
inductive Fp8Weight
  | uint8 (bits : Grid UInt8)
  | float8E4m3fn (bits : Grid UInt8)
  | activation (values : Grid (Option ℚ))

/-- The bit patterns of a weight stored as one of the two byte dtypes. -/
def Fp8Weight.bits? : Fp8Weight → Option (Grid UInt8)
  | .uint8 bits => some bits
  | .float8E4m3fn bits => some bits
  | .activation _ => none

/-- What the post-load hook reads of a layer. -/
structure Fp8Linear where
  weight : Fp8Weight
  weightScaleInv : Option (Grid ℚ)
  quant : Fp8Config
  keepQuantized : Bool

namespace Fp8Linear

/-- A value times its scale; a NaN stays one. -/
def scaled (value : Option ℚ) (scale : ℚ) : Option ℚ := value.map (· * scale)

/-- `scale.reshape(-1, scale.shape[-1]).repeat_interleave(group_n, 0).repeat_interleave(group_k, 1)`,
cropped to the weight. -/
def expandScale (config : Fp8Config) (scale : Grid ℚ) (n k : Nat) : Except Raised (Grid ℚ) :=
  if scale.cols = 0 then
    .error (.runtimeError "cannot reshape tensor of 0 elements into shape [-1, 0]")
  else if config.groupN < 0 ∨ config.groupK < 0 then
    .error (.runtimeError "repeats can not be negative")
  else
    .ok ((((scale.reshape (scale.numel / scale.cols) scale.cols).repeatRows
      config.groupN.toNat).repeatCols config.groupK.toNat).crop n k)

/-- The multiplication of the hook, before the result is rounded. -/
def widen (config : Fp8Config) (bits : Grid UInt8) (scale : Grid ℚ) :
    Except Raised (Grid (Option ℚ)) := do
  let wf := bits.map e4m3
  let full ← if scale.numel = wf.rows then pure (scale.reshape wf.rows 1)
    else expandScale config scale wf.rows wf.cols
  match Grid.zipWith scaled wf full with
  | some out => pure out
  | none => .error (.runtimeError "The size of tensor a must match the size of tensor b")

/-- `Fp8LinearMethod.process_weights_after_loading`. `dequant` is the environment variable
`RAPID_FP8_LINEAR_DEQUANT`, `toDtype` the rounding to the layer's dtype. -/
def processWeightsAfterLoading (dequant : Option String) (toDtype : Option ℚ → Option ℚ)
    (layer : Fp8Linear) : Except Raised Fp8Linear :=
  if dequant.getD "1" = "0" then .ok layer
  else if layer.keepQuantized then .ok layer
  else
    match layer.weight.bits?, layer.weightScaleInv with
    | none, _ => .ok layer
    | some _, none =>
      .error (.attributeError "'NoneType' object has no attribute 'numel'")
    | some bits, some scale =>
      (widen layer.quant bits scale).map fun wf =>
        { layer with
          weight := .activation (wf.map toDtype)
          weightScaleInv := none }

end Fp8Linear

/-! ### Counting blocks -/

namespace Fp8Config

variable {config : Fp8Config} {size n k rows cols : Nat} {group : Int}

theorem blocks_of_pos (hgroup : 0 < group) :
    blocks size group = ((size + group.toNat - 1) / group.toNat : Nat) := by
  obtain ⟨g, rfl⟩ := Int.eq_ofNat_of_zero_le hgroup.le
  have hg : 0 < g := by omega
  rw [blocks, Int.fdiv_eq_ediv_of_nonneg _ (by omega), Int.toNat_natCast, Int.natCast_ediv]
  congr 1
  omega

/-- A negative block size counts at most one block, and none from two entries on. -/
theorem blocks_of_neg (hgroup : group ≤ -2) :
    blocks size group ≤ 1 ∧ (2 ≤ size → blocks size group ≤ 0) := by
  have hsplit : blocks size group = ((size : Int) - 1).fdiv group + 1 := by
    have hsum : (size : Int) + group - 1 = ((size : Int) - 1) + 1 * group := by ring
    rw [blocks, hsum, Int.add_mul_fdiv_right _ _ (by omega)]
  rw [hsplit]
  rcases Nat.lt_or_ge size 2 with hsize | hsize
  · refine ⟨?_, fun h => absurd h (Nat.not_le.mpr hsize)⟩
    rcases Nat.lt_succ_iff_lt_or_eq.mp hsize with hzero | rfl
    · obtain rfl : size = 0 := by omega
      have hone : (((0 : Nat) : Int) - 1).fdiv group = (1 : Int).fdiv (-group) := by
        rw [← Int.neg_fdiv_neg]
        simp
      rw [hone, Int.fdiv_eq_zero_of_lt (by omega) (by omega)]
      omega
    · simp
  · have hneg : ((size : Int) - 1).fdiv group < 0 := by
      obtain ⟨c, rfl⟩ : ∃ c : Int, group = -c := ⟨-group, by omega⟩
      rw [Int.fdiv_neg (by omega), Int.fdiv_eq_ediv_of_nonneg _ (by omega)]
      split
      · rename_i hdvd
        have hle : c ≤ (size : Int) - 1 := Int.le_of_dvd (by omega) hdvd
        have hdiv := Int.ediv_pos_of_pos_of_dvd (by omega : (0 : Int) < size - 1) (by omega) hdvd
        omega
      · have hdiv := Int.ediv_nonneg (by omega : (0 : Int) ≤ size - 1) (by omega : (0 : Int) ≤ c)
        omega
    exact ⟨by omega, fun _ => by omega⟩

/-- Accepted block sizes are multiples of the kernel's tile. -/
theorem fromConfig_inv {checkpoint : Fp8Checkpoint} (h : fromConfig checkpoint = .ok config) :
    128 ∣ config.groupN ∧ 128 ∣ config.groupK := by
  unfold fromConfig at h
  simp only at h
  split at h
  · cases h
  · split at h
    · split at h
      · cases h
      · rename_i hmod
        cases h
        push Not at hmod
        exact ⟨Int.dvd_of_fmod_eq_zero hmod.2, Int.dvd_of_fmod_eq_zero hmod.1⟩
    · cases h

/-- What an allocated grid says of its geometry. -/
theorem allocateScale_inv (h : config.allocateScale k n = .ok (rows, cols)) :
    config.groupN ≠ 0 ∧ config.groupK ≠ 0 ∧ blocks n config.groupN = rows ∧
      blocks k config.groupK = cols := by
  unfold allocateScale scaleShape at h
  split at h
  · cases h
  · rename_i hzero
    push Not at hzero
    rw [Except.bind, scaleParameter] at h
    split at h
    · cases h
    · rename_i hneg
      cases h
      push Not at hneg
      exact ⟨hzero.1, hzero.2, (Int.toNat_of_nonneg hneg.1).symm, (Int.toNat_of_nonneg hneg.2).symm⟩

end Fp8Config

/-! ### What the hook installs -/

namespace Fp8Linear

variable {config : Fp8Config} {bits : Grid UInt8} {scale : Grid ℚ}

/-- A layer as the loader leaves it: bytes and a grid, not quantised from 16 bits. -/
def loaded (config : Fp8Config) (weight : Fp8Weight) (scale : Grid ℚ) : Fp8Linear where
  weight := weight
  weightScaleInv := some scale
  quant := config
  keepQuantized := false

/-- Rounding to the activation dtype is the last thing the hook does. -/
theorem process_rounds (toDtype : Option ℚ → Option ℚ) {weight : Fp8Weight}
    (hbits : weight.bits? = some bits) :
    processWeightsAfterLoading none toDtype (loaded config weight scale) =
      (widen config bits scale).map fun wf =>
        { loaded config weight scale with
          weight := .activation (wf.map toDtype)
          weightScaleInv := none } := by
  simp [processWeightsAfterLoading, loaded, hbits]

/-- The grid is applied as one scale a row. -/
theorem widen_channels (config : Fp8Config) (hnumel : scale.numel = bits.rows) : ∃ out : Grid (Option ℚ),
    widen config bits scale = .ok out ∧ out.rows = bits.rows ∧ out.cols = bits.cols ∧
      ∀ i < bits.rows, ∀ j < bits.cols,
        out.entry i j = scaled (e4m3 (bits.entry i j)) (scale.flat i) := by
  obtain ⟨out, hout, hrows, hcols, hentry⟩ :=
    Grid.zipWith_column scaled (bits.map e4m3) (scale.reshape bits.rows 1) rfl rfl
  refine ⟨out, ?_, hrows, hcols, ?_⟩
  · have hif : scale.numel = (bits.map e4m3).rows := hnumel
    simp only [widen, if_pos hif, pure_bind]
    rw [show (bits.map e4m3).rows = bits.rows from rfl, hout]
    rfl
  · intro i hi j hj
    rw [hentry i hi j hj]
    simp only [Grid.map, Grid.reshape, Nat.mul_one, Nat.add_zero]

/-- A grid written out over its blocks, where it covers the weight. -/
theorem expandScale_ok {n k : Nat} (hn : 0 < config.groupN) (hk : 0 < config.groupK)
    (hcols : 0 < scale.cols) (hrow : n ≤ scale.rows * config.groupN.toNat)
    (hcol : k ≤ scale.cols * config.groupK.toNat) : ∃ full : Grid ℚ,
      expandScale config scale n k = .ok full ∧ full.rows = n ∧ full.cols = k ∧
        ∀ i j, j < k → full.entry i j =
          scale.entry (i / config.groupN.toNat) (j / config.groupK.toNat) := by
  rw [expandScale, if_neg hcols.ne', if_neg (by omega)]
  refine ⟨_, rfl, ?_, ?_, ?_⟩
  · have hdiv : scale.numel / scale.cols = scale.rows := Nat.mul_div_cancel _ hcols
    simp only [Grid.crop, Grid.repeatCols, Grid.repeatRows, Grid.reshape, hdiv]
    exact Nat.min_eq_left hrow
  · exact Nat.min_eq_left hcol
  · intro i j hj
    have hgroup : 0 < config.groupK.toNat := by omega
    have hlt : j / config.groupK.toNat < scale.cols := (Nat.div_lt_iff_lt_mul hgroup).mpr (by omega)
    simp only [Grid.crop, Grid.repeatCols, Grid.repeatRows, Grid.reshape, Grid.flat]
    rw [Nat.mul_comm, Nat.mul_add_div hcols, Nat.div_eq_of_lt hlt, Nat.mul_add_mod,
      Nat.mod_eq_of_lt hlt, Nat.add_zero]

/-- The grid is applied block by block. -/
theorem widen_blocks (hnumel : scale.numel ≠ bits.rows) (hn : 0 < config.groupN)
    (hk : 0 < config.groupK) (hcols : 0 < scale.cols)
    (hrow : bits.rows ≤ scale.rows * config.groupN.toNat)
    (hcol : bits.cols ≤ scale.cols * config.groupK.toNat) : ∃ out : Grid (Option ℚ),
      widen config bits scale = .ok out ∧ out.rows = bits.rows ∧ out.cols = bits.cols ∧
        ∀ i < bits.rows, ∀ j < bits.cols, out.entry i j = scaled (e4m3 (bits.entry i j))
          (scale.entry (i / config.groupN.toNat) (j / config.groupK.toNat)) := by
  obtain ⟨full, hfull, hfrows, hfcols, hfentry⟩ := expandScale_ok hn hk hcols hrow hcol
  obtain ⟨out, hout, hrows, hcols, hentry⟩ :=
    Grid.zipWith_same scaled (bits.map e4m3) full hfrows hfcols
  refine ⟨out, ?_, hrows, hcols, ?_⟩
  · have hif : ¬ scale.numel = (bits.map e4m3).rows := hnumel
    have hexpand : expandScale config scale (bits.map e4m3).rows (bits.map e4m3).cols = .ok full :=
      hfull
    simp only [widen, if_neg hif, hexpand]
    change (match Grid.zipWith scaled (bits.map e4m3) full with
      | some out => pure out
      | none => _) = _
    rw [hout]
    rfl
  · intro i hi j hj
    rw [hentry i hi j hj, hfentry i j hj]
    rfl

/-- What block dequantisation makes of a weight: every element the value of its bits
times the scale of its block. -/
structure Dequantised (config : Fp8Config) (bits : Grid UInt8) (scale : Grid ℚ)
    (w : Grid (Option ℚ)) : Prop where
  rows : w.rows = bits.rows
  cols : w.cols = bits.cols
  entry : ∀ i < bits.rows, ∀ j < bits.cols, w.entry i j = scaled (e4m3 (bits.entry i j))
    (scale.entry ((i : Int).fdiv config.groupN).toNat ((j : Int).fdiv config.groupK).toNat)

/-- The hook widens every weight of a shape as block dequantisation does. -/
def Widens (config : Fp8Config) (n k : Nat) : Prop :=
  ∀ (weight : Fp8Weight) (bits : Grid UInt8) (scale : Grid ℚ), weight.bits? = some bits →
    bits.rows = n → bits.cols = k → config.allocateScale k n = .ok (scale.rows, scale.cols) →
      ∃ w, processWeightsAfterLoading none id (loaded config weight scale) =
          .ok
            { loaded config weight scale with
              weight := .activation w
              weightScaleInv := none } ∧
        Dequantised config bits scale w

/-- Installing is widening, before rounding. -/
theorem process_iff {weight : Fp8Weight} (hbits : weight.bits? = some bits) :
    (∃ w, processWeightsAfterLoading none id (loaded config weight scale) =
          .ok
            { loaded config weight scale with
              weight := .activation w
              weightScaleInv := none } ∧
        Dequantised config bits scale w) ↔
      ∃ w, widen config bits scale = .ok w ∧ Dequantised config bits scale w := by
  rw [process_rounds id hbits]
  cases hw : widen config bits scale with
  | error raised => simp [Except.map]
  | ok out =>
    have hid : out.map id = out := rfl
    simp [Except.map, hid]

/-! ### Which shapes widen -/

section Shapes

open Fp8Config

variable {n k rows cols : Nat}

/-- The blocks of a dimension cover it. -/
theorem blocks_cover {size count : Nat} {group : Int} (hgroup : 0 < group)
    (hcount : blocks size group = count) : size ≤ count * group.toNat ∧ (0 < size → 0 < count) := by
  rw [blocks_of_pos hgroup] at hcount
  have hpos : 0 < group.toNat := by omega
  obtain rfl : (size + group.toNat - 1) / group.toNat = count := by exact_mod_cast hcount
  have hlt := Nat.lt_mul_div_succ (size + group.toNat - 1) hpos
  rw [Nat.mul_succ, Nat.mul_comm] at hlt
  refine ⟨by omega, fun hsize => ?_⟩
  exact Nat.div_pos (by omega) hpos

/-- A dimension that one block covers is read at that block alone. -/
theorem fdiv_of_one_block {size i : Nat} {group : Int} (hgroup : group ≠ 0 ∧ 128 ∣ group)
    (hone : blocks size group = (1 : Nat)) (hi : i < size) : ((i : Int).fdiv group).toNat = 0 := by
  rcases lt_or_gt_of_ne hgroup.1 with hneg | hpos
  · obtain rfl : i = 0 := by
      rcases Nat.lt_or_ge size 2 with hlt | hge
      · omega
      · have hle : blocks size group ≤ 0 := (blocks_of_neg (by omega)).2 hge
        omega
    simp
  · obtain ⟨hcover, -⟩ := blocks_cover hpos hone
    rw [Int.fdiv_eq_zero_of_lt (by omega) (by omega)]
    rfl

/-- A dimension with several blocks is not empty. -/
theorem pos_of_blocks {size : Nat} {group : Int} (hgroup : group ≠ 0 ∧ 128 ∣ group)
    (hblocks : 2 ≤ blocks size group) : 0 < size := by
  refine Nat.pos_of_ne_zero ?_
  rintro rfl
  rcases lt_or_gt_of_ne hgroup.1 with hneg | hpos
  · have hle : blocks 0 group ≤ 1 := (blocks_of_neg (by omega)).1
    omega
  · rw [blocks, Int.fdiv_eq_zero_of_lt (by omega) (by omega)] at hblocks
    omega

/-- Where the entries of a grid are as many as two or more rows, the rows share blocks and
the grid has several columns. -/
theorem columns_of_numel (hgroup : 128 ∣ config.groupN)
    (halloc : config.allocateScale k n = .ok (rows, cols)) (hnumel : rows * cols = n) (hn : 2 ≤ n) :
    128 ≤ config.groupN ∧ 2 ≤ cols := by
  obtain ⟨hzero, -, hrows, -⟩ := allocateScale_inv halloc
  rcases lt_or_gt_of_ne hzero with hneg | hpos
  · have hle := (blocks_of_neg (by omega : config.groupN ≤ -2)).2 hn
    obtain rfl : rows = 0 := by omega
    omega
  · have hge : 128 ≤ config.groupN := Int.le_of_dvd hpos hgroup
    refine ⟨hge, ?_⟩
    rw [blocks_of_pos hpos] at hrows
    have hlt : rows < n := by
      have hdiv : (n + config.groupN.toNat - 1) / config.groupN.toNat = rows := by
        exact_mod_cast hrows
      rw [← hdiv]
      refine (Nat.div_lt_iff_lt_mul (by omega)).mpr ?_
      have h2 : n * 128 ≤ n * config.groupN.toNat := Nat.mul_le_mul_left n (by omega)
      have h3 : 2 * config.groupN.toNat ≤ n * config.groupN.toNat := Nat.mul_le_mul_right _ hn
      omega
    by_contra hcols
    have hle : rows * cols ≤ rows * 1 := Nat.mul_le_mul_left rows (by omega)
    omega

/-- Where the sizes are not positive or the weight has no columns, the grid cannot be written
out. -/
theorem expandScale_raises (halloc : config.allocateScale k n = .ok (rows, cols)) (scale : Grid ℚ)
    (hcols : scale.cols = cols) (hbad : ¬ (0 < config.groupN ∧ 0 < config.groupK ∧ 0 < k)) :
    ∃ raised, expandScale config scale n k = .error raised := by
  obtain ⟨hzeroN, hzeroK, -, hblocks⟩ := allocateScale_inv halloc
  unfold expandScale
  split
  · exact ⟨_, rfl⟩
  · rename_i hne
    split
    · exact ⟨_, rfl⟩
    · exfalso
      obtain rfl : k = 0 := by omega
      rw [blocks, Int.fdiv_eq_zero_of_lt (by omega) (by omega)] at hblocks
      omega

theorem fdiv_toNat {group : Int} (hgroup : 0 < group) (i : Nat) :
    ((i : Int).fdiv group).toNat = i / group.toNat := by
  obtain ⟨g, rfl⟩ := Int.eq_ofNat_of_zero_le hgroup.le
  rw [Int.fdiv_eq_ediv_of_nonneg _ hgroup.le, Int.toNat_natCast, ← Int.natCast_ediv,
    Int.toNat_natCast]

/-- Ones under a grid that counts its entries. -/
def ones (n k : Nat) : Grid UInt8 := ⟨n, k, fun _ _ => 0x38⟩

def counting (rows cols : Nat) : Grid ℚ := ⟨rows, cols, fun i j => (i * cols + j : Nat)⟩

theorem ones_bits (n k : Nat) : (Fp8Weight.uint8 (ones n k)).bits? = some (ones n k) := rfl

theorem e4m3_one : e4m3 0x38 = some 1 := by decide +kernel

/-- A grid with as many entries as the weight has rows is not applied block by block. -/
theorem not_widens_of_numel (hdvdN : 128 ∣ config.groupN) (hdvdK : 128 ∣ config.groupK)
    (halloc : config.allocateScale k n = .ok (rows, cols)) (hnumel : rows * cols = n) (hn : 2 ≤ n) :
    ¬ Widens config n k := by
  intro hwidens
  obtain ⟨hblock, hcols⟩ := columns_of_numel hdvdN halloc hnumel hn
  obtain ⟨-, hzeroK, -, hkblocks⟩ := allocateScale_inv halloc
  have hk : 0 < k := pos_of_blocks ⟨hzeroK, hdvdK⟩ (by omega)
  obtain ⟨w, hw, hdeq⟩ := (process_iff (ones_bits n k)).mp
    (hwidens _ _ (counting rows cols) (ones_bits n k) rfl rfl halloc)
  have hcount : (counting rows cols).numel = (ones n k).rows := hnumel
  obtain ⟨out, hout, -, -, hentry⟩ := widen_channels config hcount
  obtain rfl : w = out := Except.ok.inj (hw.symm.trans hout)
  have hgot := hentry 1 hn 0 hk
  have hwant := hdeq.entry 1 hn 0 hk
  rw [hgot, Int.natCast_one, Int.fdiv_eq_zero_of_lt (by omega) (by omega)] at hwant
  simp [ones, e4m3_one, scaled, counting, Grid.flat, Nat.div_eq_of_lt hcols,
    Nat.mod_eq_of_lt hcols] at hwant

/-- **Widening is block dequantisation** exactly for the shapes whose grid cannot be taken for a
per-channel one. -/
theorem widens_iff {checkpoint : Fp8Checkpoint} (hconfig : fromConfig checkpoint = .ok config)
    (halloc : config.allocateScale k n = .ok (rows, cols)) :
    Widens config n k ↔
      if rows * cols = n then n ≤ 1 else 0 < config.groupN ∧ 0 < config.groupK ∧ 0 < k := by
  obtain ⟨hdvdN, hdvdK⟩ := fromConfig_inv hconfig
  obtain ⟨hzeroN, hzeroK, hrows, hcols⟩ := allocateScale_inv halloc
  split
  · rename_i hnumel
    constructor
    · intro hwidens
      by_contra hn
      exact not_widens_of_numel hdvdN hdvdK halloc hnumel (Nat.lt_of_not_le hn) hwidens
    · intro hn weight bits scale hbits hbrows hbcols hshape
      obtain ⟨rfl, rfl⟩ : scale.rows = rows ∧ scale.cols = cols := by
        rw [halloc] at hshape
        cases hshape
        exact ⟨rfl, rfl⟩
      refine (process_iff hbits).mpr ?_
      obtain ⟨out, hout, horows, hocols, hentry⟩ := widen_channels config (hnumel.trans hbrows.symm)
      refine ⟨out, hout, horows, hocols, ?_⟩
      intro i hi j hj
      -- One row: the grid has one entry, which every element reads.
      obtain rfl : n = 1 := by omega
      obtain rfl : i = 0 := by omega
      have hc := Nat.eq_one_of_mul_eq_one_left hnumel
      rw [hentry 0 hi j hj, fdiv_of_one_block ⟨hzeroK, hdvdK⟩ (hcols.trans (by rw [hc]))
        (by omega : j < k)]
      simp [Grid.flat]
  · rename_i hnumel
    constructor
    · intro hwidens
      by_contra hbad
      obtain ⟨w, hw, -⟩ := (process_iff (ones_bits n k)).mp
        (hwidens _ _ (counting rows cols) (ones_bits n k) rfl rfl halloc)
      obtain ⟨raised, hraised⟩ := expandScale_raises halloc (counting rows cols) rfl hbad
      have hif : ¬ (counting rows cols).numel = ((ones n k).map e4m3).rows := hnumel
      have hexpand : expandScale config (counting rows cols) ((ones n k).map e4m3).rows
          ((ones n k).map e4m3).cols = .error raised := hraised
      rw [widen, if_neg hif, hexpand] at hw
      cases hw
    · intro hpos weight bits scale hbits hbrows hbcols hshape
      obtain ⟨hn, hk, hwidth⟩ := hpos
      obtain ⟨rfl, rfl⟩ : scale.rows = rows ∧ scale.cols = cols := by
        rw [halloc] at hshape
        cases hshape
        exact ⟨rfl, rfl⟩
      obtain ⟨hrow, -⟩ := blocks_cover hn hrows
      obtain ⟨hcol, hcolpos⟩ := blocks_cover hk hcols
      refine (process_iff hbits).mpr ?_
      rw [← hbrows] at hrow hnumel
      rw [← hbcols] at hcol
      obtain ⟨out, hout, horows, hocols, hentry⟩ :=
        widen_blocks hnumel hn hk (hcolpos hwidth) hrow hcol
      refine ⟨out, hout, horows, hocols, ?_⟩
      intro i hi j hj
      rw [hentry i hi j hj, fdiv_toNat hn, fdiv_toNat hk]

/-- Blocks of 128 by 128 under a weight of 256 by 384 widen. -/
theorem widens_iff_blocks : Widens ⟨128, 128, []⟩ 256 384 := by
  have hconfig : fromConfig ⟨none, none, none⟩ = .ok ⟨128, 128, []⟩ := by decide +kernel
  have halloc : (Fp8Config.mk 128 128 []).allocateScale 384 256 = .ok (2, 3) := by decide
  exact (widens_iff hconfig halloc).mpr (by decide)

/-- The default blocks give sixteen rows of 2048 columns a grid of one row and sixteen
columns, which is taken for one scale a row. -/
theorem sixteen_rows_not_widened : fromConfig ⟨none, none, none⟩ = .ok ⟨128, 128, []⟩ ∧
    (Fp8Config.mk 128 128 []).allocateScale 2048 16 = .ok (1, 16) ∧
      ¬ Widens ⟨128, 128, []⟩ 16 2048 := by
  have halloc : (Fp8Config.mk 128 128 []).allocateScale 2048 16 = .ok (1, 16) := by decide
  exact ⟨by decide +kernel, halloc,
    not_widens_of_numel (by decide) (by decide) halloc rfl (by decide)⟩

end Shapes

end Fp8Linear

end RapidLlm
