import RapidLlm.Engine.BlockPool
import RapidLlm.Lib.Grid
import RapidLlm.Lib.PackedWord
import RapidLlm.Lib.Rounding

/-!
# RapidLlm.Quantization.Groupwise

**Asymmetric group-wise quantisation** (`quantize_int4_groupwise` and
`quantize_int8_groupwise_asym`, `quantization/utils.py`). A group of input channels gets a scale
and a zero point from its smallest and largest element; the codes go side by side into 32-bit
words.

Both widths clamp the codes. The int8 quantiser leaves its zero point unclamped, so the codes of
a group always land in range; the int4 quantiser clamps the zero point too, and a group far from
zero then does not fit. `reconstructs_iff` says how far is too far: an error bound of one step is
a range condition on what is rounded (`abs_clamp_sub_le_one_iff`), which the two ends of the
group decide (`ends_iff`).
-/

namespace RapidLlm

open PackedWord

/-! ### Groups -/

/-- `amin` over the first `t + 1` elements. -/
def aminUpTo (f : Nat → ℚ) : Nat → ℚ
  | 0 => f 0
  | t + 1 => min (aminUpTo f t) (f (t + 1))

/-- `amax` over the first `t + 1` elements. -/
def amaxUpTo (f : Nat → ℚ) : Nat → ℚ
  | 0 => f 0
  | t + 1 => max (amaxUpTo f t) (f (t + 1))

section Extrema

variable {f : Nat → ℚ} {n t : Nat}

theorem aminUpTo_le (h : t ≤ n) : aminUpTo f n ≤ f t := by
  induction n with
  | zero => rw [Nat.le_zero.mp h, aminUpTo]
  | succ n ih =>
    rcases Nat.le_succ_iff.mp h with hle | rfl
    · exact (min_le_left _ _).trans (ih hle)
    · exact min_le_right _ _

theorem le_amaxUpTo (h : t ≤ n) : f t ≤ amaxUpTo f n := by
  induction n with
  | zero => rw [Nat.le_zero.mp h, amaxUpTo]
  | succ n ih =>
    rcases Nat.le_succ_iff.mp h with hle | rfl
    · exact (ih hle).trans (le_max_left _ _)
    · exact le_max_right _ _

theorem exists_aminUpTo (f : Nat → ℚ) (n : Nat) : ∃ t ≤ n, f t = aminUpTo f n := by
  induction n with
  | zero => exact ⟨0, Nat.le_refl 0, rfl⟩
  | succ n ih =>
    obtain ⟨t, ht, hmin⟩ := ih
    rcases min_choice (aminUpTo f n) (f (n + 1)) with h | h
    · exact ⟨t, Nat.le_succ_of_le ht, by rw [aminUpTo, h, hmin]⟩
    · exact ⟨n + 1, Nat.le_refl _, by rw [aminUpTo, h]⟩

theorem exists_amaxUpTo (f : Nat → ℚ) (n : Nat) : ∃ t ≤ n, f t = amaxUpTo f n := by
  induction n with
  | zero => exact ⟨0, Nat.le_refl 0, rfl⟩
  | succ n ih =>
    obtain ⟨t, ht, hmax⟩ := ih
    rcases max_choice (amaxUpTo f n) (f (n + 1)) with h | h
    · exact ⟨t, Nat.le_succ_of_le ht, by rw [amaxUpTo, h, hmax]⟩
    · exact ⟨n + 1, Nat.le_refl _, by rw [amaxUpTo, h]⟩

end Extrema

namespace Groupwise

/-- `weight.reshape(n, k // group_size, group_size)`: element `t` of group `c` of row `i`. -/
def element (weight : Grid ℚ) (groupSize i c t : Nat) : ℚ := weight.entry i (c * groupSize + t)

/-- `w.amin(dim=-1)`. -/
def groupMin (weight : Grid ℚ) (groupSize i c : Nat) : ℚ :=
  aminUpTo (element weight groupSize i c) (groupSize - 1)

/-- `w.amax(dim=-1)`. -/
def groupMax (weight : Grid ℚ) (groupSize i c : Nat) : ℚ :=
  amaxUpTo (element weight groupSize i c) (groupSize - 1)

/-- `(w_max - w_min).clamp(min=1e-5) / levels`. -/
def groupScale (levels : ℚ) (weight : Grid ℚ) (groupSize i c : Nat) : ℚ :=
  max (groupMax weight groupSize i c - groupMin weight groupSize i c) (1 / 100000) / levels

/-- `(w / scale + zero).round().clamp(lo, hi)` at row `i` and column `col`. -/
def code (lo hi : ℤ) (scale : Nat → Nat → ℚ) (zero : Nat → Nat → ℤ) (weight : Grid ℚ)
    (groupSize i col : Nat) : ℤ :=
  clamp lo hi (roundEven
    (weight.entry i col / scale i (col / groupSize) + zero i (col / groupSize)))

/-- What a quantiser returns. -/
structure Quantized where
  qweight : Grid ℤ
  scales : Grid ℚ
  zeros : Grid ℚ

/-- `q.reshape(n, -1, count)`, its places shifted by `width` bits each and summed. -/
def packRows (width count n k : Nat) (q : Nat → Nat → ℤ) : Except Raised (Grid ℤ) :=
  if n = 0 then .error (.runtimeError "cannot reshape tensor of 0 elements into shape [0, -1]")
  else if k % count ≠ 0 then .error (.runtimeError "shape is invalid for input of size")
  else .ok ⟨n, k / count, fun i p => pack width count fun j => q i (p * count + j)⟩

/-! ### The two quantisers -/

/-- The zero point of `quantize_int4_groupwise`. -/
def zeroInt4 (weight : Grid ℚ) (groupSize i c : Nat) : ℤ :=
  clamp 0 15 (roundEven (-groupMin weight groupSize i c / groupScale 14 weight groupSize i c))

/-- The codes of `quantize_int4_groupwise`. -/
def codeInt4 (weight : Grid ℚ) (groupSize : Nat) : Nat → Nat → ℤ :=
  code 0 15 (groupScale 14 weight groupSize) (zeroInt4 weight groupSize) weight groupSize

/-- `quantize_int4_groupwise`. -/
def quantizeInt4Groupwise (weight : Grid ℚ) (groupSize : Nat) : Except Raised Quantized :=
  if groupSize = 0 then .error (.zeroDivisionError "integer modulo by zero")
  else if weight.cols % groupSize ≠ 0 then
    .error (.valueError s!"in_features {weight.cols} must be a multiple of group_size {groupSize}")
  else
    (packRows 4 8 weight.rows weight.cols (codeInt4 weight groupSize)).map fun packed =>
      { qweight := packed
        scales := ⟨weight.rows, weight.cols / groupSize, groupScale 14 weight groupSize⟩
        zeros := ⟨weight.rows, weight.cols / groupSize,
          fun i c => zeroInt4 weight groupSize i c⟩ }

/-- The zero point of `quantize_int8_groupwise_asym`, moved to the int8 domain, unclamped. -/
def zeroInt8 (weight : Grid ℚ) (groupSize i c : Nat) : ℤ :=
  roundEven (-groupMin weight groupSize i c / groupScale 255 weight groupSize i c) - 128

/-- The codes of `quantize_int8_groupwise_asym`. -/
def codeInt8 (weight : Grid ℚ) (groupSize : Nat) : Nat → Nat → ℤ :=
  code (-128) 127 (groupScale 255 weight groupSize) (zeroInt8 weight groupSize) weight groupSize

/-- `quantize_int8_groupwise_asym`; a code goes into its byte as `q & 0xFF`. -/
def quantizeInt8GroupwiseAsym (weight : Grid ℚ) (groupSize : Nat) : Except Raised Quantized :=
  if groupSize = 0 then .error (.zeroDivisionError "integer modulo by zero")
  else if weight.cols % groupSize ≠ 0 then
    .error (.valueError s!"in_features {weight.cols} must be a multiple of group_size {groupSize}")
  else
    (packRows 8 4 weight.rows weight.cols
        fun i col => codeInt8 weight groupSize i col % 256).map fun packed =>
      { qweight := packed
        scales := ⟨weight.rows, weight.cols / groupSize, groupScale 255 weight groupSize⟩
        zeros := ⟨weight.rows, weight.cols / groupSize,
          fun i c => zeroInt8 weight groupSize i c⟩ }

/-! ### Reading back -/

/-- The two quantisers. -/
inductive Format
  | int4
  | int8Asym
  deriving DecidableEq

namespace Format

/-- Bits of a code. -/
def width : Format → Nat
  | .int4 => 4
  | .int8Asym => 8

/-- Codes in a word. -/
def packFactor : Format → Nat
  | .int4 => 8
  | .int8Asym => 4

def quantize : Format → Grid ℚ → Nat → Except Raised Quantized
  | .int4 => quantizeInt4Groupwise
  | .int8Asym => quantizeInt8GroupwiseAsym

/-- The quantised values, before packing. -/
def codes : Format → Grid ℚ → Nat → Nat → Nat → ℤ
  | .int4 => codeInt4
  | .int8Asym => codeInt8

/-- Steps between the two ends of a group. -/
def levels : Format → ℚ
  | .int4 => 14
  | .int8Asym => 255

/-- The smallest code. -/
def low : Format → ℤ
  | .int4 => 0
  | .int8Asym => -128

/-- The largest code. -/
def high : Format → ℤ
  | .int4 => 15
  | .int8Asym => 127

def zero : Format → Grid ℚ → Nat → Nat → Nat → ℤ
  | .int4 => zeroInt4
  | .int8Asym => zeroInt8

/-- What is put in a code's place. -/
def placed : Format → Grid ℚ → Nat → Nat → Nat → ℤ
  | .int4 => codeInt4
  | .int8Asym => fun weight groupSize i col => codeInt8 weight groupSize i col % 256

/-- A nibble as it is, a byte with its sign. -/
def read : Format → ℤ → ℤ
  | .int4, v => v
  | .int8Asym, v => Int.bmod v 256

end Format

/-- A quantised matrix gives back its codes, its words are 32-bit words, and the elements of
every group that is not too narrow are restored within a step. -/
structure Reconstructs (format : Format) (weight : Grid ℚ) (groupSize : Nat) (out : Quantized) :
    Prop where
  rows : out.qweight.rows = weight.rows
  cols : out.qweight.cols = weight.cols / format.packFactor
  unpacks : ∀ i < weight.rows, ∀ col < weight.cols,
    format.read (field format.width (out.qweight.entry i (col / format.packFactor))
      (col % format.packFactor)) = format.codes weight groupSize i col
  /-- The sum is a word before it is narrowed. -/
  words : ∀ i < weight.rows, ∀ p < weight.cols / format.packFactor,
    out.qweight.entry i p = wideSum format.width format.packFactor
      (fun j => format.placed weight groupSize i (p * format.packFactor + j)) ∧
    Fits (out.qweight.entry i p)
  within : ∀ i < weight.rows, ∀ col < weight.cols,
    1 / 100000 ≤ groupMax weight groupSize i (col / groupSize) -
      groupMin weight groupSize i (col / groupSize) →
    |out.scales.entry i (col / groupSize) *
        (format.codes weight groupSize i col - out.zeros.entry i (col / groupSize)) -
      weight.entry i col| ≤ out.scales.entry i (col / groupSize)

variable {weight : Grid ℚ} {groupSize i c : Nat}

/-! ### Packing -/

namespace Format

variable (format : Format)

/-- The codes of either quantiser. -/
theorem codes_eq (weight : Grid ℚ) (groupSize i col : Nat) :
    format.codes weight groupSize i col = clamp format.low format.high (roundEven
      (weight.entry i col / groupScale format.levels weight groupSize i (col / groupSize) +
        format.zero weight groupSize i (col / groupSize))) := by
  cases format <;> rfl

theorem word_bits : format.width * format.packFactor = 32 := by cases format <;> rfl

theorem width_pos : 0 < format.width := by cases format <;> decide

theorem packFactor_pos : 0 < format.packFactor := by cases format <;> decide

/-- What is placed fits its place. -/
theorem placed_mem (weight : Grid ℚ) (groupSize i col : Nat) :
    0 ≤ format.placed weight groupSize i col ∧
      format.placed weight groupSize i col < 2 ^ format.width := by
  cases format with
  | int4 =>
    have h : 0 ≤ codeInt4 weight groupSize i col ∧ codeInt4 weight groupSize i col ≤ 15 :=
      clamp_mem (by decide) _
    exact ⟨h.1, Int.lt_of_le_of_lt h.2 (by decide)⟩
  | int8Asym => exact ⟨Int.emod_nonneg _ (by decide), Int.emod_lt_of_pos _ (by decide)⟩

/-- What is placed reads back as the code. -/
theorem read_placed (weight : Grid ℚ) (groupSize i col : Nat) :
    format.read (format.placed weight groupSize i col) = format.codes weight groupSize i col := by
  cases format with
  | int4 => rfl
  | int8Asym =>
    have h : -128 ≤ codeInt8 weight groupSize i col ∧ codeInt8 weight groupSize i col ≤ 127 :=
      clamp_mem (by decide) _
    simp only [read, placed, codes]
    rw [Int.bmod_def]
    omega

theorem digits_placed (weight : Grid ℚ) (groupSize i p : Nat) :
    Digits format.width format.packFactor
      fun j => format.placed weight groupSize i (p * format.packFactor + j) :=
  fun _ _ => format.placed_mem weight groupSize i _

end Format

/-- A matrix with rows whose width both sizes divide is quantised. -/
theorem quantize_ok (format : Format) (hgroup : 0 < groupSize) (hdvd : groupSize ∣ weight.cols)
    (hpack : format.packFactor ∣ weight.cols) (hrows : 0 < weight.rows) :
    format.quantize weight groupSize =
      .ok
        { qweight := ⟨weight.rows, weight.cols / format.packFactor, fun i p =>
            pack format.width format.packFactor
              fun j => format.placed weight groupSize i (p * format.packFactor + j)⟩
          scales := ⟨weight.rows, weight.cols / groupSize,
            groupScale format.levels weight groupSize⟩
          zeros := ⟨weight.rows, weight.cols / groupSize,
            fun i c => format.zero weight groupSize i c⟩ } := by
  have hmod : weight.cols % groupSize = 0 := Nat.mod_eq_zero_of_dvd hdvd
  have hword : weight.cols % format.packFactor = 0 := Nat.mod_eq_zero_of_dvd hpack
  cases format with
  | int4 =>
    have hword' : weight.cols % 8 = 0 := hword
    simp only [Format.quantize, quantizeInt4Groupwise, packRows, hgroup.ne', hmod, hword',
      hrows.ne', ne_eq, not_true_eq_false, if_false]
    rfl
  | int8Asym =>
    have hword' : weight.cols % 4 = 0 := hword
    simp only [Format.quantize, quantizeInt8GroupwiseAsym, packRows, hgroup.ne', hmod, hword',
      hrows.ne', ne_eq, not_true_eq_false, if_false]
    rfl

/-- A matrix without rows is not: the reshape to words raises. -/
theorem quantize_no_rows (format : Format) (hrows : weight.rows = 0) (out : Quantized) :
    format.quantize weight groupSize ≠ .ok out := by
  intro hout
  cases format <;>
    simp only [Format.quantize, quantizeInt4Groupwise, quantizeInt8GroupwiseAsym, packRows, hrows,
      if_true] at hout <;>
    split at hout <;>
    first
      | cases hout
      | (split at hout <;> cases hout)

/-! ### One group -/

section Group

variable {lo hi : ℤ} {scale w : ℚ} {z : ℤ}

/-- Restoring within a step is rounding within one. -/
theorem within_iff (hscale : 0 < scale) (h : lo ≤ hi) :
    |scale * ((clamp lo hi (roundEven (w / scale + z)) : ℚ) - z) - w| ≤ scale ↔
      (lo : ℚ) - 1 ≤ w / scale + z ∧ w / scale + z ≤ hi + 1 := by
  rw [← abs_clamp_sub_le_one_iff h]
  have hsplit : scale * ((clamp lo hi (roundEven (w / scale + z)) : ℚ) - z) - w =
      scale * ((clamp lo hi (roundEven (w / scale + z)) : ℚ) - (w / scale + z)) := by
    field_simp
    ring
  rw [hsplit, abs_mul, abs_of_pos hscale]
  exact mul_le_iff_le_one_right hscale

/-- All elements are in range when the two ends are. -/
theorem ends_iff {f : Nat → ℚ} {n : Nat} (hscale : 0 < scale) :
    (∀ t ≤ n, (lo : ℚ) - 1 ≤ f t / scale + z ∧ f t / scale + z ≤ hi + 1) ↔
      (lo : ℚ) - 1 ≤ aminUpTo f n / scale + z ∧ amaxUpTo f n / scale + z ≤ hi + 1 := by
  constructor
  · intro hall
    obtain ⟨t, ht, hmin⟩ := exists_aminUpTo f n
    obtain ⟨u, hu, hmax⟩ := exists_amaxUpTo f n
    rw [← hmin, ← hmax]
    exact ⟨(hall t ht).1, (hall u hu).2⟩
  · intro hends t ht
    have hle : aminUpTo f n / scale ≤ f t / scale :=
      div_le_div_of_nonneg_right (aminUpTo_le ht) hscale.le
    have hge : f t / scale ≤ amaxUpTo f n / scale :=
      div_le_div_of_nonneg_right (le_amaxUpTo ht) hscale.le
    constructor <;> linarith [hends.1, hends.2]

/-- An unclamped zero point keeps the ends of a group within one of the range. -/
theorem int8_ends {m M : ℚ} (hscale : 0 < scale) (hM : M = m + 255 * scale)
    (hz : z = roundEven (-m / scale) - 128) :
    ((-128 : ℤ) : ℚ) - 1 ≤ m / scale + z ∧ M / scale + z ≤ ((127 : ℤ) : ℚ) + 1 := by
  obtain ⟨hle, hge⟩ := abs_le.mp (abs_roundEven_sub_le (-m / scale))
  have hneg : -m / scale = -(m / scale) := neg_div _ _
  have htop : M / scale = m / scale + 255 := by
    rw [hM]
    field_simp
  rw [htop, hz]
  push_cast
  constructor <;> linarith

/-- A clamped zero point does so when neither end is more than sixteen steps from zero. -/
theorem int4_ends {m M : ℚ} (hscale : 0 < scale) (hM : M = m + 14 * scale)
    (hz : z = clamp 0 15 (roundEven (-m / scale))) :
    (((0 : ℤ) : ℚ) - 1 ≤ m / scale + z ∧ M / scale + z ≤ ((15 : ℤ) : ℚ) + 1) ↔
      8 * m ≤ M ∧ m ≤ 8 * M := by
  obtain ⟨hle, hge⟩ := abs_le.mp (abs_roundEven_sub_le (-m / scale))
  have hneg : -m / scale = -(m / scale) := neg_div _ _
  have htop : M / scale = m / scale + 14 := by
    rw [hM]
    field_simp
  have hm : m = m / scale * scale := (div_mul_cancel₀ m hscale.ne').symm
  -- In steps, the smallest element is at most two above zero and at most sixteen below.
  have hupper : 8 * m ≤ M ↔ m / scale ≤ 2 := by
    rw [hM, div_le_iff₀ hscale]
    constructor <;> intro h <;> linarith
  have hlower : m ≤ 8 * M ↔ -16 ≤ m / scale := by
    rw [hM, le_div_iff₀ hscale]
    constructor <;> intro h <;> linarith
  rw [htop, hupper, hlower]
  rcases lt_or_ge (roundEven (-m / scale)) 0 with hbelow | hnonneg
  · have hzero : z = 0 := by
      rw [hz, clamp]
      omega
    have hround : (roundEven (-m / scale) : ℚ) + 1 ≤ 0 := by exact_mod_cast hbelow
    rw [hzero]
    push_cast
    constructor <;> intro h <;> constructor <;> linarith [h.1, h.2]
  · rcases lt_or_ge 15 (roundEven (-m / scale)) with habove | hle15
    · have hfull : z = 15 := by
        rw [hz, clamp]
        omega
      have hround : (15 : ℚ) + 1 ≤ roundEven (-m / scale) := by exact_mod_cast habove
      rw [hfull]
      push_cast
      constructor <;> intro h <;> constructor <;> linarith [h.1, h.2]
    · have hkept : z = roundEven (-m / scale) := by
        rw [hz, clamp]
        omega
      have hround : (0 : ℚ) ≤ roundEven (-m / scale) := by exact_mod_cast hnonneg
      have hround' : (roundEven (-m / scale) : ℚ) ≤ 15 := by exact_mod_cast hle15
      rw [hkept]
      push_cast
      constructor <;> intro h <;> constructor <;> linarith [h.1, h.2]

end Group

/-- A group of this matrix is wide enough for the error bound to speak of it. -/
def Wide (weight : Grid ℚ) (groupSize i c : Nat) : Prop :=
  1 / 100000 ≤ groupMax weight groupSize i c - groupMin weight groupSize i c

/-- Every element of a group is restored within a step. -/
def GroupWithin (format : Format) (weight : Grid ℚ) (groupSize i c : Nat) : Prop :=
  ∀ t ≤ groupSize - 1,
    |groupScale format.levels weight groupSize i c *
        ((clamp format.low format.high (roundEven (element weight groupSize i c t /
          groupScale format.levels weight groupSize i c + format.zero weight groupSize i c)) : ℚ) -
          format.zero weight groupSize i c) - element weight groupSize i c t| ≤
      groupScale format.levels weight groupSize i c

theorem Format.levels_pos (format : Format) : 0 < format.levels := by
  cases format <;> norm_num [Format.levels]

/-- A wide group's scale divides its range evenly. -/
theorem groupScale_of_wide {levels : ℚ} (hlevels : 0 < levels) (hwide : Wide weight groupSize i c) :
    0 < groupScale levels weight groupSize i c ∧
      groupMax weight groupSize i c =
        groupMin weight groupSize i c + levels * groupScale levels weight groupSize i c := by
  have hmax : groupScale levels weight groupSize i c =
      (groupMax weight groupSize i c - groupMin weight groupSize i c) / levels := by
    rw [groupScale, max_eq_left hwide]
  have hrange : 0 < groupMax weight groupSize i c - groupMin weight groupSize i c :=
    lt_of_lt_of_le (by norm_num) hwide
  refine ⟨hmax ▸ div_pos hrange hlevels, ?_⟩
  rw [hmax, mul_div_cancel₀ _ hlevels.ne']
  ring

/-- The int8 quantiser restores every wide group, the int4 quantiser those that reach
neither far above nor far below zero. -/
theorem groupWithin_iff (format : Format) (hwide : Wide weight groupSize i c) :
    GroupWithin format weight groupSize i c ↔
      (format = .int4 → 8 * groupMin weight groupSize i c ≤ groupMax weight groupSize i c ∧
        groupMin weight groupSize i c ≤ 8 * groupMax weight groupSize i c) := by
  obtain ⟨hscale, hM⟩ := groupScale_of_wide format.levels_pos hwide
  have hrange : format.low ≤ format.high := by cases format <;> decide
  simp only [GroupWithin, within_iff hscale hrange]
  refine (ends_iff hscale).trans ?_
  cases format with
  | int4 =>
    have hiff := int4_ends hscale hM rfl
    exact ⟨fun h _ => hiff.mp h, fun h => hiff.mpr (h rfl)⟩
  | int8Asym => exact ⟨fun _ h => (by cases h), fun _ => int8_ends hscale hM rfl⟩

/-- Column `c * groupSize + t` is element `t` of group `c`. -/
theorem column_div {t : Nat} (hgroup : 0 < groupSize) (ht : t ≤ groupSize - 1) :
    (c * groupSize + t) / groupSize = c := by
  rw [Nat.mul_comm, Nat.mul_add_div hgroup, Nat.div_eq_of_lt (by omega), Nat.add_zero]

/-- **Round trip and error bound** of the two quantisers. -/
theorem reconstructs_iff (format : Format) (weight : Grid ℚ) (groupSize : Nat)
    (hgroup : 0 < groupSize) (hdvd : groupSize ∣ weight.cols)
    (hpack : format.packFactor ∣ weight.cols) :
    (∃ out, format.quantize weight groupSize = .ok out ∧
        Reconstructs format weight groupSize out) ↔
      0 < weight.rows ∧ (format = .int4 → ∀ i < weight.rows, ∀ c < weight.cols / groupSize,
        1 / 100000 ≤ groupMax weight groupSize i c - groupMin weight groupSize i c →
          8 * groupMin weight groupSize i c ≤ groupMax weight groupSize i c ∧
            groupMin weight groupSize i c ≤ 8 * groupMax weight groupSize i c) := by
  constructor
  · rintro ⟨out, hout, hrec⟩
    have hrows : 0 < weight.rows := by
      refine Nat.pos_of_ne_zero ?_
      intro hzero
      exact quantize_no_rows format hzero out hout
    refine ⟨hrows, ?_⟩
    intro hint4 i hi c hc hwide
    rw [quantize_ok format hgroup hdvd hpack hrows] at hout
    cases hout
    refine (groupWithin_iff format hwide).mp ?_ hint4
    intro t ht
    have hcol : c * groupSize + t < weight.cols := by
      have hle : (c + 1) * groupSize ≤ weight.cols / groupSize * groupSize :=
        Nat.mul_le_mul_right _ hc
      rw [Nat.div_mul_cancel hdvd, Nat.succ_mul] at hle
      omega
    have hgot := hrec.within i hi (c * groupSize + t) hcol
    rw [format.codes_eq, column_div hgroup ht] at hgot
    exact hgot hwide
  · rintro ⟨hrows, hends⟩
    refine ⟨_, quantize_ok format hgroup hdvd hpack hrows, rfl, rfl, ?_, ?_, ?_⟩
    · intro i hi col hcol
      have hlt := Nat.mod_lt col format.packFactor_pos
      rw [field_pack format.word_bits (format.digits_placed weight groupSize i _) hlt]
      rw [Nat.div_add_mod']
      exact format.read_placed weight groupSize i col
    · intro i hi p hp
      have hfits := wideSum_fits format.width_pos format.word_bits
        (format.digits_placed weight groupSize i p)
      have hword : pack format.width format.packFactor
          (fun j => format.placed weight groupSize i (p * format.packFactor + j)) =
          wideSum format.width format.packFactor
            (fun j => format.placed weight groupSize i (p * format.packFactor + j)) :=
        toInt32_of_fits hfits
      exact ⟨hword, toInt32_fits _⟩
    · intro i hi col hcol hwide
      have hc : col / groupSize < weight.cols / groupSize :=
        Nat.div_lt_div_of_lt_of_dvd hdvd hcol
      have hmod : col % groupSize ≤ groupSize - 1 := Nat.le_sub_one_of_lt (Nat.mod_lt _ hgroup)
      have hwithin := (groupWithin_iff format hwide).mpr (fun h => hends h i hi _ hc hwide) _ hmod
      rw [element, Nat.div_add_mod'] at hwithin
      rw [format.codes_eq]
      exact hwithin

/-- A row of eight elements around zero, in one group, as int4. -/
theorem reconstructs_iff_mixed : ∃ out,
    Format.int4.quantize ⟨1, 8, fun _ j => (j : ℚ) - 3⟩ 8 = .ok out ∧
      Reconstructs .int4 ⟨1, 8, fun _ j => (j : ℚ) - 3⟩ 8 out := by
  refine (reconstructs_iff .int4 ⟨1, 8, fun _ j => (j : ℚ) - 3⟩ 8 (by decide) (by decide)
    (by decide)).mpr ⟨by decide, ?_⟩
  intro _ i hi c hc _
  obtain rfl : i = 0 := Nat.lt_one_iff.mp hi
  obtain rfl : c = 0 := Nat.lt_one_iff.mp hc
  decide +kernel

/-- A row of eight elements from 100 to 107, all positive: its codes are all fifteen. -/
theorem positive_group_lost : ¬ ∃ out,
    Format.int4.quantize ⟨1, 8, fun _ j => (j : ℚ) + 100⟩ 8 = .ok out ∧
      Reconstructs .int4 ⟨1, 8, fun _ j => (j : ℚ) + 100⟩ 8 out := by
  rintro ⟨out, hout, hrec⟩
  rw [quantize_ok .int4 (by decide) (by decide) (by decide) (by decide)] at hout
  cases hout
  have hwithin := hrec.within 0 (by decide) 7 (by decide) (by decide +kernel)
  revert hwithin
  decide +kernel

end Groupwise

end RapidLlm
