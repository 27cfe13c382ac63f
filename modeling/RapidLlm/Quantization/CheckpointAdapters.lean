import RapidLlm.Engine.BlockPool
import RapidLlm.Lib.Grid
import RapidLlm.Lib.PackedWord
import Mathlib.Data.Rat.Defs
import Mathlib.Algebra.Order.Field.Rat
import Mathlib.Tactic.Linarith

/-!
# RapidLlm.Quantization.CheckpointAdapters

**Packed checkpoints into the layout the kernels read** (`quantization/utils.py`). AWQ packs
eight output channels of one input row into a word, in an interleaved order; GPTQ packs
consecutive input rows of one channel, and stores its zero points less one. The adapters bring
both to one row of words per output channel, with a plain grid of zero points and scales.

A `PackedLinear` is what a checkpoint stores, as codes, zero points and scales in range; its
tensors are that content packed as the format packs it. `adapters_preserve_iff` compares the
value of every element before and after, the codes read as the kernels read them. Eight-bit GPTQ
codes are unsigned in the checkpoint and read with their sign by the kernels: the zero points are
moved by 128 on the way, the codes are not.
-/

namespace RapidLlm

open PackedWord

/-- `t.float()` of an integer tensor. -/
def toFloat (t : Grid ℤ) : Grid ℚ := t.map fun x : ℤ => (x : ℚ)

/-- A tensor of the checkpoint stream. -/
inductive CheckpointTensor
  | words (t : Grid ℤ)
  | floats (t : Grid ℚ)

namespace CheckpointTensor

/-- The words of a tensor that is to be shifted. -/
def ints : CheckpointTensor → Except Raised (Grid ℤ)
  | words t => .ok t
  | floats _ => .error (.runtimeError "rshift_cpu not implemented for 'Float'")

/-- `t.t().contiguous()`. -/
def transpose : CheckpointTensor → CheckpointTensor
  | words t => words t.transpose
  | floats t => floats t.transpose

/-- `t.float()`. -/
def float : CheckpointTensor → CheckpointTensor
  | words t => floats (toFloat t)
  | floats t => floats t

end CheckpointTensor

/-! ### The adapters -/

/-- `_unpack_nibbles` and `_unpack_int8_bytes`, the places of a row one after another. -/
def unpackPlaces (width count : Nat) (words : Grid ℤ) : Grid ℤ where
  rows := words.rows
  cols := words.cols * count
  entry := fun i c => field width (words.entry i (c / count)) (c % count)

/-- `_REVERSE_AWQ_PACK_ORDER`. -/
def reverseAwqPackOrder (j : Nat) : Nat := [0, 4, 1, 5, 2, 6, 3, 7].getD j 0

/-- `_unpack_nibbles(words)[..., order].reshape(rows, cols * 8)`. -/
def awqNibbles (words : Grid ℤ) : Grid ℤ where
  rows := words.rows
  cols := words.cols * 8
  entry := fun i c => field 4 (words.entry i (c / 8)) (reverseAwqPackOrder (c % 8))

/-- `awq_qweight_to_canonical`. The 32-bit sum wraps as the narrowed wider one does. -/
def awqQweightToCanonical (qweight : Grid ℤ) : Except Raised (Grid ℤ) :=
  let k := qweight.rows
  let n := qweight.cols * 8
  let q := (awqNibbles qweight).transpose
  if n * k ≠ n * (k / 8) * 8 then
    .error (.runtimeError s!"shape '[{n}, {k / 8}, 8]' is invalid for input of size {n * k}")
  else .ok ⟨n, k / 8, fun i w => pack 4 8 fun j => q.entry i (w * 8 + j)⟩

/-- `awq_qzeros_to_canonical`. -/
def awqQzerosToCanonical (qzeros : Grid ℤ) : Grid ℚ :=
  toFloat (awqNibbles qzeros).transpose

/-- `_unpack(qzeros).reshape(qzeros.shape[0], -1)`. -/
def unpackZeros (width count : Nat) (qzeros : Grid ℤ) : Except Raised (Grid ℤ) :=
  if qzeros.rows = 0 then
    .error (.runtimeError "cannot reshape tensor of 0 elements into shape [0, -1]")
  else .ok (unpackPlaces width count qzeros)

/-- `gptq_qzeros_to_canonical`. -/
def gptqQzerosToCanonical (qzeros : Grid ℤ) : Except Raised (Grid ℚ) :=
  (unpackZeros 4 8 qzeros).map fun z => toFloat (z.map (· + 1)).transpose

/-- `gptq_int8_qzeros_to_canonical`. -/
def gptqInt8QzerosToCanonical (qzeros : Grid ℤ) : Except Raised (Grid ℚ) :=
  (unpackZeros 8 4 qzeros).map fun z => toFloat (z.map (· + 1 - 128)).transpose

/-- A key with one suffix for another: `key.removesuffix(old) + new`. -/
def renamed (key old new : List Char) : List Char := key.take (key.length - old.length) ++ new

/-- What an adapter yields: nothing for a dropped key. -/
abbrev AdaptedTensor := Except Raised (Option (List Char × CheckpointTensor))

/-- `_scales_to_canonical` under its new key. -/
def adaptScales (key : List Char) (tensor : CheckpointTensor) : AdaptedTensor :=
  .ok (some (renamed key ".scales".toList ".weight_scale".toList, tensor.transpose.float))

/-- `awq_adapt_key`. -/
def awqAdaptKey (key : List Char) (tensor : CheckpointTensor) : AdaptedTensor :=
  if ".qweight".toList <:+ key then do
    let weight ← awqQweightToCanonical (← tensor.ints)
    pure (some (renamed key ".qweight".toList ".weight".toList, .words weight))
  else if ".qzeros".toList <:+ key then do
    let zeros := awqQzerosToCanonical (← tensor.ints)
    pure (some (renamed key ".qzeros".toList ".weight_zeros".toList, .floats zeros))
  else if ".scales".toList <:+ key then adaptScales key tensor
  else pure (some (key, tensor))

/-- `gptq_adapt_key`. The weight is only transposed, whatever `bits` is. -/
def gptqAdaptKey (bits : Nat) (key : List Char) (tensor : CheckpointTensor) : AdaptedTensor :=
  if ".g_idx".toList <:+ key then pure none
  else if ".qweight".toList <:+ key then
    pure (some (renamed key ".qweight".toList ".weight".toList, tensor.transpose))
  else if ".qzeros".toList <:+ key then do
    let words ← tensor.ints
    let zeros ← if bits = 4 then gptqQzerosToCanonical words else gptqInt8QzerosToCanonical words
    pure (some (renamed key ".qzeros".toList ".weight_zeros".toList, .floats zeros))
  else if ".scales".toList <:+ key then adaptScales key tensor
  else pure (some (key, tensor))

/-- `unpack_int8_experts`: a byte keeps its bits and becomes an `int8`. -/
def unpackInt8Experts (packed : Grid ℤ) : Grid ℤ :=
  (unpackPlaces 8 4 packed).map fun b => Int.bmod b 256

/-! ### What a checkpoint stores -/

/-- The packed formats. -/
inductive PackedFormat
  | awq
  | gptqInt4
  | gptqInt8
  deriving DecidableEq

namespace PackedFormat

/-- Bits of a code. -/
def width : PackedFormat → Nat
  | gptqInt8 => 8
  | _ => 4

/-- Codes in a word. -/
def pack : PackedFormat → Nat
  | gptqInt8 => 4
  | _ => 8

/-- What GPTQ takes off a zero point before packing it. -/
def bias : PackedFormat → ℤ
  | awq => 0
  | _ => 1

/-- What the adapters move the zero points of a format by. -/
def shift : PackedFormat → ℤ
  | gptqInt8 => 128
  | _ => 0

/-- The adapter of a format's stream. -/
def adaptKey : PackedFormat → List Char → CheckpointTensor → AdaptedTensor
  | awq => awqAdaptKey
  | gptqInt4 => gptqAdaptKey 4
  | gptqInt8 => gptqAdaptKey 8

/-- The codes the kernel of a format reads from canonical words. -/
def kernelCodes : PackedFormat → Grid ℤ → Grid ℤ
  | gptqInt8 => unpackInt8Experts
  | _ => unpackPlaces 4 8

theorem word_bits (format : PackedFormat) : format.width * format.pack = 32 := by
  cases format <;> rfl

theorem pack_pos (format : PackedFormat) : 0 < format.pack := by
  cases format <;> decide

end PackedFormat

/-- AWQ's order: the channel in the nibble `p` of a word. -/
def awqPackOrder (p : Nat) : Nat := [0, 2, 4, 6, 1, 3, 5, 7].getD p 0

/-- The reverse order finds the nibble of a channel. -/
theorem awqPackOrder_reverse {j : Nat} (hj : j < 8) :
    reverseAwqPackOrder j < 8 ∧ awqPackOrder (reverseAwqPackOrder j) = j := by
  revert j
  decide

/-- One linear layer of a packed checkpoint: codes and zero points the format has room for, and a
scale for every group of input channels. -/
structure PackedLinear where
  format : PackedFormat
  kWords : Nat
  nWords : Nat
  groups : Nat
  groupSize : Nat
  /-- The code of input channel `k` and output channel `n`. -/
  code : Nat → Nat → ℤ
  zeroPoint : Nat → Nat → ℤ
  scale : Nat → Nat → ℚ
  code_mem : ∀ k n, 0 ≤ code k n ∧ code k n < 2 ^ format.width
  zeroPoint_mem : ∀ g n, format.bias ≤ zeroPoint g n ∧ zeroPoint g n < 2 ^ format.width + format.bias
  groups_pos : 0 < groups

namespace PackedLinear

variable (layer : PackedLinear)

/-- Input channels. -/
def inFeatures : Nat := layer.kWords * layer.format.pack

/-- Output channels. -/
def outFeatures : Nat := layer.nWords * layer.format.pack

/-- The value of an element. -/
def value (k n : Nat) : ℚ :=
  (layer.code k n - layer.zeroPoint (k / layer.groupSize) n) * layer.scale (k / layer.groupSize) n

/-- The `qweight` tensor. -/
def qweight : Grid ℤ :=
  match layer.format with
  | .awq =>
    ⟨layer.inFeatures, layer.nWords, fun k c =>
      pack 4 8 fun p => layer.code k (c * 8 + awqPackOrder p)⟩
  | format =>
    ⟨layer.kWords, layer.outFeatures, fun w n =>
      pack format.width format.pack fun j => layer.code (w * format.pack + j) n⟩

/-- The `qzeros` tensor. -/
def qzeros : Grid ℤ :=
  match layer.format with
  | .awq =>
    ⟨layer.groups, layer.nWords, fun g c =>
      pack 4 8 fun p => layer.zeroPoint g (c * 8 + awqPackOrder p)⟩
  | format =>
    ⟨layer.groups, layer.nWords, fun g c =>
      pack format.width format.pack fun j => layer.zeroPoint g (c * format.pack + j) - 1⟩

/-- The `scales` tensor. -/
def scales : Grid ℚ := ⟨layer.groups, layer.outFeatures, layer.scale⟩

/-- The three tensors an adapter makes of a layer, under their new keys. -/
structure Adapted (stem : List Char) (weight : Grid ℤ) (zeros scales : Grid ℚ) : Prop where
  weight : layer.format.adaptKey (stem ++ ".qweight".toList) (.words layer.qweight) =
    .ok (some (stem ++ ".weight".toList, .words weight))
  zeros : layer.format.adaptKey (stem ++ ".qzeros".toList) (.words layer.qzeros) =
    .ok (some (stem ++ ".weight_zeros".toList, .floats zeros))
  scales : layer.format.adaptKey (stem ++ ".scales".toList) (.floats layer.scales) =
    .ok (some (stem ++ ".weight_scale".toList, .floats scales))

/-- The adapted tensors stand for the same weight. -/
structure Preserves (weight : Grid ℤ) (zeros scales : Grid ℚ) : Prop where
  weight_shape : weight.rows = layer.outFeatures ∧ weight.cols = layer.kWords
  zeros_shape : zeros.rows = layer.outFeatures ∧ zeros.cols = layer.groups
  scales_shape : scales.rows = layer.outFeatures ∧ scales.cols = layer.groups
  place : ∀ n < layer.outFeatures, ∀ k < layer.inFeatures,
    field layer.format.width (weight.entry n (k / layer.format.pack)) (k % layer.format.pack) =
      layer.code k n
  zero : ∀ n < layer.outFeatures, ∀ g < layer.groups,
    zeros.entry n g = layer.zeroPoint g n - layer.format.shift
  scale : ∀ n < layer.outFeatures, ∀ g < layer.groups, scales.entry n g = layer.scale g n
  value : ∀ n < layer.outFeatures, ∀ k < layer.inFeatures, k / layer.groupSize < layer.groups →
    ((layer.format.kernelCodes weight).entry n k - zeros.entry n (k / layer.groupSize)) *
      scales.entry n (k / layer.groupSize) = layer.value k n

end PackedLinear

/-! ### Keys -/

theorem renamed_append (stem old new : List Char) : renamed (stem ++ old) old new = stem ++ new := by
  rw [renamed, List.length_append, Nat.add_sub_cancel, List.take_left]

/-- A key with one suffix has no other that neither contains. -/
theorem not_suffix_append {a b : List Char} (hab : ¬ a <:+ b) (hba : ¬ b <:+ a) (stem : List Char) :
    ¬ a <:+ stem ++ b :=
  fun h => (List.suffix_or_suffix_of_suffix h (List.suffix_append stem b)).elim hab hba

/-! ### Reading what a format packed -/

section Places

variable {f : Nat → ℤ} {width count : Nat}

/-- Places in order: position `c` of the row is place `c % count` of word `c / count`. -/
theorem field_in_order (hword : width * count = 32) (hcount : 0 < count)
    (hf : ∀ c, 0 ≤ f c ∧ f c < 2 ^ width) (c : Nat) :
    field width (pack width count fun j => f (c / count * count + j)) (c % count) = f c := by
  rw [field_pack hword (fun j _ => hf _) (Nat.mod_lt c hcount), Nat.div_add_mod']

/-- Places in AWQ's order, read in the reverse order. -/
theorem field_awq (hf : ∀ c, 0 ≤ f c ∧ f c < 2 ^ 4) (c : Nat) :
    field 4 (pack 4 8 fun p => f (c / 8 * 8 + awqPackOrder p)) (reverseAwqPackOrder (c % 8)) =
      f c := by
  obtain ⟨hlt, horder⟩ := awqPackOrder_reverse (Nat.mod_lt c (by decide))
  rw [field_pack rfl (fun j _ => hf _) hlt, horder, Nat.div_add_mod']

end Places

namespace PackedLinear

variable (layer : PackedLinear)

/-- One row of words per output channel, its codes in order. -/
def canonicalWeight : Grid ℤ where
  rows := layer.outFeatures
  cols := layer.kWords
  entry := fun n w => pack layer.format.width layer.format.pack fun j =>
    layer.code (w * layer.format.pack + j) n

def canonicalZeros : Grid ℚ where
  rows := layer.outFeatures
  cols := layer.groups
  entry := fun n g => ((layer.zeroPoint g n - layer.format.shift : ℤ) : ℚ)

/-- The adapters bring the weight to canonical words. -/
theorem adaptKey_qweight (stem : List Char) :
    layer.format.adaptKey (stem ++ ".qweight".toList) (.words layer.qweight) =
      .ok (some (stem ++ ".weight".toList, .words layer.canonicalWeight)) := by
  have hidx := not_suffix_append (a := ".g_idx".toList) (b := ".qweight".toList) (by decide)
    (by decide) stem
  have hsuffix : ".qweight".toList <:+ stem ++ ".qweight".toList := List.suffix_append _ _
  cases hformat : layer.format with
  | awq =>
    have hcode : ∀ k n, (awqNibbles layer.qweight).entry k n = layer.code k n := by
      intro k n
      have hmem := layer.code_mem k
      rw [hformat] at hmem
      simp only [awqNibbles, qweight, hformat]
      exact field_awq hmem n
    have hK : layer.inFeatures = layer.kWords * 8 := by rw [inFeatures, hformat]; rfl
    have hN : layer.nWords * 8 = layer.outFeatures := by rw [outFeatures, hformat]; rfl
    have hdiv : layer.inFeatures / 8 = layer.kWords := by
      rw [hK, Nat.mul_div_cancel _ (by decide)]
    have hweight : awqQweightToCanonical layer.qweight = .ok layer.canonicalWeight := by
      have hrows : layer.qweight.rows = layer.inFeatures := by simp only [qweight, hformat]
      have hcols : layer.qweight.cols = layer.nWords := by simp only [qweight, hformat]
      simp only [awqQweightToCanonical, hrows, hcols, hdiv, Grid.transpose, hcode, hN]
      rw [if_neg (by rw [hK, Nat.mul_assoc]; simp)]
      simp only [canonicalWeight, hformat]
      rfl
    simp only [PackedFormat.adaptKey, awqAdaptKey, if_pos hsuffix, CheckpointTensor.ints,
      renamed_append]
    change (awqQweightToCanonical layer.qweight).bind _ = _
    rw [hweight]
    rfl
  | gptqInt4 =>
    simp only [PackedFormat.adaptKey, gptqAdaptKey, if_neg hidx, if_pos hsuffix, renamed_append,
      CheckpointTensor.transpose, Grid.transpose, qweight, canonicalWeight, hformat]
    rfl
  | gptqInt8 =>
    simp only [PackedFormat.adaptKey, gptqAdaptKey, if_neg hidx, if_pos hsuffix, renamed_append,
      CheckpointTensor.transpose, Grid.transpose, qweight, canonicalWeight, hformat]
    rfl

/-- Stored zero points, in order, are one less than the zero points. -/
theorem unpackZeros_qzeros (hgptq : layer.format ≠ .awq) :
    ∃ z, unpackZeros layer.format.width layer.format.pack layer.qzeros = .ok z ∧
      z.rows = layer.groups ∧ z.cols = layer.outFeatures ∧
        ∀ g n, z.entry g n = layer.zeroPoint g n - 1 := by
  have hqzeros : layer.qzeros = ⟨layer.groups, layer.nWords, fun g c =>
      pack layer.format.width layer.format.pack
        fun j => layer.zeroPoint g (c * layer.format.pack + j) - 1⟩ := by
    cases hformat : layer.format with
    | awq => exact absurd hformat hgptq
    | gptqInt4 => simp only [qzeros, hformat]
    | gptqInt8 => simp only [qzeros, hformat]
  have hbias : layer.format.bias = 1 := by
    cases hformat : layer.format with
    | awq => exact absurd hformat hgptq
    | gptqInt4 => rfl
    | gptqInt8 => rfl
  rw [hqzeros]
  refine ⟨_, if_neg layer.groups_pos.ne', rfl, rfl, ?_⟩
  · intro g n
    have hmem : ∀ c, 0 ≤ layer.zeroPoint g c - 1 ∧
        layer.zeroPoint g c - 1 < 2 ^ layer.format.width := by
      intro c
      obtain ⟨hle, hlt⟩ := layer.zeroPoint_mem g c
      rw [hbias] at hle hlt
      constructor <;> linarith
    exact field_in_order layer.format.word_bits layer.format.pack_pos hmem n

/-- The adapters bring the zero points to a grid of one row per output channel. -/
theorem adaptKey_qzeros (stem : List Char) :
    layer.format.adaptKey (stem ++ ".qzeros".toList) (.words layer.qzeros) =
      .ok (some (stem ++ ".weight_zeros".toList, .floats layer.canonicalZeros)) := by
  have hidx := not_suffix_append (a := ".g_idx".toList) (b := ".qzeros".toList) (by decide)
    (by decide) stem
  have hweight := not_suffix_append (a := ".qweight".toList) (b := ".qzeros".toList) (by decide)
    (by decide) stem
  have hsuffix : ".qzeros".toList <:+ stem ++ ".qzeros".toList := List.suffix_append _ _
  cases hformat : layer.format with
  | awq =>
    have hzero : ∀ g n, (awqNibbles layer.qzeros).entry g n = layer.zeroPoint g n := by
      intro g n
      have hmem := layer.zeroPoint_mem g
      rw [hformat] at hmem
      simp only [awqNibbles, qzeros, hformat]
      exact field_awq (fun c => by simpa [PackedFormat.bias, PackedFormat.width] using hmem c) n
    have hN : layer.nWords * 8 = layer.outFeatures := by rw [outFeatures, hformat]; rfl
    have hrows : layer.qzeros.rows = layer.groups := by simp only [qzeros, hformat]
    have hcols : layer.qzeros.cols = layer.nWords := by simp only [qzeros, hformat]
    have hzeros : awqQzerosToCanonical layer.qzeros = layer.canonicalZeros := by
      simp only [awqQzerosToCanonical, toFloat, Grid.map, Grid.transpose, hzero]
      simp only [awqNibbles, hrows, hcols, hN, canonicalZeros, hformat, PackedFormat.shift,
        sub_zero]
    simp only [PackedFormat.adaptKey, awqAdaptKey, if_neg hweight, if_pos hsuffix,
      CheckpointTensor.ints, renamed_append, ← hzeros]
    rfl
  | gptqInt4 =>
    obtain ⟨z, hz, hrows, hcols, hentry⟩ := layer.unpackZeros_qzeros (by rw [hformat]; decide)
    rw [hformat] at hz
    have hzeros : gptqQzerosToCanonical layer.qzeros = .ok layer.canonicalZeros := by
      change (unpackZeros 4 8 layer.qzeros).map _ = _
      rw [show unpackZeros 4 8 layer.qzeros = .ok z from hz]
      simp only [Except.map, toFloat, Grid.map, Grid.transpose, hrows, hcols, hentry,
        canonicalZeros, hformat, PackedFormat.shift, sub_add_cancel, sub_zero]
    simp only [PackedFormat.adaptKey, gptqAdaptKey, if_neg hidx, if_neg hweight, if_pos hsuffix,
      CheckpointTensor.ints, renamed_append]
    change (gptqQzerosToCanonical layer.qzeros).bind _ = _
    rw [hzeros]
    rfl
  | gptqInt8 =>
    obtain ⟨z, hz, hrows, hcols, hentry⟩ := layer.unpackZeros_qzeros (by rw [hformat]; decide)
    rw [hformat] at hz
    have hzeros : gptqInt8QzerosToCanonical layer.qzeros = .ok layer.canonicalZeros := by
      change (unpackZeros 8 4 layer.qzeros).map _ = _
      rw [show unpackZeros 8 4 layer.qzeros = .ok z from hz]
      simp only [Except.map, toFloat, Grid.map, Grid.transpose, hrows, hcols, hentry,
        canonicalZeros, hformat, PackedFormat.shift, sub_add_cancel]
    simp only [PackedFormat.adaptKey, gptqAdaptKey, if_neg hidx, if_neg hweight, if_pos hsuffix,
      CheckpointTensor.ints, renamed_append]
    change (gptqInt8QzerosToCanonical layer.qzeros).bind _ = _
    rw [hzeros]
    rfl

/-- The adapters transpose the scales. -/
theorem adaptKey_scales (stem : List Char) :
    layer.format.adaptKey (stem ++ ".scales".toList) (.floats layer.scales) =
      .ok (some (stem ++ ".weight_scale".toList, .floats layer.scales.transpose)) := by
  have hidx := not_suffix_append (a := ".g_idx".toList) (b := ".scales".toList) (by decide)
    (by decide) stem
  have hweight := not_suffix_append (a := ".qweight".toList) (b := ".scales".toList) (by decide)
    (by decide) stem
  have hzeros := not_suffix_append (a := ".qzeros".toList) (b := ".scales".toList) (by decide)
    (by decide) stem
  have hsuffix : ".scales".toList <:+ stem ++ ".scales".toList := List.suffix_append _ _
  cases layer.format <;>
    simp only [PackedFormat.adaptKey, awqAdaptKey, gptqAdaptKey, if_neg hidx, if_neg hweight,
      if_neg hzeros, if_pos hsuffix, adaptScales, renamed_append, CheckpointTensor.transpose,
      CheckpointTensor.float]

/-- The adapted tensors are the canonical ones. -/
theorem adapted_iff {stem : List Char} {weight : Grid ℤ} {zeros scales : Grid ℚ} :
    layer.Adapted stem weight zeros scales ↔
      weight = layer.canonicalWeight ∧ zeros = layer.canonicalZeros ∧
        scales = layer.scales.transpose := by
  constructor
  · intro h
    have hw := h.weight
    have hz := h.zeros
    have hs := h.scales
    rw [adaptKey_qweight] at hw
    rw [adaptKey_qzeros] at hz
    rw [adaptKey_scales] at hs
    cases hw
    cases hz
    cases hs
    exact ⟨rfl, rfl, rfl⟩
  · rintro ⟨rfl, rfl, rfl⟩
    exact ⟨layer.adaptKey_qweight stem, layer.adaptKey_qzeros stem, layer.adaptKey_scales stem⟩

/-! ### The value of an element -/

/-- A byte read with its sign is its code or 256 less. -/
theorem bmod_byte {u : ℤ} (h : 0 ≤ u ∧ u < 2 ^ 8) :
    Int.bmod u 256 = u ∨ Int.bmod u 256 = u - 256 := by
  rw [Int.bmod_def]
  omega

/-- A byte never loses the 128 its zero point does. -/
theorem byte_value_iff {u z : ℤ} {scale : ℚ} (h : 0 ≤ u ∧ u < 2 ^ 8) :
    ((Int.bmod u 256 : ℚ) - ((z - 128 : ℤ) : ℚ)) * scale = (u - z) * scale ↔ scale = 0 := by
  constructor
  · intro heq
    rcases bmod_byte h with hu | hu
    · rw [hu] at heq
      push_cast at heq
      linarith
    · rw [hu] at heq
      push_cast at heq
      linarith
  · rintro rfl
    simp

/-- The codes the kernel reads from the canonical words. -/
theorem kernelCodes_canonical (n k : Nat) :
    (layer.format.kernelCodes layer.canonicalWeight).entry n k =
      if layer.format = .gptqInt8 then Int.bmod (layer.code k n) 256 else layer.code k n := by
  have hplace := field_in_order layer.format.word_bits layer.format.pack_pos
    (fun c => layer.code_mem c n) k
  cases hformat : layer.format with
  | awq =>
    rw [hformat] at hplace
    simp only [PackedFormat.kernelCodes, unpackPlaces, canonicalWeight, hformat]
    exact hplace
  | gptqInt4 =>
    rw [hformat] at hplace
    simp only [PackedFormat.kernelCodes, unpackPlaces, canonicalWeight, hformat]
    exact hplace
  | gptqInt8 =>
    rw [hformat] at hplace
    rw [if_pos rfl]
    refine congrArg (fun b => Int.bmod b 256) ?_
    simp only [unpackPlaces, canonicalWeight, hformat]
    exact hplace

/-- **The adapters preserve the weight** but for eight-bit GPTQ, whose unsigned codes are read
with a sign while only the zero points are moved: there no element with a scale survives. -/
theorem adapters_preserve_iff (layer : PackedLinear) (stem : List Char) :
    (∃ weight zeros scales, layer.Adapted stem weight zeros scales ∧
        layer.Preserves weight zeros scales) ↔
      (layer.format = .gptqInt8 → ∀ n < layer.outFeatures, ∀ k < layer.inFeatures,
        k / layer.groupSize < layer.groups → layer.scale (k / layer.groupSize) n = 0) := by
  constructor
  · rintro ⟨weight, zeros, scales, hadapted, hpreserves⟩ hformat n hn k hk hgroup
    obtain ⟨rfl, rfl, rfl⟩ := layer.adapted_iff.mp hadapted
    have hvalue := hpreserves.value n hn k hk hgroup
    rw [kernelCodes_canonical, if_pos hformat] at hvalue
    have hmem := layer.code_mem k n
    rw [hformat] at hmem
    refine (byte_value_iff (z := layer.zeroPoint (k / layer.groupSize) n) hmem).mp ?_
    simpa [canonicalZeros, hformat, PackedFormat.shift, Grid.transpose, scales, PackedLinear.value]
      using hvalue
  · intro hscale
    refine ⟨_, _, _, layer.adapted_iff.mpr ⟨rfl, rfl, rfl⟩, ⟨rfl, rfl⟩, ⟨rfl, rfl⟩, ⟨rfl, rfl⟩,
      ?_, ?_, fun _ _ _ _ => rfl, ?_⟩
    · intro n hn k hk
      exact field_in_order layer.format.word_bits layer.format.pack_pos
        (fun c => layer.code_mem c n) k
    · intro n hn g hg
      simp [canonicalZeros]
    · intro n hn k hk hgroup
      rw [kernelCodes_canonical]
      split
      · rename_i hformat
        have hmem := layer.code_mem k n
        rw [hformat] at hmem
        have hvalue := (byte_value_iff (z := layer.zeroPoint (k / layer.groupSize) n) hmem).mpr
          (hscale hformat n hn k hk hgroup)
        simpa [canonicalZeros, hformat, PackedFormat.shift, Grid.transpose, scales,
          PackedLinear.value] using hvalue
      · rename_i hformat
        have hshift : layer.format.shift = 0 := by
          cases hf : layer.format with
          | awq => rfl
          | gptqInt4 => rfl
          | gptqInt8 => exact absurd hf hformat
        simp [canonicalZeros, hshift, Grid.transpose, scales, PackedLinear.value]

/-- Two words of four eight-bit codes for each of four channels, with unit scales. -/
def bytesLayer : PackedLinear where
  format := .gptqInt8
  kWords := 2
  nWords := 1
  groups := 1
  groupSize := 8
  code := fun _ _ => 200
  zeroPoint := fun _ _ => 128
  scale := fun _ _ => 1
  code_mem := fun _ _ => by decide
  zeroPoint_mem := fun _ _ => by decide
  groups_pos := Nat.zero_lt_one

/-- Code 200 at zero point 128 is worth 72, and -56 after the adapters. -/
theorem bytesLayer_lost : ¬ ∃ weight zeros scales, bytesLayer.Adapted [] weight zeros scales ∧
    bytesLayer.Preserves weight zeros scales := by
  rintro ⟨weight, zeros, scales, hadapted, hpreserves⟩
  obtain ⟨rfl, rfl, rfl⟩ := bytesLayer.adapted_iff.mp hadapted
  have hvalue := hpreserves.value 0 (by decide) 0 (by decide) (by decide)
  revert hvalue
  decide +kernel

end PackedLinear

end RapidLlm
