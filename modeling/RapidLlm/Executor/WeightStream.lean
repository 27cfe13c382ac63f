import Mathlib.Data.List.ReduceOption
import RapidLlm.Lib.Outcome
import RapidLlm.Lib.Tensor
import RapidLlm.Models.Weights
import RapidLlm.Quantization.Fp8

/-!
# RapidLlm.Executor.WeightStream

**The weight stream of a checkpoint** (`executor/weight_utils.py`): its shard files one after
another, each fp8 weight widened with its scale grid on the way, or handed through as bytes.

A shard looks for the scale of a weight among its own tensors. `cutFree_iff` says which cuts of
a checkpoint into shards that leaves out of account: those that keep every weight the filter
lets through in one shard with its scale. A weight cut off from its scale is yielded as it is
stored, and its scale is read by nothing.
-/

namespace RapidLlm

/-! ### Stored tensors -/

/-- The element types of a checkpoint. -/
inductive Dtype
  | bool | uint8 | int8 | int16 | int32 | int64
  | float8E4m3fn | float8E5m2 | float16 | bfloat16 | float32 | float64
  deriving DecidableEq, Repr

/-- `dtype.itemsize`. -/
def Dtype.itemsize : Dtype → Nat
  | .bool | .uint8 | .int8 | .float8E4m3fn | .float8E5m2 => 1
  | .int16 | .float16 | .bfloat16 => 2
  | .int32 | .float32 => 4
  | .int64 | .float64 => 8

/-- A tensor as a shard holds it: the bytes of every element. -/
structure StoredTensor extends CkptTensor (List UInt8) where
  dtype : Dtype

/-- Arithmetic in single precision: conversions from and to the stored types, and the product. -/
structure Fp32 (F : Type) where
  read : Dtype → List UInt8 → F
  mul : F → F → F
  write : Dtype → F → List UInt8

namespace CkptTensor

variable {A B C : Type}

/-- `t.repeat_interleave(repeats, dim)`. -/
def repeatInterleave (t : CkptTensor A) (repeats dim : Nat) : Except Raised (CkptTensor A) :=
  if dim < t.shape.length then
    .ok ⟨t.shape.modify dim (· * repeats), fun index => t.entry (index.modify dim (· / repeats))⟩
  else .error (.indexError "Dimension out of range")

/-- `t[: other.shape[0], : other.shape[1]]`, for a `t` of two dimensions or more. -/
def cropTo (t : CkptTensor A) (other : CkptTensor B) : Except Raised (CkptTensor A) :=
  match other.shape with
  | n :: k :: _ => .ok ⟨(t.shape.modify 0 (min n)).modify 1 (min k), t.entry⟩
  | _ => .error (.indexError "tuple index out of range")

/-- The extents two shapes broadcast to, both from the last one on. -/
def broadcastDims : List Nat → List Nat → Option (List Nat)
  | [], shape => some shape
  | shape, [] => some shape
  | a :: shape, b :: shape' => do
      let extent ← Grid.broadcastDim a b
      return extent :: (← broadcastDims shape shape')

/-- The index a tensor of a shape is read at, for an index of what it is broadcast to. -/
def broadcastIndex (shape index : List Nat) : List Nat :=
  List.zipWith (fun extent i => if extent = 1 then 0 else i) shape
    (index.drop (index.length - shape.length))

/-- An elementwise operation on two tensors, broadcast to one shape. -/
def zipWith (f : A → B → C) (t : CkptTensor A) (t' : CkptTensor B) :
    Except Raised (CkptTensor C) :=
  match broadcastDims t.shape.reverse t'.shape.reverse with
  | some shape =>
    .ok ⟨shape.reverse, fun index =>
      f (t.entry (broadcastIndex t.shape index)) (t'.entry (broadcastIndex t'.shape index))⟩
  | none => .error (.runtimeError "The size of tensor a must match the size of tensor b")

end CkptTensor

namespace StoredTensor

variable {F : Type} (fp : Fp32 F)

/-- `t.to(torch.float32)`. -/
def toFloat32 (t : StoredTensor) : CkptTensor F :=
  ⟨t.shape, fun index => fp.read t.dtype (t.entry index)⟩

/-- `t.view(torch.uint8)`. -/
def viewUint8 (t : StoredTensor) : Except Raised StoredTensor :=
  if t.dtype.itemsize = 1 then .ok { t with dtype := .uint8 }
  else match t.shape.getLast? with
    | none => .error (.runtimeError "self.dim() cannot be 0 to view as a smaller element size")
    | some extent =>
      .ok {
        dtype := .uint8
        shape := t.shape.dropLast ++ [extent * t.dtype.itemsize]
        entry := fun index =>
          let byte := index.getLastD 0
          [(t.entry (index.dropLast ++ [byte / t.dtype.itemsize])).getD
            (byte % t.dtype.itemsize) 0] }

end StoredTensor

/-- `dequant_block_fp8`. -/
def dequantBlockFp8 {F : Type} (fp : Fp32 F) (weight scaleInv : StoredTensor) (dtype : Dtype) :
    Except Raised StoredTensor := do
  let w := weight.toFloat32 fp
  let scale := scaleInv.toFloat32 fp
  let scale ← scale.repeatInterleave fp8Block.toNat 0
  let scale ← scale.repeatInterleave fp8Block.toNat 1
  let scale ← scale.cropTo w
  let out ← w.zipWith fp.mul scale
  return ⟨⟨out.shape, fun index => fp.write dtype (out.entry index)⟩, dtype⟩

/-! ### The stream -/

/-- `_SCALE_SUFFIX`. -/
def scaleSuffix : TensorName := ".weight_scale_inv".toList

/-- `key.removesuffix(".weight") + _SCALE_SUFFIX`. -/
def scaleKey (key : TensorName) : TensorName :=
  (stripSuffix ".weight".toList key).getD key ++ scaleSuffix

/-- The names and tensors of a file, or of a stream. -/
abbrev NamedTensors := List (TensorName × StoredTensor)

inductive ShardFormat
  | safetensors
  | torchBin
  deriving DecidableEq, Repr

/-- A file of the checkpoint directory: its path, and the tensors it stores. -/
structure ShardFile where
  path : TensorName
  format : ShardFormat
  tensors : NamedTensors

/-- `sorted(root.glob(...))`. -/
def sortedShards (files : List ShardFile) : List ShardFile :=
  files.insertionSort (·.path ≤ ·.path)

/-- `hf_weight_files`; it raises `FileNotFoundError` where there are none. -/
def hfWeightFiles (root : List ShardFile) : Option (List ShardFile) :=
  let shards := sortedShards (root.filter (·.format = .safetensors))
  if shards ≠ [] then some shards
  else
    let shards := sortedShards (root.filter (·.format = .torchBin))
    if shards ≠ [] then some shards else none

/-- The arguments of `hf_weights_iterator`. An fp8 weight is widened to a type wider than it. -/
structure StreamOptions (F : Type) where
  fp : Fp32 F
  dequantizeFp8 : Bool
  dequantDtype : Dtype
  keyFilter : Option (TensorName → Bool)
  widens : 1 < dequantDtype.itemsize

namespace StreamOptions

variable {F : Type} (opts : StreamOptions F)

/-- `key_filter is None or key_filter(key)`. -/
def accepts (key : TensorName) : Bool := opts.keyFilter.all (· key)

/-- What becomes of a weight stored with its scale. -/
def paired (tensor scale : StoredTensor) : Except Raised StoredTensor :=
  if opts.dequantizeFp8 then dequantBlockFp8 opts.fp tensor scale opts.dequantDtype
  else tensor.viewUint8

/-- `shard.get_tensor(key)`. -/
def getTensor (shard : ShardFile) (key : TensorName) : Except Raised StoredTensor :=
  match shard.tensors.lookup key with
  | some tensor => .ok tensor
  | none => .error (.keyError (quoted key))

/-- The body of the loop of `_iter_safetensors`. -/
def yieldSafetensors (shard : ShardFile) (key : TensorName) :
    Except Raised (Option (TensorName × StoredTensor)) :=
  if !opts.accepts key then .ok none
  else if scaleSuffix <:+ key then
    if opts.dequantizeFp8 then .ok none
    else do return some (key, ← getTensor shard key)
  else do
    let tensor ← getTensor shard key
    if (shard.tensors.map Prod.fst).contains (scaleKey key) then
      return some (key, ← opts.paired tensor (← getTensor shard (scaleKey key)))
    else return some (key, tensor)

/-- `_iter_safetensors`. -/
def iterSafetensors (shard : ShardFile) : Except Raised NamedTensors := do
  let out ← (sortedNames (shard.tensors.map Prod.fst)).mapM (opts.yieldSafetensors shard)
  return out.reduceOption

/-- The body of the loop of `_iter_torch_bin`. -/
def yieldTorchBin (scales : NamedTensors) (item : TensorName × StoredTensor) :
    Except Raised (Option (TensorName × StoredTensor)) :=
  if !opts.accepts item.1 then .ok none
  else if scaleSuffix <:+ item.1 then
    .ok (if opts.dequantizeFp8 then none else some item)
  else match scales.lookup (scaleKey item.1) with
    | some scale => do return some (item.1, ← opts.paired item.2 scale)
    | none => .ok (some item)

/-- `_iter_torch_bin`. -/
def iterTorchBin (shard : ShardFile) : Except Raised NamedTensors := do
  let scales := shard.tensors.filter fun item => scaleSuffix <:+ item.1
  let out ← shard.tensors.mapM (opts.yieldTorchBin scales)
  return out.reduceOption

/-- The pairs of one file. -/
def iterShard (shard : ShardFile) : Except Raised NamedTensors :=
  match shard.format with
  | .safetensors => opts.iterSafetensors shard
  | .torchBin => opts.iterTorchBin shard

/-- `hf_weights_iterator`, read to its end: nothing where `hf_weight_files` raises. -/
def hfWeightsIterator (root : List ShardFile) : Option (Except Raised NamedTensors) :=
  (hfWeightFiles root).map fun files => do return (← files.mapM opts.iterShard).flatten

end StreamOptions

/-! ### A checkpoint, and its cuts into shards -/

/-- A weight and its scale grid, which has an entry for every block of the weight. -/
structure BlockScaled (weight scale : StoredTensor) : Prop where
  fp8 : weight.dtype = .float8E4m3fn
  blocks : ∃ n k rows cols, weight.shape = [n, k] ∧ scale.shape = [rows, cols] ∧
    n ≤ rows * 128 ∧ k ≤ cols * 128

/-- A set of named tensors; those stored with a scale are fp8 weights. -/
structure Checkpoint where
  tensors : NamedTensors
  distinct : (tensors.map Prod.fst).Nodup
  scaled : ∀ key weight scale, (key, weight) ∈ tensors → ¬ scaleSuffix <:+ key →
    (scaleKey key, scale) ∈ tensors → BlockScaled weight scale

/-- The checkpoint cut into shard files of one format. -/
structure Checkpoint.Cut (ckpt : Checkpoint) (root : List ShardFile) : Prop where
  stored : root ≠ []
  format : ∃ format, ∀ shard ∈ root, shard.format = format
  tensors : (root.flatMap ShardFile.tensors).Perm ckpt.tensors

namespace StreamOptions

variable {F : Type} (opts : StreamOptions F)

/-- `w[i, j] * s[i // 128, j // 128]`, in the type the stream widens to. -/
def Dequantised (weight scale out : StoredTensor) : Prop :=
  out.dtype = opts.dequantDtype ∧ out.shape = weight.shape ∧
  ∀ i j, Inside [i, j] weight.shape →
    out.entry [i, j] = opts.fp.write opts.dequantDtype
      (opts.fp.mul (opts.fp.read weight.dtype (weight.entry [i, j]))
        (opts.fp.read scale.dtype (scale.entry [i / 128, j / 128])))

/-- A weight with a scale in the checkpoint is widened with it, or handed through as bytes, and
its scale with it if the filter lets that through. -/
def PairedIn (pairs : NamedTensors) (key : TensorName) (weight scale : StoredTensor) : Prop :=
  if opts.dequantizeFp8 then ∃ out, (key, out) ∈ pairs ∧ opts.Dequantised weight scale out
  else (key, { weight with dtype := .uint8 }) ∈ pairs ∧
    (opts.accepts (scaleKey key) → (scaleKey key, scale) ∈ pairs)

/-- **The stream does not depend on the cut**: it has every key once, it has the pairs of the
checkpoint stored in any one file, and every weight the filter lets through is with its scale. -/
def CutFree (ckpt : Checkpoint) (root : List ShardFile) : Prop :=
  ∃ pairs, opts.hfWeightsIterator root = some (.ok pairs) ∧
    (pairs.map Prod.fst).Nodup ∧
    (∀ single : ShardFile, single.tensors.Perm ckpt.tensors →
      ∃ whole, opts.hfWeightsIterator [single] = some (.ok whole) ∧
        (whole.map Prod.fst).Nodup ∧ ∀ pair, pair ∈ pairs ↔ pair ∈ whole) ∧
    ∀ key weight scale, (key, weight) ∈ ckpt.tensors → opts.accepts key →
      ¬ scaleSuffix <:+ key → (scaleKey key, scale) ∈ ckpt.tensors →
        opts.PairedIn pairs key weight scale

/-- Every weight the filter lets through is in one shard with its scale. -/
def ScalesAlong (root : List ShardFile) : Prop :=
  ∀ shard ∈ root, ∀ key ∈ shard.tensors.map Prod.fst, opts.accepts key →
    ¬ scaleSuffix <:+ key → ∀ other ∈ root, scaleKey key ∈ other.tensors.map Prod.fst →
      scaleKey key ∈ shard.tensors.map Prod.fst

end StreamOptions

/-! ### One weight -/

namespace CkptTensor

variable {A B C : Type}

theorem broadcastDims_self (shape : List Nat) : broadcastDims shape shape = some shape := by
  induction shape with
  | nil => rfl
  | cons extent shape ih =>
    rw [broadcastDims, Grid.broadcastDim_self, ih]
    rfl

theorem broadcastIndex_self {index shape : List Nat} (h : Inside index shape) :
    broadcastIndex shape index = index := by
  rw [broadcastIndex, h.length_eq, Nat.sub_self, List.drop_zero]
  induction shape generalizing index with
  | nil =>
    cases index with
    | nil => rfl
    | cons i index => cases h
  | cons extent shape ih =>
    cases index with
    | nil => cases h
    | cons i index => rw [List.zipWith_cons_cons, Grid.coord_eq h.1, ih h.2]

/-- Tensors of one shape combine entry by entry. -/
theorem zipWith_same (f : A → B → C) {t : CkptTensor A} {t' : CkptTensor B}
    (hshape : t'.shape = t.shape) :
    ∃ out, t.zipWith f t' = .ok out ∧ out.shape = t.shape ∧
      ∀ index, Inside index t.shape → out.entry index = f (t.entry index) (t'.entry index) := by
  rw [zipWith, hshape, broadcastDims_self]
  refine ⟨_, rfl, List.reverse_reverse _, fun index hindex => ?_⟩
  dsimp only
  rw [broadcastIndex_self hindex]

/-- A grid with an entry for every block, repeated over the blocks and cropped to the weight. -/
theorem repeat_cropTo (t : CkptTensor A) (other : CkptTensor B) {n k rows cols : Nat}
    (ht : t.shape = [rows, cols]) (hother : other.shape = [n, k]) (hrows : n ≤ rows * 128)
    (hcols : k ≤ cols * 128) :
    (do
      let t ← t.repeatInterleave fp8Block.toNat 0
      let t ← t.repeatInterleave fp8Block.toNat 1
      t.cropTo other) =
    .ok ⟨[n, k], fun index => t.entry ((index.modify 1 (· / 128)).modify 0 (· / 128))⟩ := by
  have hblock : fp8Block.toNat = 128 := rfl
  simp [repeatInterleave, cropTo, ht, hother, hblock, Nat.min_eq_left hrows,
    Nat.min_eq_left hcols]

end CkptTensor

namespace StreamOptions

variable {F : Type} (opts : StreamOptions F) {weight scale : StoredTensor}

/-- A scale grid widens its weight entry by entry, the partial blocks too. -/
theorem dequantBlockFp8_blocks (h : BlockScaled weight scale) :
    ∃ out, dequantBlockFp8 opts.fp weight scale opts.dequantDtype = .ok out ∧
      opts.Dequantised weight scale out := by
  obtain ⟨n, k, rows, cols, hweight, hscale, hrows, hcols⟩ := h.blocks
  have hfull := CkptTensor.repeat_cropTo (scale.toFloat32 opts.fp)
    (weight.toFloat32 opts.fp) hscale hweight hrows hcols
  obtain ⟨full, hfull, hshape, hentry⟩ : ∃ full : CkptTensor F, _ = Except.ok full ∧
      full.shape = [n, k] ∧ ∀ i j, full.entry [i, j] =
        opts.fp.read scale.dtype (scale.entry [i / 128, j / 128]) :=
    ⟨_, hfull, rfl, fun _ _ => rfl⟩
  obtain ⟨out, hout, houtShape, houtEntry⟩ :=
    CkptTensor.zipWith_same opts.fp.mul (t := weight.toFloat32 opts.fp)
      (hshape.trans hweight.symm)
  refine ⟨⟨⟨out.shape, fun index => opts.fp.write opts.dequantDtype (out.entry index)⟩,
    opts.dequantDtype⟩, ?_, rfl, houtShape, fun i j hij => ?_⟩
  · have hsplit : dequantBlockFp8 opts.fp weight scale opts.dequantDtype = (do
        let full ← (do
          let t ← (scale.toFloat32 opts.fp).repeatInterleave fp8Block.toNat 0
          let t ← t.repeatInterleave fp8Block.toNat 1
          t.cropTo (weight.toFloat32 opts.fp))
        let out ← (weight.toFloat32 opts.fp).zipWith opts.fp.mul full
        return ⟨⟨out.shape, fun index => opts.fp.write opts.dequantDtype (out.entry index)⟩,
          opts.dequantDtype⟩) := by
      simp only [dequantBlockFp8, bind_assoc]
    rw [hsplit, hfull, ok_bind, hout]
    rfl
  · dsimp only
    rw [houtEntry _ hij, hentry]
    rfl

theorem viewUint8_fp8 (h : weight.dtype = .float8E4m3fn) :
    weight.viewUint8 = .ok { weight with dtype := .uint8 } := by
  rw [StoredTensor.viewUint8, h]
  rfl

/-- A weight stored with its scale always comes out. -/
theorem paired_ok (h : BlockScaled weight scale) : ∃ out, opts.paired weight scale = .ok out ∧
    out.dtype ≠ weight.dtype ∧
    if opts.dequantizeFp8 then opts.Dequantised weight scale out
    else out = { weight with dtype := .uint8 } := by
  unfold paired
  split
  · obtain ⟨out, hout, hdeq⟩ := opts.dequantBlockFp8_blocks h
    refine ⟨out, hout, ?_, hdeq⟩
    rw [hdeq.1, h.fp8]
    intro heq
    exact absurd opts.widens (by rw [heq]; decide)
  · refine ⟨_, viewUint8_fp8 h.fp8, ?_, rfl⟩
    rw [h.fp8]
    exact nofun

/-! ### One shard -/

theorem lookup_eq_some {tensors : NamedTensors} (hdistinct : (tensors.map Prod.fst).Nodup)
    {key : TensorName} {tensor : StoredTensor} (h : (key, tensor) ∈ tensors) :
    tensors.lookup key = some tensor := by
  induction tensors with
  | nil => cases h
  | cons head tensors ih =>
    obtain ⟨hhead, htail⟩ := List.nodup_cons.mp hdistinct
    rcases List.mem_cons.mp h with rfl | hmem
    · rw [List.lookup_cons, beq_self_eq_true]
    · have hne : (key == head.1) = false := by
        rw [beq_eq_false_iff_ne]
        rintro rfl
        exact hhead (List.mem_map.mpr ⟨_, hmem, rfl⟩)
      rw [List.lookup_cons, hne]
      exact ih htail hmem

/-- The scales of a shard. -/
def scalesOf (tensors : NamedTensors) : NamedTensors :=
  tensors.filter fun item => scaleSuffix <:+ item.1

theorem mem_scalesOf {tensors : NamedTensors} {key : TensorName} {scale : StoredTensor} :
    (scaleKey key, scale) ∈ scalesOf tensors ↔ (scaleKey key, scale) ∈ tensors := by
  rw [scalesOf, List.mem_filter]
  exact and_iff_left (decide_eq_true (List.suffix_append _ _))

theorem scalesOf_distinct {tensors : NamedTensors} (h : (tensors.map Prod.fst).Nodup) :
    ((scalesOf tensors).map Prod.fst).Nodup :=
  (List.filter_sublist.map _).nodup h

/-- What a shard yields for one of its tensors, in either format. -/
abbrev yields (tensors : NamedTensors) (item : TensorName × StoredTensor) :
    Except Raised (Option (TensorName × StoredTensor)) :=
  opts.yieldTorchBin (scalesOf tensors) item

section Yields

variable {tensors : NamedTensors} {item pair : TensorName × StoredTensor}

theorem yields_paired (hdistinct : (tensors.map Prod.fst).Nodup) (haccept : opts.accepts item.1)
    (hweight : ¬ scaleSuffix <:+ item.1) (hscale : (scaleKey item.1, scale) ∈ tensors) :
    opts.yields tensors item = do return some (item.1, ← opts.paired item.2 scale) := by
  have hlookup := lookup_eq_some (scalesOf_distinct hdistinct) (mem_scalesOf.mpr hscale)
  simp only [yieldTorchBin, haccept, Bool.not_true, Bool.false_eq_true, if_false, if_neg hweight,
    hlookup]

theorem yields_lone (haccept : opts.accepts item.1) (hweight : ¬ scaleSuffix <:+ item.1)
    (hscale : scaleKey item.1 ∉ tensors.map Prod.fst) :
    opts.yields tensors item = .ok (some item) := by
  have hlookup : (scalesOf tensors).lookup (scaleKey item.1) = none := by
    rw [List.lookup_eq_none_iff]
    intro other hother
    rw [bne_iff_ne]
    rintro heq
    exact hscale (List.mem_map.mpr ⟨other, (List.mem_filter.mp hother).1, heq.symm⟩)
  simp only [yieldTorchBin, haccept, Bool.not_true, Bool.false_eq_true, if_false, if_neg hweight,
    hlookup]

/-- A tensor is yielded under its own name. -/
theorem yields_key (h : opts.yields tensors item = .ok (some pair)) : pair.1 = item.1 := by
  unfold yields yieldTorchBin at h
  split at h
  · cases h
  split at h
  · split at h
    · cases h
    · cases h
      rfl
  · split at h
    · obtain ⟨out, -, h⟩ := bind_eq_ok.mp h
      cases h
      rfl
    · cases h
      rfl

theorem yieldSafetensors_eq {shard : ShardFile} (hdistinct : (shard.tensors.map Prod.fst).Nodup)
    (hitem : item ∈ shard.tensors) :
    opts.yieldSafetensors shard item.1 = opts.yields shard.tensors item := by
  have hget : getTensor shard item.1 = .ok item.2 := by
    rw [getTensor, lookup_eq_some hdistinct hitem]
  unfold yieldSafetensors
  cases haccept : opts.accepts item.1 with
  | false => simp only [yieldTorchBin, haccept, Bool.not_false, if_true]
  | true =>
    by_cases hweight : scaleSuffix <:+ item.1
    · simp only [yieldTorchBin, haccept, Bool.not_true, Bool.false_eq_true, if_false,
        if_pos hweight, hget, ok_bind, pure_eq_ok]
      split <;> rfl
    · simp only [Bool.not_true, Bool.false_eq_true, if_false, if_neg hweight, hget, ok_bind]
      by_cases hscale : scaleKey item.1 ∈ shard.tensors.map Prod.fst
      · obtain ⟨scale, hmem⟩ : ∃ scale, (scaleKey item.1, scale) ∈ shard.tensors := by
          simpa using hscale
        rw [if_pos (List.contains_iff_mem.mpr hscale), opts.yields_paired hdistinct haccept hweight hmem, getTensor,
          lookup_eq_some hdistinct hmem]
        rfl
      · rw [if_neg (mt List.contains_iff_mem.mp hscale), opts.yields_lone haccept hweight hscale]
        rfl

end Yields

/-- A loop that yields under the names it runs over yields each at most once. -/
theorem reduceOption_names {X : Type} {f : X → Except Raised (Option (TensorName × StoredTensor))}
    {name : X → TensorName} {xs : List X} {ys : List (Option (TensorName × StoredTensor))}
    (h : xs.mapM f = .ok ys) (hname : ∀ x ∈ xs, ∀ pair, f x = .ok (some pair) → pair.1 = name x) :
    (ys.reduceOption.map Prod.fst).Sublist (xs.map name) := by
  induction xs generalizing ys with
  | nil =>
    cases h
    exact List.Sublist.refl _
  | cons x xs ih =>
    rw [List.mapM_cons] at h
    obtain ⟨y, hy, h⟩ := bind_eq_ok.mp h
    obtain ⟨zs, hzs, h⟩ := bind_eq_ok.mp h
    cases h
    have hrest := ih hzs fun x hx => hname x (List.mem_cons_of_mem _ hx)
    cases y with
    | none =>
      rw [List.reduceOption_cons_of_none]
      exact hrest.cons _
    | some pair =>
      rw [List.reduceOption_cons_of_some, List.map_cons, List.map_cons,
        hname x List.mem_cons_self pair hy]
      exact hrest.cons_cons _

/-- What a shard yields: of each of its tensors what it makes of it, each name at most once. -/
structure ShardYields (shard : ShardFile) (out : NamedTensors) : Prop where
  names : (out.map Prod.fst).Subperm (shard.tensors.map Prod.fst)
  mem : ∀ pair, pair ∈ out ↔ ∃ item ∈ shard.tensors, opts.yields shard.tensors item = .ok (some pair)

/-- The loop of either format, over names or over items, meets each tensor once. -/
theorem loop_yields {X : Type} {shard : ShardFile} (name : X → TensorName)
    {f : X → Except Raised (Option (TensorName × StoredTensor))}
    {xs : List X} (hperm : (xs.map name).Perm (shard.tensors.map Prod.fst))
    (hstep : ∀ x ∈ xs, ∀ item ∈ shard.tensors, name x = item.1 →
      f x = opts.yields shard.tensors item)
    (hok : ∀ item ∈ shard.tensors, ∃ y, opts.yields shard.tensors item = .ok y) :
    ∃ out, (do return (← xs.mapM f).reduceOption) = Except.ok out ∧
      opts.ShardYields shard out := by
  -- Every turn of the loop is at a tensor, and every tensor has its turn.
  have hitem : ∀ x ∈ xs, ∃ item ∈ shard.tensors, name x = item.1 ∧
      f x = opts.yields shard.tensors item := by
    intro x hx
    obtain ⟨item, hmem, heq⟩ := List.mem_map.mp (hperm.mem_iff.mp (List.mem_map_of_mem hx))
    exact ⟨item, hmem, heq.symm, hstep x hx item hmem heq.symm⟩
  have hturn : ∀ item ∈ shard.tensors, ∃ x ∈ xs, f x = opts.yields shard.tensors item := by
    intro item hmem
    obtain ⟨x, hx, heq⟩ := List.mem_map.mp (hperm.mem_iff.mpr (List.mem_map_of_mem hmem))
    exact ⟨x, hx, hstep x hx item hmem heq⟩
  obtain ⟨ys, hys⟩ : ∃ ys, xs.mapM f = .ok ys := by
    refine mapM_total fun x hx => ?_
    obtain ⟨item, hmem, -, heq⟩ := hitem x hx
    rw [heq]
    exact hok item hmem
  obtain ⟨hto, hfrom⟩ := mapM_mem hys
  refine ⟨ys.reduceOption, by rw [hys]; rfl, ?_, fun pair => ?_⟩
  · refine (reduceOption_names hys fun x hx pair hpair => ?_).subperm.trans hperm.subperm
    obtain ⟨item, -, hname, heq⟩ := hitem x hx
    rw [hname]
    exact opts.yields_key (heq ▸ hpair)
  · rw [List.reduceOption_mem_iff]
    constructor
    · intro hpair
      obtain ⟨x, hx, hx'⟩ := hfrom _ hpair
      obtain ⟨item, hmem, -, heq⟩ := hitem x hx
      exact ⟨item, hmem, heq ▸ hx'⟩
    · rintro ⟨item, hmem, hyield⟩
      obtain ⟨x, hx, heq⟩ := hturn item hmem
      obtain ⟨y, hy, hxy⟩ := hto x hx
      cases (heq.trans hyield).symm.trans hxy
      exact hy

theorem eq_of_key {tensors : NamedTensors} (hdistinct : (tensors.map Prod.fst).Nodup)
    {item other : TensorName × StoredTensor} (hitem : item ∈ tensors) (hother : other ∈ tensors)
    (hkey : item.1 = other.1) : item = other :=
  List.inj_on_of_nodup_map hdistinct hitem hother hkey

theorem iterShard_ok {shard : ShardFile} (hdistinct : (shard.tensors.map Prod.fst).Nodup)
    (hok : ∀ item ∈ shard.tensors, ∃ y, opts.yields shard.tensors item = .ok y) :
    ∃ out, opts.iterShard shard = .ok out ∧ opts.ShardYields shard out := by
  unfold iterShard
  split
  · refine opts.loop_yields id ?_ (fun x hx item hitem hname => ?_) hok
    · rw [List.map_id]
      exact List.perm_insertionSort ..
    · rw [id] at hname
      rw [hname]
      exact opts.yieldSafetensors_eq hdistinct hitem
  · refine opts.loop_yields Prod.fst (List.Perm.refl _)
      (fun x hx item hitem hname => ?_) hok
    rw [eq_of_key hdistinct hx hitem hname]
    rfl

/-! ### The shards one after another -/

theorem mapM_iterShard {files : List ShardFile}
    (hdistinct : ((files.flatMap ShardFile.tensors).map Prod.fst).Nodup)
    (hok : ∀ shard ∈ files, ∀ item ∈ shard.tensors, ∃ y, opts.yields shard.tensors item = .ok y) :
    ∃ outs, files.mapM opts.iterShard = .ok outs ∧
      (outs.flatten.map Prod.fst).Subperm ((files.flatMap ShardFile.tensors).map Prod.fst) ∧
      ∀ pair, pair ∈ outs.flatten ↔
        ∃ shard ∈ files, ∃ item ∈ shard.tensors, opts.yields shard.tensors item = .ok (some pair) := by
  induction files with
  | nil => exact ⟨[], rfl, List.Subperm.refl _, by simp⟩
  | cons shard files ih =>
    rw [List.flatMap_cons, List.map_append] at hdistinct
    obtain ⟨hshard, hfiles⟩ := List.forall_mem_cons.mp hok
    obtain ⟨out, hout, hyields⟩ :=
      opts.iterShard_ok (List.Nodup.of_append_left hdistinct) hshard
    obtain ⟨outs, houts, hnames, hmem⟩ := ih (List.Nodup.of_append_right hdistinct) hfiles
    refine ⟨out :: outs, by rw [List.mapM_cons, hout, ok_bind, houts]; rfl, ?_, fun pair => ?_⟩
    · rw [List.flatten_cons, List.map_append, List.flatMap_cons, List.map_append]
      exact hyields.names.append hnames
    · rw [List.flatten_cons, List.mem_append, hyields.mem, hmem, List.exists_mem_cons_iff]

end StreamOptions

namespace Checkpoint.Cut

variable {F : Type} (opts : StreamOptions F) {ckpt : Checkpoint} {root : List ShardFile}

theorem hfWeightFiles_eq (hcut : ckpt.Cut root) : hfWeightFiles root = some (sortedShards root) := by
  obtain ⟨format, hformat⟩ := hcut.format
  have hsorted : ∀ files : List ShardFile, files ≠ [] → sortedShards files ≠ [] := by
    intro files hne hnil
    exact hne (List.Perm.nil_eq (hnil ▸ List.perm_insertionSort ..)).symm
  have hall : root.filter (·.format = format) = root :=
    List.filter_eq_self.mpr fun shard hshard => decide_eq_true (hformat shard hshard)
  unfold hfWeightFiles
  cases format with
  | safetensors => rw [hall, if_pos (hsorted root hcut.stored)]
  | torchBin =>
    have hnone : root.filter (·.format = .safetensors) = [] := by
      refine List.filter_eq_nil_iff.mpr fun shard hshard => ?_
      rw [hformat shard hshard]
      decide
    have hnil : ¬ sortedShards [] ≠ [] := not_not_intro rfl
    rw [hnone, hall]
    dsimp only
    rw [if_neg hnil, if_pos (hsorted root hcut.stored)]

theorem subset (hcut : ckpt.Cut root) {shard : ShardFile} (hshard : shard ∈ root) :
    shard.tensors ⊆ ckpt.tensors :=
  fun _ hitem => hcut.tensors.subset (List.mem_flatMap_of_mem hshard hitem)

theorem distinct (hcut : ckpt.Cut root) : ((root.flatMap ShardFile.tensors).map Prod.fst).Nodup :=
  (hcut.tensors.map Prod.fst).nodup_iff.mpr ckpt.distinct

theorem shard_distinct (hcut : ckpt.Cut root) {shard : ShardFile} (hshard : shard ∈ root) :
    (shard.tensors.map Prod.fst).Nodup := by
  have hsub := List.sublist_flatten_of_mem (List.mem_map_of_mem (f := ShardFile.tensors) hshard)
  rw [← List.flatMap_def] at hsub
  exact (hsub.map _).nodup hcut.distinct

/-- A shard makes something of every tensor, whether or not its scale is there. -/
theorem yields_total (hcut : ckpt.Cut root) {shard : ShardFile} (hshard : shard ∈ root)
    {item : TensorName × StoredTensor} (hitem : item ∈ shard.tensors) :
    ∃ y, opts.yields shard.tensors item = .ok y := by
  have hdistinct := hcut.shard_distinct hshard
  by_cases hyield : opts.accepts item.1 ∧ ¬ scaleSuffix <:+ item.1
  · obtain ⟨haccept, hweight⟩ := hyield
    by_cases hscale : scaleKey item.1 ∈ shard.tensors.map Prod.fst
    · obtain ⟨scale, hmem⟩ : ∃ scale, (scaleKey item.1, scale) ∈ shard.tensors := by
        simpa using hscale
      obtain ⟨out, hout, -⟩ := opts.paired_ok
        (ckpt.scaled _ _ _ (hcut.subset hshard hitem) hweight (hcut.subset hshard hmem))
      exact ⟨_, by rw [opts.yields_paired hdistinct haccept hweight hmem, hout]; rfl⟩
    · exact ⟨_, opts.yields_lone haccept hweight hscale⟩
  · unfold StreamOptions.yields StreamOptions.yieldTorchBin
    split
    · exact ⟨_, rfl⟩
    · next haccept =>
      rw [if_pos (by_contra fun hweight => hyield ⟨by simpa using haccept, hweight⟩)]
      exact ⟨_, rfl⟩

/-- **The stream of a cut checkpoint** runs to its end, has each key once, and yields of each
tensor what its own shard makes of it. -/
theorem stream (hcut : ckpt.Cut root) :
    ∃ pairs, opts.hfWeightsIterator root = some (.ok pairs) ∧ (pairs.map Prod.fst).Nodup ∧
      ∀ pair, pair ∈ pairs ↔ ∃ shard ∈ root, ∃ item ∈ shard.tensors,
        opts.yields shard.tensors item = .ok (some pair) := by
  have hsorted : (sortedShards root).Perm root := List.perm_insertionSort ..
  have hdistinct : (((sortedShards root).flatMap ShardFile.tensors).map Prod.fst).Nodup :=
    ((hsorted.flatMap_right _).map Prod.fst).nodup_iff.mpr hcut.distinct
  obtain ⟨outs, houts, hnames, hmem⟩ := opts.mapM_iterShard hdistinct fun shard hshard item =>
    hcut.yields_total opts (hsorted.mem_iff.mp hshard)
  refine ⟨outs.flatten, ?_, ?_, fun pair => ?_⟩
  · rw [StreamOptions.hfWeightsIterator, hcut.hfWeightFiles_eq, Option.map_some, houts]
    rfl
  · obtain ⟨names, hperm, hsub⟩ := hnames
    exact hperm.nodup_iff.mp (hsub.nodup hdistinct)
  · rw [hmem]
    simp only [hsorted.mem_iff]

/-- The whole checkpoint in one file is a cut of it. -/
theorem single {shard : ShardFile} (h : shard.tensors.Perm ckpt.tensors) : ckpt.Cut [shard] where
  stored := List.cons_ne_nil _ _
  format := ⟨shard.format, fun _ hmem => congrArg ShardFile.format (List.mem_singleton.mp hmem)⟩
  tensors := by
    rw [List.flatMap_singleton]
    exact h

end Checkpoint.Cut

namespace StreamOptions

variable {F : Type} (opts : StreamOptions F) {ckpt : Checkpoint} {root : List ShardFile}

/-- Where the scales are along, a shard makes of a tensor what the whole checkpoint does. -/
theorem yields_eq (hcut : ckpt.Cut root) (halong : opts.ScalesAlong root) {shard single : ShardFile}
    (hshard : shard ∈ root) (hsingle : single.tensors.Perm ckpt.tensors)
    {item : TensorName × StoredTensor} (hitem : item ∈ shard.tensors) :
    opts.yields shard.tensors item = opts.yields single.tensors item := by
  have hdistinct := hcut.shard_distinct hshard
  have hwhole := (Checkpoint.Cut.single hsingle).shard_distinct List.mem_cons_self
  by_cases hyield : opts.accepts item.1 ∧ ¬ scaleSuffix <:+ item.1
  · obtain ⟨haccept, hweight⟩ := hyield
    by_cases hscale : scaleKey item.1 ∈ shard.tensors.map Prod.fst
    · obtain ⟨scale, hmem⟩ : ∃ scale, (scaleKey item.1, scale) ∈ shard.tensors := by
        simpa using hscale
      rw [opts.yields_paired hdistinct haccept hweight hmem,
        opts.yields_paired hwhole haccept hweight (hsingle.mem_iff.mpr (hcut.subset hshard hmem))]
    · have hnone : scaleKey item.1 ∉ single.tensors.map Prod.fst := by
        intro hother
        obtain ⟨scale, hmem, heq⟩ := List.mem_map.mp hother
        obtain ⟨other, hother, hmem⟩ :=
          List.mem_flatMap.mp ((hsingle.trans hcut.tensors.symm).mem_iff.mp hmem)
        exact hscale (halong shard hshard item.1 (List.mem_map_of_mem hitem) haccept hweight other
          hother (heq ▸ List.mem_map_of_mem hmem))
      rw [opts.yields_lone haccept hweight hscale, opts.yields_lone haccept hweight hnone]
  · unfold yields yieldTorchBin
    split
    · rfl
    · next haccept =>
      have hweight : scaleSuffix <:+ item.1 :=
        by_contra fun hweight => hyield ⟨by simpa using haccept, hweight⟩
      rw [if_pos hweight, if_pos hweight]

/-- The pairs are those of the checkpoint in one file. -/
theorem mem_stream (hcut : ckpt.Cut root) (halong : opts.ScalesAlong root) {single : ShardFile}
    (hsingle : single.tensors.Perm ckpt.tensors) {pair : TensorName × StoredTensor} :
    (∃ shard ∈ root, ∃ item ∈ shard.tensors, opts.yields shard.tensors item = .ok (some pair)) ↔
      ∃ item ∈ single.tensors, opts.yields single.tensors item = .ok (some pair) := by
  constructor
  · rintro ⟨shard, hshard, item, hitem, hyield⟩
    rw [opts.yields_eq hcut halong hshard hsingle hitem] at hyield
    exact ⟨item, hsingle.mem_iff.mpr (hcut.subset hshard hitem), hyield⟩
  · rintro ⟨item, hitem, hyield⟩
    obtain ⟨shard, hshard, hmem⟩ :=
      List.mem_flatMap.mp ((hsingle.trans hcut.tensors.symm).mem_iff.mp hitem)
    rw [← opts.yields_eq hcut halong hshard hsingle hmem] at hyield
    exact ⟨shard, hshard, item, hmem, hyield⟩

/-- A weight in one file with its scale is with it in the stream. -/
theorem pairedIn (ckpt : Checkpoint) {pairs : NamedTensors}
    (hmem : ∀ pair, pair ∈ pairs ↔
      ∃ item ∈ ckpt.tensors, opts.yields ckpt.tensors item = .ok (some pair))
    {key : TensorName} {weight scale : StoredTensor} (hweight : (key, weight) ∈ ckpt.tensors)
    (haccept : opts.accepts key) (hkey : ¬ scaleSuffix <:+ key)
    (hscale : (scaleKey key, scale) ∈ ckpt.tensors) : opts.PairedIn pairs key weight scale := by
  have hblocks := ckpt.scaled key weight scale hweight hkey hscale
  obtain ⟨out, hout, -, hresult⟩ := opts.paired_ok hblocks
  have hpair : (key, out) ∈ pairs :=
    (hmem _).mpr ⟨_, hweight, by
      rw [opts.yields_paired ckpt.distinct haccept hkey hscale, hout]
      rfl⟩
  unfold PairedIn
  split at hresult
  · next hdequant =>
    rw [if_pos hdequant]
    exact ⟨out, hpair, hresult⟩
  · next hdequant =>
    rw [if_neg hdequant, ← hresult]
    refine ⟨hpair, fun hscaleAccept => (hmem _).mpr ⟨_, hscale, ?_⟩⟩
    have hsuffix : scaleSuffix <:+ scaleKey key := List.suffix_append _ _
    simp only [yieldTorchBin, hscaleAccept, Bool.not_true, Bool.false_eq_true, if_false,
      if_pos hsuffix, hdequant]

theorem scalesAlong_of_cutFree (hcut : ckpt.Cut root) (h : opts.CutFree ckpt root) :
    opts.ScalesAlong root := by
  obtain ⟨pairs, hpairs, -, hsame, -⟩ := h
  intro shard hshard key hkey haccept hweight other hother hscale
  obtain ⟨pairs', hpairs', -, hmem⟩ := hcut.stream opts
  cases hpairs.symm.trans hpairs'
  obtain ⟨item, hitem, rfl⟩ := List.mem_map.mp hkey
  obtain ⟨scale, hscale⟩ : ∃ scale, (scaleKey item.1, scale) ∈ ckpt.tensors := by
    obtain ⟨entry, hentry, heq⟩ := List.mem_map.mp hscale
    exact ⟨entry.2, heq ▸ hcut.subset hother hentry⟩
  by_contra hnone
  -- The shard yields the weight as it is stored, and the checkpoint in one file does not.
  let whole : ShardFile := ⟨[], .safetensors, ckpt.tensors⟩
  have hwhole : whole.tensors.Perm ckpt.tensors := List.Perm.refl _
  obtain ⟨all, hall, -, hiff⟩ := hsame whole hwhole
  obtain ⟨all', hall', -, hmem'⟩ := (Checkpoint.Cut.single hwhole).stream opts
  cases hall.symm.trans hall'
  have hlone : item ∈ all :=
    (hiff item).mp ((hmem item).mpr
      ⟨shard, hshard, item, hitem, opts.yields_lone haccept hweight hnone⟩)
  obtain ⟨single, hsingle, stored, hstored, hyield⟩ := (hmem' item).mp hlone
  cases List.mem_singleton.mp hsingle
  have heq : stored = item := eq_of_key ckpt.distinct hstored (hcut.subset hshard hitem)
    (opts.yields_key hyield).symm
  subst heq
  obtain ⟨out, hout, hne, -⟩ :=
    opts.paired_ok (ckpt.scaled _ _ _ (hcut.subset hshard hitem) hweight hscale)
  rw [opts.yields_paired ckpt.distinct haccept hweight hscale, hout] at hyield
  have hsnd : out = stored.2 := congrArg Prod.snd (Option.some.inj (Except.ok.inj hyield))
  exact hne (congrArg StoredTensor.dtype hsnd)

theorem cutFree_of_scalesAlong (hcut : ckpt.Cut root) (halong : opts.ScalesAlong root) :
    opts.CutFree ckpt root := by
  obtain ⟨pairs, hpairs, hnodup, hmem⟩ := hcut.stream opts
  refine ⟨pairs, hpairs, hnodup, fun single hsingle => ?_, fun key weight scale hweight haccept
    hkey hscale => opts.pairedIn ckpt (fun pair => ?_) hweight haccept hkey hscale⟩
  · obtain ⟨all, hall, hallNodup, hallMem⟩ := (Checkpoint.Cut.single hsingle).stream opts
    refine ⟨all, hall, hallNodup, fun pair => ?_⟩
    rw [hmem, hallMem, opts.mem_stream hcut halong hsingle]
    simp only [List.exists_mem_cons_iff, List.not_mem_nil, false_and, exists_false, or_false]
  · rw [hmem]
    have hall : (⟨[], .safetensors, ckpt.tensors⟩ : ShardFile).tensors.Perm ckpt.tensors :=
      List.Perm.refl _
    exact opts.mem_stream hcut halong hall

/-- **The stream and the cut.** A cut changes nothing exactly if every weight the filter lets
through is in one shard with its scale. -/
theorem cutFree_iff (ckpt : Checkpoint) {root : List ShardFile} (hcut : ckpt.Cut root) :
    opts.CutFree ckpt root ↔ opts.ScalesAlong root :=
  ⟨opts.scalesAlong_of_cutFree hcut, opts.cutFree_of_scalesAlong hcut⟩

end StreamOptions

/-! ### A weight cut off from its scale -/

/-- The value of a pattern with that many bits of exponent and mantissa, infinities and NaN
apart. -/
def ieeeValue (exponentBits mantissaBits bits : Nat) : ℚ :=
  let exponent := bits / 2 ^ mantissaBits % 2 ^ exponentBits
  let mantissa := bits % 2 ^ mantissaBits
  let sign : ℚ := if bits < 2 ^ (exponentBits + mantissaBits) then 1 else -1
  let bias := 2 ^ (exponentBits - 1) - 1
  if exponent = 0 then sign * mantissa * 2 / 2 ^ (bias + mantissaBits)
  else sign * (2 ^ mantissaBits + mantissa) * 2 ^ exponent / 2 ^ (bias + mantissaBits)

/-- A number from its bytes, the lowest first. -/
def littleEndian (bytes : List UInt8) : Nat := bytes.foldr (fun byte n => byte.toNat + 256 * n) 0

/-- Arithmetic on the values the two formats share, written back where they are exact. -/
def exactFp32 : Fp32 ℚ where
  read dtype bytes :=
    match dtype with
    | .float8E4m3fn => (e4m3 (bytes.headD 0)).getD 0
    | .bfloat16 => ieeeValue 8 7 (littleEndian bytes)
    | .float32 => ieeeValue 8 23 (littleEndian bytes)
    | _ => littleEndian bytes
  mul := (· * ·)
  write _ value :=
    match (List.range (2 ^ 16)).find? (ieeeValue 8 7 · = value) with
    | some bits => [UInt8.ofNat bits, UInt8.ofNat (bits / 256)]
    | none => []

/-- A weight of one entry, `1.5`. -/
def oneWeight : TensorName × StoredTensor :=
  ("a.weight".toList, ⟨⟨[1, 1], fun _ => [0x3c]⟩, .float8E4m3fn⟩)

/-- Its scale, `2`. -/
def oneScale : TensorName × StoredTensor :=
  ("a.weight_scale_inv".toList, ⟨⟨[1, 1], fun _ => [0, 0, 0, 0x40]⟩, .float32⟩)

def oneNorm : TensorName × StoredTensor :=
  ("norm.weight".toList, ⟨⟨[1], fun _ => [0x80, 0x3f]⟩, .bfloat16⟩)

theorem smallTensors_distinct : ([oneWeight, oneScale, oneNorm].map Prod.fst).Nodup := by decide

theorem smallTensors_scaled (key : TensorName) (weight scale : StoredTensor)
    (hweight : (key, weight) ∈ [oneWeight, oneScale, oneNorm]) (hkey : ¬ scaleSuffix <:+ key)
    (hscale : (scaleKey key, scale) ∈ [oneWeight, oneScale, oneNorm]) :
    BlockScaled weight scale := by
  have hkeys : scaleKey oneWeight.1 ≠ oneWeight.1 ∧ scaleKey oneWeight.1 ≠ oneNorm.1 ∧
      ∀ stored ∈ [oneWeight, oneScale, oneNorm], scaleKey oneNorm.1 ≠ stored.1 := by decide
  simp only [List.mem_cons, List.not_mem_nil, or_false] at hweight
  rcases hweight with h | h | h <;> cases h
  · simp only [List.mem_cons, List.not_mem_nil, or_false] at hscale
    rcases hscale with h | h | h
    · exact absurd (congrArg Prod.fst h) hkeys.1
    · cases h
      exact ⟨rfl, 1, 1, 1, 1, rfl, rfl, by decide, by decide⟩
    · exact absurd (congrArg Prod.fst h) hkeys.2.1
  · exact absurd (by decide) hkey
  · exact absurd rfl (hkeys.2.2 _ hscale)

def smallCheckpoint : Checkpoint where
  tensors := [oneWeight, oneScale, oneNorm]
  distinct := smallTensors_distinct
  scaled := smallTensors_scaled

/-- Everything, widened to bfloat16. -/
def widenAll : StreamOptions ℚ where
  fp := exactFp32
  dequantizeFp8 := true
  dequantDtype := .bfloat16
  keyFilter := none
  widens := Nat.one_lt_two

namespace StreamOptions

theorem cutFree_together :
    widenAll.CutFree smallCheckpoint [⟨"2".toList, .torchBin, [oneNorm]⟩,
      ⟨"1".toList, .torchBin, [oneScale, oneWeight]⟩] := by
  have hperm : [oneNorm, oneScale, oneWeight].Perm [oneWeight, oneScale, oneNorm] :=
    List.reverse_perm [oneWeight, oneScale, oneNorm]
  have hcut : smallCheckpoint.Cut [⟨"2".toList, .torchBin, [oneNorm]⟩,
      ⟨"1".toList, .torchBin, [oneScale, oneWeight]⟩] :=
    ⟨List.cons_ne_nil _ _, ⟨.torchBin, by simp⟩, hperm⟩
  refine (widenAll.cutFree_iff smallCheckpoint hcut).mpr ?_
  unfold ScalesAlong
  decide

/-- A shard with the weight and one with its scale: the weight is yielded as it is stored. -/
theorem cutApart_stream :
    let root : List ShardFile := [⟨"1".toList, .safetensors, [oneWeight, oneNorm]⟩,
      ⟨"2".toList, .safetensors, [oneScale]⟩]
    smallCheckpoint.Cut root ∧
    widenAll.hfWeightsIterator root = some (.ok [oneWeight, oneNorm]) ∧
    ¬ widenAll.CutFree smallCheckpoint root := by
  intro root
  have hperm : [oneWeight, oneNorm, oneScale].Perm [oneWeight, oneScale, oneNorm] :=
    (List.Perm.swap _ _ _).cons _
  have hcut : smallCheckpoint.Cut root :=
    ⟨List.cons_ne_nil _ _, ⟨.safetensors, by simp [root]⟩, hperm⟩
  have hapart : ¬ widenAll.ScalesAlong root := by
    unfold ScalesAlong root
    decide
  exact ⟨hcut, rfl, fun h => hapart (widenAll.scalesAlong_of_cutFree hcut h)⟩

end StreamOptions

end RapidLlm
