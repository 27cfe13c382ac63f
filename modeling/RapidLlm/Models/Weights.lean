import Mathlib.Data.Char
import Mathlib.Data.List.Lex
import Mathlib.Data.List.Sort
import RapidLlm.Distributed.HeadSharding
import RapidLlm.Lib.Coverage
import RapidLlm.Lib.Tensor

/-!
# RapidLlm.Models.Weights

**Loading a checkpoint** (`models/weights.py` and the loaders of `modules/linear.py`). A stream of
keys and tensors is translated key by key to a parameter and a block of it; the parameter's loader
cuts the rank's share out of the tensor and copies it into the block. At the end every parameter
must have had as many elements written as it has.

The count is of elements and not of places. `load_covers_iff` says what makes it enough: no two
tensors of the stream go to one block. A block that arrives twice makes up for another of its size
that never comes.
-/

namespace RapidLlm

/-! ### Tensors -/

/-- A tensor of the checkpoint. -/
structure CkptTensor (A : Type) where
  shape : List Nat
  entry : List Nat → A

/-- `tuple(shape)` as Python prints it. -/
def shapeText : List Nat → String
  | [n] => s!"({n},)"
  | shape => "(" ++ ", ".intercalate (shape.map toString) ++ ")"

namespace CkptTensor

variable {A : Type}

/-- `t.narrow(dim, start, count)`, for a range inside the tensor. -/
def narrow (t : CkptTensor A) (dim start count : Nat) : CkptTensor A where
  shape := t.shape.set dim count
  entry := fun index => t.entry (index.modify dim (start + ·))

/-- The share of rank `index` of `shards` along a dimension. -/
def share (t : CkptTensor A) (dim shards index : Nat) : Except Raised (CkptTensor A) :=
  if 1 < shards then
    match t.shape[dim]? with
    | none => .error (.indexError "tuple index out of range")
    | some extent => .ok (t.narrow dim (index * (extent / shards)) (extent / shards))
  else .ok t

end CkptTensor

/-! ### Parameters -/

/-- `ShardId`, where it is not `None`. -/
inductive ShardId
  | block (index : Nat)
  | expert (index proj : Nat)
  deriving DecidableEq, Repr

/-- Which loader a parameter carries. -/
inductive WeightLoader
  | default
  | column
  | row
  | qkv (qSize kvSize : Nat)
  deriving DecidableEq, Repr

/-- A parameter of the model. -/
structure Parameter where
  loader : WeightLoader
  shape : List Nat
  deriving DecidableEq, Repr

/-- The rank a checkpoint is loaded on. -/
structure LoadRank where
  grid : TpGrid
  rank : Nat
  rank_lt : rank < grid.tpSize

/-- A copy into a parameter: the rows written and the tensor they are filled with. -/
structure Fill (A : Type) where
  span : Span
  source : CkptTensor A

namespace Parameter

variable {A : Type}

/-- The rows of a parameter, where a scalar has one. -/
def rows (param : Parameter) : Nat := param.shape.headD 1

/-- `param.narrow(0, start, count)`: the rows and the shape of the view. -/
def narrowRows (param : Parameter) (start count : Nat) : Except Raised (Span × List Nat) :=
  if param.rows < start + count then
    .error (.runtimeError
      s!"start ({start}) + length ({count}) exceeds dimension size ({param.rows}).")
  else .ok (⟨start, count⟩, param.shape.set 0 count)

/-- `LinearBase._weight_loader` on a view. -/
def copyInto (view : Span × List Nat) (loaded : CkptTensor A) : Except Raised (Fill A) :=
  if view.2 ≠ loaded.shape then
    .error (.valueError (s!"checkpoint tensor of shape {shapeText loaded.shape} does not fit " ++
      s!"parameter view of shape {shapeText view.2}"))
  else .ok ⟨view.1, loaded⟩

/-- `param.data` as a view. -/
def whole (param : Parameter) : Span × List Nat := (⟨0, param.rows⟩, param.shape)

/-- `default_weight_loader`. -/
def defaultWeightLoader (param : Parameter) (loaded : CkptTensor A) : Except Raised (Fill A) :=
  if param.shape ≠ loaded.shape then
    .error (.valueError (s!"checkpoint tensor of shape {shapeText loaded.shape} does not fit " ++
      s!"parameter of shape {shapeText param.shape}"))
  else .ok ⟨⟨0, param.rows⟩, loaded⟩

/-- The half of a gate/up pair a shard id selects. -/
def columnView (param : Parameter) : Option ShardId → Except Raised (Span × List Nat)
  | none => .ok param.whole
  | some (.block index) =>
    match param.shape with
    | [] => .error (.indexError "tuple index out of range")
    | rows :: _ => param.narrowRows (index * (rows / 2)) (rows / 2)
  | some (.expert ..) =>
    .error (.typeError "narrow(): argument 'start' (position 2) must be int, not tuple")

/-- `ColumnParallelLinear._weight_loader`. -/
def columnWeightLoader (param : Parameter) (env : LoadRank) (shardId : Option ShardId)
    (loaded : CkptTensor A) : Except Raised (Fill A) := do
  let view ← param.columnView shardId
  let loaded ← loaded.share 0 env.grid.tpSize env.rank
  copyInto view loaded

/-- `RowParallelLinear._weight_loader`. -/
def rowWeightLoader (param : Parameter) (env : LoadRank) (loaded : CkptTensor A) :
    Except Raised (Fill A) := do
  let loaded ← loaded.share 1 env.grid.tpSize env.rank
  copyInto param.whole loaded

/-- The offset and rows of block `index` of `[q | k | v]`. -/
def qkvBlock (qRows kvRows : Nat) : Nat → Option (Nat × Nat)
  | 0 => some (0, qRows)
  | 1 => some (qRows, kvRows)
  | 2 => some (qRows + kvRows, kvRows)
  | _ => none

/-- The block of a fused `[q | k | v]` a shard id selects. -/
def qkvView (param : Parameter) (qSize kvSize : Nat) :
    Option ShardId → Except Raised (Span × List Nat)
  | none => .error (.valueError "qkv_proj is packed: a checkpoint tensor must name its block")
  | some shardId =>
    match param.shape with
    | [] => .error (.indexError "tuple index out of range")
    | rows :: _ =>
      if rows = 0 ∨ (qSize + 2 * kvSize) / rows = 0 then
        .error (.zeroDivisionError "integer division or modulo by zero")
      else
        match shardId with
        | .expert .. =>
          .error (.typeError "tuple indices must be integers or slices, not tuple")
        | .block index =>
          match qkvBlock (qSize / ((qSize + 2 * kvSize) / rows))
              (kvSize / ((qSize + 2 * kvSize) / rows)) index with
          | none => .error (.indexError "tuple index out of range")
          | some (offset, count) => param.narrowRows offset count

/-- The ways a block of `[q | k | v]` splits, and the rank's place among them. -/
def qkvShards (env : LoadRank) (shardId : Option ShardId) : Nat × Nat :=
  if shardId = some (.block 0) then (env.grid.tpSize, env.rank)
  else (env.grid.kvShardCount, env.grid.kvShardIndex env.rank)

/-- `QKVParallelLinear._weight_loader`. -/
def qkvWeightLoader (param : Parameter) (qSize kvSize : Nat) (env : LoadRank)
    (shardId : Option ShardId) (loaded : CkptTensor A) : Except Raised (Fill A) := do
  let view ← param.qkvView qSize kvSize shardId
  let loaded ← loaded.share 0 (qkvShards env shardId).1 (qkvShards env shardId).2
  copyInto view loaded

/-- The loader of a parameter. -/
def weightLoader (param : Parameter) (env : LoadRank) (shardId : Option ShardId)
    (loaded : CkptTensor A) : Except Raised (Fill A) :=
  match param.loader with
  | .default => param.defaultWeightLoader loaded
  | .column => param.columnWeightLoader env shardId loaded
  | .row => param.rowWeightLoader env loaded
  | .qkv qSize kvSize => param.qkvWeightLoader qSize kvSize env shardId loaded

end Parameter

/-! ### Keys -/

/-- A parameter's dotted name or a checkpoint key. -/
abbrev TensorName := List Char

/-- `_FLATTENED`. -/
def flattened : List TensorName :=
  ["self_attn.q_norm".toList, "self_attn.k_norm".toList, "self_attn.kv_a_layernorm".toList,
    "self_attn.q_a_layernorm".toList, "input_layernorm".toList,
    "post_attention_layernorm".toList, "mlp.gate".toList]

/-- `_TOP_LEVEL`. -/
def topLevel : List (TensorName × TensorName) := [("norm.weight".toList, "norm_weight".toList)]

/-- `name[: -len(suffix)]` when the name ends in the suffix. The slice of an empty suffix is
empty. -/
def stripSuffix (suffix name : TensorName) : Option TensorName :=
  if suffix.isSuffixOf name then
    some (if suffix = [] then [] else name.take (name.length - suffix.length))
  else none

/-- The leaves of `_EXPERT_KEY` with the suffix of their stacked parameter. -/
def expertLeaves : List (TensorName × TensorName) :=
  [("weight".toList, []), ("weight_scale_inv".toList, "_scale_inv".toList)]

/-- The projections of `_EXPERT_KEY` with their ids. -/
def expertProjections : List (TensorName × Nat) :=
  [("gate".toList, 0), ("up".toList, 1), ("down".toList, 2)]

/-- `int` of ASCII digits. -/
def decimal (digits : List Char) : Nat :=
  digits.foldl (fun n c => 10 * n + (c.toNat - '0'.toNat)) 0

/-- A match of `_EXPERT_KEY`: the target it maps to. Its `$` also matches before a final line
break. -/
def expertTarget (key : TensorName) : Option (TensorName × Option ShardId) :=
  let key := if key.getLast? = some '\n' then key.dropLast else key
  expertLeaves.findSome? fun leaf =>
    expertProjections.findSome? fun proj =>
      (stripSuffix ('.' :: proj.1 ++ "_proj.".toList ++ leaf.1) key).bind fun head =>
        let digits := (head.reverse.takeWhile Char.isDigit).reverse
        (stripSuffix ('.' :: digits) head).bind fun stem =>
          if digits ≠ [] ∧ ".mlp.experts".toList.isSuffixOf stem ∧ '\n' ∉ stem then
            some (stem ++ (if proj.2 < 2 then ".gate_up_proj".toList else ".down_proj".toList) ++
              leaf.2, some (.expert (decimal digits) proj.2))
          else none

/-- `key.rpartition(".")` without the separator. -/
def rpartition (key : TensorName) : TensorName × TensorName :=
  if '.' ∈ key then
    let leaf := (key.reverse.takeWhile (· ≠ '.')).reverse
    (key.take (key.length - leaf.length - 1), leaf)
  else ([], key)

/-- `translate_text_key`, for a `packed_modules_mapping` in its order. -/
def translateTextKey (packed : List (TensorName × List TensorName)) (key : TensorName) :
    Option (TensorName × Option ShardId) :=
  match topLevel.lookup key with
  | some name => some (name, none)
  | none =>
    match expertTarget key with
    | some target => some target
    | none =>
      let (module, leaf) := rpartition key
      let fused := packed.findSome? fun entry =>
        entry.2.zipIdx.findSome? fun source =>
          (stripSuffix source.1 module).map fun stem =>
            (stem ++ entry.1 ++ '.' :: leaf, some (ShardId.block source.2))
      let folded := flattened.findSome? fun suffix =>
        if suffix.isSuffixOf module then some (module ++ '_' :: leaf, (none : Option ShardId))
        else none
      some (fused.getD (folded.getD (key, none)))

/-! ### The copy loop -/

/-- `dict(model.named_parameters())`. -/
abbrev ParameterDict := List (TensorName × Parameter)

/-- A translator: the target of a key, or none for a key the model ignores. -/
abbrev Translator := TensorName → Option (TensorName × Option ShardId)

/-- The state of the loop: elements written by parameter, and what the parameters hold. -/
structure Loading (A : Type) where
  filled : TensorName → Nat
  memory : TensorName → List Nat → A

/-- What `load_weights` leaves: the parameters' values and the ones rebound to another. -/
structure LoadedModel (A : Type) where
  memory : TensorName → List Nat → A
  aliases : List (TensorName × TensorName)

section Loop

variable {A : Type}

/-- An element's place in the tensor its view is filled with. -/
def Fill.entryAt (fill : Fill A) (index : List Nat) : A :=
  fill.source.entry (index.modify 0 (· - fill.span.start))

/-- Whether an element is in a view; a scalar counts as row 0. -/
def Fill.Covers (fill : Fill A) (index : List Nat) : Prop := fill.span.Has (index.headD 0)

instance (fill : Fill A) (index : List Nat) : Decidable (fill.Covers index) := by
  unfold Fill.Covers
  infer_instance

/-- `view.copy_(loaded)` -/
def Fill.write (fill : Fill A) (values : List Nat → A) (index : List Nat) : A :=
  if fill.Covers index then fill.entryAt index else values index

/-- `repr` of a key or a name. -/
def quoted (name : TensorName) : String := "'" ++ String.ofList name ++ "'"

/-- The parameter a checkpoint tensor goes to and what is copied into it. -/
def targetFill (env : LoadRank) (params : ParameterDict) (translate : Translator)
    (entry : TensorName × CkptTensor A) : Except Raised (Option (TensorName × Fill A)) :=
  match translate entry.1 with
  | none => .ok none
  | some (name, shardId) =>
    match params.lookup name with
    | none => .error (.valueError
        s!"checkpoint key {quoted entry.1} maps to unknown parameter {quoted name}")
    | some param =>
      match param.weightLoader env shardId entry.2 with
      | .ok fill => .ok (some (name, fill))
      | .error (.valueError message) => .error (.valueError
          s!"checkpoint key {quoted entry.1} -> {quoted name}: {message}")
      | .error raised => .error raised

/-- The effect of one tensor. -/
def Loading.put (st : Loading A) : Option (TensorName × Fill A) → Loading A
  | none => st
  | some (name, fill) =>
    { filled := Function.update st.filled name (st.filled name + fill.source.shape.prod)
      memory := Function.update st.memory name (fill.write (st.memory name)) }

/-- The loop over the stream. -/
def loadStream (env : LoadRank) (params : ParameterDict) (translate : Translator) :
    List (TensorName × CkptTensor A) → Loading A → Except Raised (Loading A)
  | [], st => .ok st
  | entry :: stream, st =>
    (targetFill env params translate entry).bind fun target =>
      loadStream env params translate stream (st.put target)

/-- The loop over `tied`: a target nothing wrote is bound to its source. -/
def tieParameters (params : ParameterDict) : List (TensorName × TensorName) →
    (TensorName → Nat) × List (TensorName × TensorName) →
      Except Raised ((TensorName → Nat) × List (TensorName × TensorName))
  | [], st => .ok st
  | (target, source) :: tied, st =>
    match params.lookup target with
    | none => tieParameters params tied st
    | some param =>
      if st.1 target = 0 then
        if (params.lookup source).isNone then .error (.keyError (quoted source))
        else tieParameters params tied
          (Function.update st.1 target param.shape.prod, st.2 ++ [(target, source)])
      else tieParameters params tied st

/-- `sorted` on names, by code point. -/
def sortedNames (names : List TensorName) : List TensorName :=
  names.insertionSort (· ≤ ·)

/-- The parameters nothing wrote. -/
def missingNames (params : ParameterDict) (filled : TensorName → Nat) : List TensorName :=
  sortedNames ((params.filter fun entry => filled entry.1 = 0).map Prod.fst)

/-- The parameters with another count than they have elements, as the error lists them. -/
def mismatchedNames (params : ParameterDict) (filled : TensorName → Nat) : List TensorName :=
  sortedNames ((params.filter fun entry => 0 < filled entry.1 ∧
      filled entry.1 ≠ entry.2.shape.prod).map fun entry =>
    entry.1 ++ s!" ({filled entry.1} of {entry.2.shape.prod} elements)".toList)

/-- One problem of the coverage error. -/
def coverageProblem (names : List TensorName) (what : String) : List String :=
  if names = [] then []
  else
    let shown := ", ".intercalate ((names.take 5).map String.ofList)
    [s!"{names.length} {what}, e.g. {shown}"]

/-- `_verify_coverage`. -/
def verifyCoverage (params : ParameterDict) (filled : TensorName → Nat) : Except Raised Unit :=
  if missingNames params filled = [] ∧ mismatchedNames params filled = [] then .ok ()
  else .error (.valueError ("checkpoint does not cover every parameter — " ++
    "; ".intercalate (coverageProblem (missingNames params filled) "never written" ++
      coverageProblem (mismatchedNames params filled) "partially written")))

/-- `load_weights`, on parameters that hold `memory`. -/
def loadWeights (env : LoadRank) (params : ParameterDict) (translate : Translator)
    (stream : List (TensorName × CkptTensor A)) (tied : List (TensorName × TensorName))
    (memory : TensorName → List Nat → A) : Except Raised (LoadedModel A) := do
  let st ← loadStream env params translate stream ⟨fun _ => 0, memory⟩
  let tiedState ← tieParameters params tied (st.filled, [])
  verifyCoverage params tiedState.1
  pure ⟨st.memory, tiedState.2⟩

end Loop

end RapidLlm
