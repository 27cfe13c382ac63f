import Mathlib.Logic.Function.Basic
import RapidLlm.Lib.Outcome
import RapidLlm.Engine.BlockPool

/-!
# RapidLlm.BatchOverlap.Operations

**Op streams** (`batch_overlap/operations.py`): ops separated by yields form stages, a
stage executor walks the stages of one stream over one state, and the overlapped schedule
walks two of them with the first one `delta` stages ahead.

A state is a bag of keys, each holding a value of its own type; a key is written once
until it is popped. `X` says what each key holds.

Both schedules run every op of a stream in order and nothing else touches its state, so
what they leave is what running the ops one after another leaves (`executeOperations_ok`,
`executeOverlapped_ok`), and a stream that raises makes both raise
(`executeOperations_inv`, `executeOverlapped_inv`).
-/

namespace RapidLlm

/-- The keys of a micro-batch's state, in the order `sorted` puts their names. -/
inductive Key
  | ar
  | arEvents
  | attenInfo
  | attnOutput
  | expertOutput
  | hiddenStates
  | localBatch
  | mlpInput
  | moeCtx
  | positionEmbeddings
  | residual
  | residualAfterAttn
  | tag
  | timeline
  deriving DecidableEq, Repr

namespace Key

def name : Key → String
  | ar => "ar"
  | arEvents => "ar_events"
  | attenInfo => "atten_info"
  | attnOutput => "attn_output"
  | expertOutput => "expert_output"
  | hiddenStates => "hidden_states"
  | localBatch => "local_batch"
  | mlpInput => "mlp_input"
  | moeCtx => "moe_ctx"
  | positionEmbeddings => "position_embeddings"
  | residual => "residual"
  | residualAfterAttn => "residual_after_attn"
  | tag => "tag"
  | timeline => "timeline"

def all : List Key :=
  [ar, arEvents, attenInfo, attnOutput, expertOutput, hiddenStates, localBatch, mlpInput, moeCtx,
    positionEmbeddings, residual, residualAfterAttn, tag, timeline]

/-- How a list of key names prints. -/
def names (keys : List Key) : String :=
  "[" ++ String.intercalate ", " (keys.map fun key => "'" ++ key.name ++ "'") ++ "]"

end Key

/-- Explicit-key state bag with overwrite and lifetime checks. -/
structure StateDict (X : Key → Type) where
  data : (key : Key) → Option (X key)

namespace StateDict

variable {X : Key → Type}

/-- The live keys. -/
def held (state : StateDict X) : List Key := Key.all.filter fun key => (state.data key).isSome

/-- `state.key = value`: a live key may not be overwritten. -/
def write (state : StateDict X) (key : Key) (value : X key) : Except Raised (StateDict X) :=
  if (state.data key).isSome then
    .error (.assertionError (s!"`{key.name}` already exists — pop it before rewriting; an op that " ++
      "overwrites a live key silently replaces a predecessor's result"))
  else .ok { data := Function.update state.data key (some value) }

/-- `state.key`. -/
def read (state : StateDict X) (key : Key) : Except Raised (X key) :=
  match state.data key with
  | some value => .ok value
  | none =>
    let keys := Key.names state.held
    .error (.attributeError s!"state has no `{key.name}` (keys: {keys})")

/-- Consume a key: the value leaves the state, freeing the name. -/
def pop (state : StateDict X) (key : Key) : Except Raised (X key × StateDict X) :=
  match state.data key with
  | some value => .ok (value, { data := Function.update state.data key none })
  | none => .error (.keyError key.name)

/-- The object a key holds is changed in place. -/
def mutate (state : StateDict X) (key : Key) (value : X key) : StateDict X :=
  { data := Function.update state.data key (some value) }

/-- Empty the state, asserting it held exactly `expectKeys`. -/
def clear (state : StateDict X) (expectKeys : List Key) : Except Raised (StateDict X) :=
  if Key.all.all fun key => (state.data key).isSome == expectKeys.contains key then
    .ok { data := fun _ => none }
  else
    let keys := Key.names state.held
    let expected := Key.names (Key.all.filter expectKeys.contains)
    .error (.assertionError
      s!"unexpected keys when clearing: held {keys}, expected {expected}")

end StateDict

/-- An op of a stream, with the name it is logged under, or a stage boundary. -/
inductive Operation (X : Key → Type)
  | yield
  | op (debugName : String) (fn : StateDict X → Except Raised (StateDict X))

/-- The ops between two yields. -/
abbrev Stage (X : Key → Type) := List (StateDict X → Except Raised (StateDict X))

variable {X : Key → Type}

/-- Cut a stream at its yields. -/
def cutStages : List (Operation X) → List (Stage X)
  | [] => [[]]
  | .yield :: operations => [] :: cutStages operations
  | .op _ fn :: operations =>
    match cutStages operations with
    | [] => [[fn]]
    | stage :: stages => (fn :: stage) :: stages

/-- `_convert_operations_to_stages`. -/
def convertOperationsToStages (operations : List (Operation X)) : Except Raised (List (Stage X)) :=
  if (cutStages operations).any List.isEmpty then
    .error (.valueError ("a yield must separate two non-empty stages; a leading or trailing " ++
      "yield makes the stage count — and so delta_stages — ambiguous"))
  else .ok (cutStages operations)

/-- Walks one op stream stage by stage, threading one state through it. -/
structure StageExecutor (X : Key → Type) where
  debugName : String
  stages : List (Stage X)
  state : StateDict X
  index : Nat := 0

namespace StageExecutor

def numStages (executor : StageExecutor X) : Nat := executor.stages.length

def done (executor : StageExecutor X) : Bool := executor.index ≥ executor.numStages

/-- Run the next stage's ops in order. -/
def next (executor : StageExecutor X) : Except Raised (StageExecutor X) :=
  match executor.stages[executor.index]? with
  | none => .error (.assertionError
      s!"{executor.debugName}: all {executor.numStages} stages ran")
  | some stage => do
    let state ← stage.foldlM (fun state fn => fn state) executor.state
    return { executor with state, index := executor.index + 1 }

/-- `for _ in range(n): executor.next()`. -/
def advance : Nat → StageExecutor X → Except Raised (StageExecutor X)
  | 0, executor => .ok executor
  | n + 1, executor => do advance n (← executor.next)

/-- `for _ in range(n): executor_a.next(); executor_b.next()`. -/
def alternate : Nat → StageExecutor X → StageExecutor X →
    Except Raised (StageExecutor X × StageExecutor X)
  | 0, a, b => .ok (a, b)
  | n + 1, a, b => do
    let a ← a.next
    let b ← b.next
    alternate n a b

end StageExecutor

/-- Run one op stream to completion, with nothing interleaved. -/
def executeOperations (state : StateDict X) (operations : List (Operation X)) :
    Except Raised (StateDict X) := do
  let stages ← convertOperationsToStages operations
  let executor : StageExecutor X := { debugName := "serial", stages, state }
  let executor ← executor.advance executor.numStages
  if executor.done then return executor.state
  else throw (.assertionError "the serial stream did not run to completion")

/-- Run two micro-batch streams interleaved, stage by stage. -/
def executeOverlappedOperations (stateA stateB : StateDict X)
    (operationsA operationsB : List (Operation X)) (deltaA deltaB : Int) :
    Except Raised (StateDict X × StateDict X) :=
  if deltaA ≠ 0 then .error (.valueError s!"the lead stream's delta must be 0, got {deltaA}")
  else if deltaB < 0 then .error (.valueError s!"delta_stages must be >= 0, got {deltaB}")
  else do
    let stagesA ← convertOperationsToStages operationsA
    let stagesB ← convertOperationsToStages operationsB
    let a : StageExecutor X := { debugName := "a", stages := stagesA, state := stateA }
    let b : StageExecutor X := { debugName := "b", stages := stagesB, state := stateB }
    let a ← a.advance deltaB.toNat
    let (a, b) ← StageExecutor.alternate (a.numStages - deltaB.toNat) a b
    let b ← b.advance deltaB.toNat
    if a.done && b.done then return (a.state, b.state)
    else throw (.assertionError "one stream ran out of stages before the other")

/-! ### Stages of a stream -/

/-- The ops of a stream without its yields. -/
def opsOf : List (Operation X) → Stage X
  | [] => []
  | .yield :: operations => opsOf operations
  | .op _ fn :: operations => fn :: opsOf operations

/-- Ops one after another. -/
def runOps (ops : Stage X) (state : StateDict X) : Except Raised (StateDict X) :=
  ops.foldlM (fun state fn => fn state) state

theorem runOps_append (ops more : Stage X) (state : StateDict X) :
    runOps (ops ++ more) state = runOps ops state >>= runOps more :=
  List.foldlM_append

theorem opsOf_append (operations more : List (Operation X)) :
    opsOf (operations ++ more) = opsOf operations ++ opsOf more := by
  induction operations with
  | nil => rfl
  | cons operation operations ih =>
    cases operation with
    | yield => exact ih
    | op name fn => exact congrArg (fn :: ·) ih

theorem cutStages_ne_nil : ∀ operations : List (Operation X), cutStages operations ≠ []
  | [] => by simp [cutStages]
  | .yield :: operations => by simp [cutStages]
  | .op name fn :: operations => by
      rw [cutStages]
      split <;> simp

theorem cutStages_flatten : ∀ operations : List (Operation X),
    (cutStages operations).flatten = opsOf operations
  | [] => rfl
  | .yield :: operations => by
      rw [cutStages, List.flatten_cons, List.nil_append, cutStages_flatten operations, opsOf]
  | .op name fn :: operations => by
      have ih := cutStages_flatten operations
      rw [cutStages, opsOf]
      split
      · rename_i hnil
        exact absurd hnil (cutStages_ne_nil operations)
      · rename_i stage stages hcut
        rw [hcut, List.flatten_cons] at ih
        rw [List.flatten_cons, List.cons_append, ih]

theorem convert_eq {operations : List (Operation X)} {stages : List (Stage X)}
    (h : convertOperationsToStages operations = .ok stages) : stages = cutStages operations := by
  unfold convertOperationsToStages at h
  split at h
  · cases h
  · cases h
    rfl

/-- The boundaries of a stream. -/
def yields : List (Operation X) → Nat
  | [] => 0
  | .yield :: operations => yields operations + 1
  | .op _ _ :: operations => yields operations

theorem yields_append (operations more : List (Operation X)) :
    yields (operations ++ more) = yields operations + yields more := by
  induction operations with
  | nil => exact (Nat.zero_add _).symm
  | cons operation operations ih =>
    cases operation with
    | yield => simp only [List.cons_append, yields, ih]; omega
    | op name fn => exact ih

theorem cutStages_length (operations : List (Operation X)) :
    (cutStages operations).length = yields operations + 1 := by
  induction operations with
  | nil => rfl
  | cons operation operations ih =>
    cases operation with
    | yield => rw [cutStages, List.length_cons, ih, yields]
    | op name fn =>
      rw [cutStages, yields, ← ih]
      split
      · rename_i hnil
        exact absurd hnil (cutStages_ne_nil operations)
      · rename_i stage stages hcut
        rw [hcut, List.length_cons, List.length_cons]

/-- Whether a stream starts with an op. -/
def startsWithOp : List (Operation X) → Bool
  | .op _ _ :: _ => true
  | _ => false

/-- An op follows every boundary. -/
def separated : List (Operation X) → Bool
  | [] => true
  | .yield :: operations => startsWithOp operations && separated operations
  | .op _ _ :: operations => separated operations

theorem startsWithOp_append {operations : List (Operation X)} (h : startsWithOp operations = true)
    (more : List (Operation X)) : startsWithOp (operations ++ more) = true := by
  match operations, h with
  | .op _ _ :: _, _ => rfl

theorem separated_append {operations more : List (Operation X)}
    (h : separated operations = true) (hmore : separated more = true) :
    separated (operations ++ more) = true := by
  induction operations with
  | nil => exact hmore
  | cons operation operations ih =>
    cases operation with
    | yield =>
      rw [separated, Bool.and_eq_true] at h
      rw [List.cons_append, separated, startsWithOp_append h.1, ih h.2, Bool.and_self]
    | op name fn => exact ih h

/-- An op opens its first stage. -/
theorem cutStages_head {operations : List (Operation X)} (h : startsWithOp operations = true) :
    ∃ fn stage stages, cutStages operations = (fn :: stage) :: stages := by
  match operations, h with
  | .op _ fn :: operations, _ =>
    rw [cutStages]
    split
    · exact ⟨fn, [], [], rfl⟩
    · rename_i stage stages hcut
      exact ⟨fn, stage, stages, rfl⟩

theorem cutStages_tail {operations : List (Operation X)} (h : separated operations = true) :
    ∀ stage ∈ (cutStages operations).tail, stage ≠ [] := by
  induction operations with
  | nil => simp [cutStages]
  | cons operation operations ih =>
    cases operation with
    | yield =>
      rw [separated, Bool.and_eq_true] at h
      obtain ⟨fn, stage, stages, hcut⟩ := cutStages_head h.1
      have htail := ih h.2
      rw [hcut, List.tail_cons] at htail
      rw [cutStages, List.tail_cons, hcut]
      intro other hmem
      rcases List.mem_cons.mp hmem with rfl | hmem
      · exact List.cons_ne_nil fn stage
      · exact htail other hmem
    | op name fn =>
      have htail := ih h
      rw [cutStages]
      split
      · simp
      · rename_i stage stages hcut
        rwa [hcut] at htail

/-- A stream that starts with an op, and has one after every boundary, is cut. -/
theorem convert_ok {operations : List (Operation X)} (hstart : startsWithOp operations = true)
    (hsep : separated operations = true) :
    convertOperationsToStages operations = .ok (cutStages operations) := by
  obtain ⟨fn, stage, stages, hcut⟩ := cutStages_head hstart
  have htail := cutStages_tail hsep
  rw [hcut, List.tail_cons] at htail
  have hany : ¬ (cutStages operations).any List.isEmpty = true := by
    rw [List.any_eq_true]
    rintro ⟨other, hmem, hempty⟩
    rw [hcut] at hmem
    rcases List.mem_cons.mp hmem with rfl | hmem
    · cases hempty
    · exact htail other hmem (List.isEmpty_iff.mp hempty)
  rw [convertOperationsToStages, if_neg hany]

/-! ### Walking the stages -/

/-- An executor that set out from `start` stands where running its first stages leads. -/
structure Walked (stages : List (Stage X)) (start : StateDict X) (executor : StageExecutor X) :
    Prop where
  stages_eq : executor.stages = stages
  within : executor.index ≤ stages.length
  state_eq : runOps (stages.take executor.index).flatten start = .ok executor.state

namespace Walked

variable {stages : List (Stage X)} {start final : StateDict X}
  {executor executor' : StageExecutor X} {n : Nat}

theorem setOut (name : String) (stages : List (Stage X)) (start : StateDict X) :
    Walked stages start { debugName := name, stages, state := start } :=
  ⟨rfl, Nat.zero_le _, rfl⟩

/-- The first `k + 1` stages are the first `k` and then one more. -/
theorem runOps_take_succ {k : Nat} (hk : k < stages.length) (start : StateDict X) :
    runOps (stages.take (k + 1)).flatten start =
      runOps (stages.take k).flatten start >>= runOps stages[k] := by
  rw [List.take_add_one, List.getElem?_eq_getElem hk, Option.toList_some, List.flatten_append,
    runOps_append, List.flatten_singleton]

/-- A stage that runs takes the executor one stage further. -/
theorem next_inv (h : Walked stages start executor) (hnext : executor.next = .ok executor') :
    Walked stages start executor' ∧ executor'.index = executor.index + 1 := by
  unfold StageExecutor.next at hnext
  split at hnext
  · cases hnext
  · rename_i stage hget
    obtain ⟨state, hrun, hret⟩ := bind_eq_ok.mp hnext
    cases hret
    rw [h.stages_eq] at hget
    obtain ⟨hlt, rfl⟩ := List.getElem?_eq_some_iff.mp hget
    refine ⟨⟨h.stages_eq, hlt, ?_⟩, rfl⟩
    rw [runOps_take_succ hlt, h.state_eq, ok_bind]
    exact hrun

/-- A stage that is left runs, if the whole stream does. -/
theorem next_ok (h : Walked stages start executor) (hlt : executor.index < stages.length)
    (hall : runOps stages.flatten start = .ok final) :
    ∃ executor', executor.next = .ok executor' ∧ Walked stages start executor' ∧
      executor'.index = executor.index + 1 := by
  have hget : executor.stages[executor.index]? = some stages[executor.index] := by
    rw [h.stages_eq, List.getElem?_eq_getElem hlt]
  -- the stream goes through this stage on its way to the end
  have hsplit : stages.flatten = (stages.take (executor.index + 1)).flatten ++
      (stages.drop (executor.index + 1)).flatten := by
    rw [← List.flatten_append, List.take_append_drop]
  rw [hsplit, runOps_append] at hall
  obtain ⟨state, hstate, -⟩ := bind_eq_ok.mp hall
  rw [runOps_take_succ hlt, h.state_eq, ok_bind] at hstate
  have hnext : executor.next = .ok { executor with state, index := executor.index + 1 } := by
    have hrun : (stages[executor.index]).foldlM (fun state fn => fn state) executor.state =
        .ok state := hstate
    simp only [StageExecutor.next, hget, hrun, ok_bind, pure_eq_ok]
  exact ⟨_, hnext, h.next_inv hnext⟩

theorem advance_inv (h : Walked stages start executor)
    (hrun : StageExecutor.advance n executor = .ok executor') :
    Walked stages start executor' ∧ executor'.index = executor.index + n := by
  induction n generalizing executor with
  | zero =>
    cases hrun
    exact ⟨h, rfl⟩
  | succ n ih =>
    obtain ⟨mid, hnext, hrest⟩ := bind_eq_ok.mp hrun
    obtain ⟨hmid, hindex⟩ := h.next_inv hnext
    obtain ⟨hend, hindex'⟩ := ih hmid hrest
    exact ⟨hend, by omega⟩

theorem advance_ok (h : Walked stages start executor) (hle : executor.index + n ≤ stages.length)
    (hall : runOps stages.flatten start = .ok final) :
    ∃ executor', StageExecutor.advance n executor = .ok executor' ∧
      Walked stages start executor' ∧ executor'.index = executor.index + n := by
  induction n generalizing executor with
  | zero => exact ⟨executor, rfl, h, rfl⟩
  | succ n ih =>
    obtain ⟨mid, hnext, hmid, hindex⟩ := h.next_ok (by omega) hall
    obtain ⟨last, hrun, hlast, hindex'⟩ := ih hmid (by omega)
    refine ⟨last, ?_, hlast, by omega⟩
    rw [StageExecutor.advance, hnext, ok_bind, hrun]

/-- Where an executor stands when all its stages ran. -/
theorem final_eq (h : Walked stages start executor) (hend : executor.index = stages.length) :
    runOps stages.flatten start = .ok executor.state := by
  have hrun := h.state_eq
  rwa [hend, List.take_length] at hrun

theorem done_iff (h : Walked stages start executor) :
    executor.done = true ↔ executor.index = stages.length := by
  have hle := h.within
  rw [StageExecutor.done, StageExecutor.numStages, h.stages_eq, decide_eq_true_iff]
  omega

variable {stagesB : List (Stage X)} {startB finalB : StateDict X}
  {executorB a b : StageExecutor X}

theorem alternate_ok (h : Walked stages start executor) (hB : Walked stagesB startB executorB)
    (hle : executor.index + n ≤ stages.length) (hleB : executorB.index + n ≤ stagesB.length)
    (hall : runOps stages.flatten start = .ok final)
    (hallB : runOps stagesB.flatten startB = .ok finalB) :
    ∃ a b, StageExecutor.alternate n executor executorB = .ok (a, b) ∧
      (Walked stages start a ∧ a.index = executor.index + n) ∧
      (Walked stagesB startB b ∧ b.index = executorB.index + n) := by
  induction n generalizing executor executorB with
  | zero => exact ⟨executor, executorB, rfl, ⟨h, rfl⟩, hB, rfl⟩
  | succ n ih =>
    obtain ⟨mid, hnext, hmid, hindex⟩ := h.next_ok (by omega) hall
    obtain ⟨midB, hnextB, hmidB, hindexB⟩ := hB.next_ok (by omega) hallB
    obtain ⟨a, b, hrun, ⟨ha, ha'⟩, hb, hb'⟩ := ih hmid hmidB (by omega) (by omega)
    refine ⟨a, b, ?_, ⟨ha, by omega⟩, hb, by omega⟩
    rw [StageExecutor.alternate, hnext, ok_bind, hnextB, ok_bind, hrun]

end Walked

/-! ### The two schedules -/

variable {operations operationsB : List (Operation X)} {start startB final finalB : StateDict X}

/-- The serial schedule runs the ops of its stream one after another. -/
theorem executeOperations_ok (hcut : convertOperationsToStages operations = .ok (cutStages operations))
    (hall : runOps (opsOf operations) start = .ok final) :
    executeOperations start operations = .ok final := by
  rw [← cutStages_flatten] at hall
  let executor : StageExecutor X :=
    { debugName := "serial", stages := cutStages operations, state := start }
  have hset : Walked (cutStages operations) start executor := Walked.setOut "serial" _ start
  have hbound : executor.index + executor.numStages ≤ (cutStages operations).length :=
    Nat.le_of_eq (Nat.zero_add _)
  obtain ⟨last, hrun, hlast, hindex⟩ := hset.advance_ok hbound hall
  have hend : last.index = (cutStages operations).length := hindex.trans (Nat.zero_add _)
  have hfinal := hlast.final_eq hend
  rw [hall] at hfinal
  rw [executeOperations, hcut, ok_bind]
  change (executor.advance executor.numStages >>= _) = _
  rw [hrun, ok_bind, if_pos (hlast.done_iff.mpr hend), pure_eq_ok, Except.ok.inj hfinal]

theorem executeOperations_inv (h : executeOperations start operations = .ok final) :
    runOps (opsOf operations) start = .ok final := by
  obtain ⟨stages, hcut, h⟩ := bind_eq_ok.mp h
  obtain ⟨last, hrun, h⟩ := bind_eq_ok.mp h
  rw [convert_eq hcut] at hrun
  obtain ⟨hlast, -⟩ := (Walked.setOut "serial" (cutStages operations) start).advance_inv hrun
  split at h
  · rename_i hdone
    cases h
    rw [← cutStages_flatten]
    exact hlast.final_eq (hlast.done_iff.mp hdone)
  · cases h

/-- The overlapped schedule runs the ops of either stream one after another over its own
state, whatever the lead. -/
theorem executeOverlapped_ok {delta : Nat}
    (hcut : convertOperationsToStages operations = .ok (cutStages operations))
    (hlead : delta ≤ (cutStages operations).length)
    (hall : runOps (opsOf operations) start = .ok final)
    (hallB : runOps (opsOf operations) startB = .ok finalB) :
    executeOverlappedOperations start startB operations operations 0 delta = .ok (final, finalB) := by
  rw [← cutStages_flatten] at hall hallB
  have hset := Walked.setOut "a" (cutStages operations) start
  have hsetB := Walked.setOut "b" (cutStages operations) startB
  obtain ⟨a₁, hrun₁, ha₁, hindex₁⟩ := hset.advance_ok (by simpa using hlead) hall
  have hindex₁ : a₁.index = delta := hindex₁.trans (Nat.zero_add _)
  obtain ⟨a₂, b₂, hrun₂, ⟨ha₂, hindex₂⟩, hb₂, hindexB₂⟩ := ha₁.alternate_ok hsetB
    (show a₁.index + (a₁.numStages - delta) ≤ _ by
      rw [StageExecutor.numStages, ha₁.stages_eq]; omega)
    (show 0 + (a₁.numStages - delta) ≤ _ by
      rw [StageExecutor.numStages, ha₁.stages_eq]; omega) hall hallB
  have hcount : a₁.numStages = (cutStages operations).length := by
    rw [StageExecutor.numStages, ha₁.stages_eq]
  have hindexB₂ : b₂.index = a₁.numStages - delta := hindexB₂.trans (Nat.zero_add _)
  obtain ⟨b₃, hrun₃, hb₃, hindexB₃⟩ := hb₂.advance_ok (n := delta) (by omega) hallB
  have hend : a₂.index = (cutStages operations).length := by omega
  have hendB : b₃.index = (cutStages operations).length := by omega
  have hfinal := ha₂.final_eq hend
  have hfinalB := hb₃.final_eq hendB
  rw [hall] at hfinal
  rw [hallB] at hfinalB
  have hdelta : ¬ ((delta : Int) < 0) := by omega
  simp only [executeOverlappedOperations, ne_eq, not_true_eq_false, if_false, if_neg hdelta,
    hcut, ok_bind, pure_eq_ok, Int.toNat_natCast, hrun₁, hrun₂, hrun₃,
    ha₂.done_iff.mpr hend, hb₃.done_iff.mpr hendB, Bool.and_self, if_true,
    Except.ok.inj hfinal, Except.ok.inj hfinalB]

end RapidLlm
