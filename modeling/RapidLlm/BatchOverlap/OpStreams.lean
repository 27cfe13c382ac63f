import RapidLlm.Lib.Interleave
import RapidLlm.BatchOverlap.Operations

/-!
# RapidLlm.BatchOverlap.OpStreams

**The overlapped schedule, op by op** (`batch_overlap/operations.py`).

The executor of a stream logs each op it starts, under the number of its stage and its place
in it, so that the order of the ops of two streams is part of what the schedule does. A
stream may keep its state in any type; `NamedState` is the state bag of the source, with keys
that are strings.

The three loops of the overlapped schedule are one schedule of two independent processes
(`overlapped_eq`), and `overlapped_serial` reads off from it what the schedule runs, in which
order, and what it leaves. The executor of `RapidLlm.BatchOverlap.Operations` is this one
without its log (`overlapped_outcome`).
-/

namespace RapidLlm.OpStreams

open Interleave

/-- The state bag: a `dict` of attributes, in the order they were written. -/
structure NamedState (V : Type) where
  data : List (String × V)
  deriving DecidableEq, Repr

namespace NamedState

variable {V : Type} (state : NamedState V)

def keys : List String := state.data.map Prod.fst

/-- How `sorted(keys)` prints. -/
def printed (keys : List String) : String :=
  let sorted := keys.mergeSort fun a b => decide (a ≤ b)
  "[" ++ String.intercalate ", " (sorted.map fun key => "'" ++ key ++ "'") ++ "]"

/-- `__setattr__`: a live key may not be overwritten. -/
def write (key : String) (value : V) : Except Raised (NamedState V) :=
  if key ∈ state.keys then
    .error (.assertionError (s!"`{key}` already exists — pop it before rewriting; an op that " ++
      "overwrites a live key silently replaces a predecessor's result"))
  else .ok ⟨state.data ++ [(key, value)]⟩

/-- `__getattr__`. -/
def read (key : String) : Except Raised V :=
  match state.data.lookup key with
  | some value => .ok value
  | none =>
    let keys := printed state.keys
    .error (.attributeError s!"state has no `{key}` (keys: {keys})")

/-- Consume a key: the value leaves the state, freeing the name. -/
def pop (key : String) : Except Raised (V × NamedState V) :=
  match state.data.lookup key with
  | some value => .ok (value, ⟨state.data.filter fun entry => entry.1 ≠ key⟩)
  | none => .error (.keyError key)

end NamedState

/-- An op of a stream, with the name it is logged under, or a stage boundary. -/
inductive StreamOp (σ : Type)
  | yield
  | op (debugName : String) (fn : σ → Except Raised σ)

/-- The ops between two yields. -/
abbrev Stage (σ : Type) := List (σ → Except Raised σ)

variable {σ : Type}

/-- One round of the loop that cuts a stream at its yields. -/
def cut (stages : List (Stage σ)) : StreamOp σ → List (Stage σ)
  | .yield => stages ++ [[]]
  | .op _ fn => stages.dropLast ++ [stages.getLastD [] ++ [fn]]

/-- `_convert_operations_to_stages`. -/
def convertOperationsToStages (operations : List (StreamOp σ)) : Except Raised (List (Stage σ)) :=
  let stages := operations.foldl cut [[]]
  if stages.any List.isEmpty then
    .error (.valueError ("a yield must separate two non-empty stages; a leading or trailing " ++
      "yield makes the stage count — and so delta_stages — ambiguous"))
  else .ok stages

/-- An op is started: the one at place `op` of a stage. -/
structure OpRun where
  stage : Nat
  op : Nat
  deriving DecidableEq, Repr

/-- `for op in stage: op.fn(state)`, from place `op` on. -/
def runStage (stage : Nat) : Nat → Stage σ → σ → Logged OpRun Raised σ
  | _, [], state => pure state
  | op, fn :: ops, state => ⟨[⟨stage, op⟩], fn state⟩ >>= runStage stage (op + 1) ops

/-- Walks one op stream stage by stage, threading one state through it. -/
structure StageExecutor (σ : Type) where
  debugName : String
  stages : List (Stage σ)
  state : σ
  index : Nat := 0

namespace StageExecutor

variable (executor : StageExecutor σ)

def numStages : Nat := executor.stages.length

def done : Bool := executor.index ≥ executor.numStages

/-- Run the next stage's ops in order. -/
def next : Logged OpRun Raised (StageExecutor σ) :=
  match executor.stages[executor.index]? with
  | none => .raise (.assertionError s!"{executor.debugName}: all {executor.numStages} stages ran")
  | some stage => do
    let state ← runStage executor.index 0 stage executor.state
    return { executor with state, index := executor.index + 1 }

end StageExecutor

/-- Run one op stream to completion, with nothing interleaved. -/
def executeOperations (state : σ) (operations : List (StreamOp σ)) : Logged OpRun Raised σ := do
  let stages ← Logged.lift (convertOperationsToStages operations)
  let executor : StageExecutor σ := { debugName := "serial", stages, state }
  let executor ← steps StageExecutor.next executor.numStages executor
  if executor.done then return executor.state
  else .raise (.assertionError "the serial stream did not run to completion")

/-- The two streams of the overlapped schedule. -/
inductive Lane
  | a
  | b
  deriving DecidableEq, Repr

/-- `for _ in range(n): executor_a.next(); executor_b.next()`. -/
def alternate : Nat → StageExecutor σ → StageExecutor σ →
    Logged (Lane × OpRun) Raised (StageExecutor σ × StageExecutor σ)
  | 0, a, b => pure (a, b)
  | n + 1, a, b => do
    let a ← a.next.tag Lane.a
    let b ← b.next.tag Lane.b
    alternate n a b

/-- Run two micro-batch streams interleaved, stage by stage. -/
def executeOverlappedOperations (stateA stateB : σ) (operationsA operationsB : List (StreamOp σ))
    (deltaA deltaB : Int) : Logged (Lane × OpRun) Raised (σ × σ) :=
  if deltaA ≠ 0 then
    .raise (.valueError s!"the lead stream's delta must be 0, got {deltaA}")
  else if deltaB < 0 then
    .raise (.valueError s!"delta_stages must be >= 0, got {deltaB}")
  else do
    let stagesA ← Logged.lift (convertOperationsToStages operationsA)
    let stagesB ← Logged.lift (convertOperationsToStages operationsB)
    let a : StageExecutor σ := { debugName := "a", stages := stagesA, state := stateA }
    let b : StageExecutor σ := { debugName := "b", stages := stagesB, state := stateB }
    let a ← (steps StageExecutor.next deltaB.toNat a).tag Lane.a
    let (a, b) ← alternate (a.numStages - deltaB.toNat) a b
    let b ← (steps StageExecutor.next deltaB.toNat b).tag Lane.b
    if a.done && b.done then return (a.state, b.state)
    else .raise (.assertionError "one stream ran out of stages before the other")

/-! ### Cutting a stream -/

/-- The ops of a stream without its yields. -/
def opsOf : List (StreamOp σ) → Stage σ
  | [] => []
  | .yield :: operations => opsOf operations
  | .op _ fn :: operations => fn :: opsOf operations

theorem cut_flatten {stages : List (Stage σ)} (h : stages ≠ []) (operation : StreamOp σ) :
    (cut stages operation).flatten = stages.flatten ++ opsOf [operation] ∧
      cut stages operation ≠ [] := by
  cases operation with
  | yield => exact ⟨by simp [cut, opsOf], by simp [cut]⟩
  | op name fn =>
    refine ⟨?_, by simp [cut]⟩
    have hsplit : stages.dropLast ++ [stages.getLastD []] = stages := by
      rw [List.getLastD_eq_getLast?, List.getLast?_eq_getLast_of_ne_nil h, Option.getD_some,
        List.dropLast_append_getLast]
    calc (cut stages (.op name fn)).flatten
        = (stages.dropLast ++ [stages.getLastD []]).flatten ++ [fn] := by simp [cut]
      _ = stages.flatten ++ [fn] := by rw [hsplit]

/-- The stages hold the ops of the stream, in its order. -/
theorem convert_flatten {operations : List (StreamOp σ)} {stages : List (Stage σ)}
    (h : convertOperationsToStages operations = .ok stages) : stages.flatten = opsOf operations := by
  have hfold (operations : List (StreamOp σ)) : ∀ stages : List (Stage σ), stages ≠ [] →
      (operations.foldl cut stages).flatten = stages.flatten ++ opsOf operations := by
    induction operations with
    | nil => simp [opsOf]
    | cons operation operations ih =>
      intro stages hne
      obtain ⟨hflatten, hne'⟩ := cut_flatten hne operation
      rw [List.foldl_cons, ih _ hne', hflatten, List.append_assoc]
      cases operation <;> rfl
  unfold convertOperationsToStages at h
  simp only at h
  split at h
  · cases h
  · cases h
    exact hfold operations [[]] (by simp)

/-! ### What a stage logs -/

variable {executor executor' : StageExecutor σ}

/-- The ops of a stage, in order. -/
def stageRuns (stages : List (Stage σ)) (k : Nat) : List OpRun :=
  (List.range (stages.getD k []).length).map fun op => ⟨k, op⟩

theorem runStage_log (stage : Nat) (ops : Stage σ) : ∀ (op : Nat) (state : σ),
    (runStage stage op ops state).log <+:
        (List.range' op ops.length).map (fun op => (⟨stage, op⟩ : OpRun)) ∧
      ∀ state', (runStage stage op ops state).outcome = .ok state' →
        (runStage stage op ops state).log =
          (List.range' op ops.length).map fun op => ⟨stage, op⟩ := by
  induction ops with
  | nil => exact fun op state => ⟨List.prefix_rfl, fun _ _ => rfl⟩
  | cons fn ops ih =>
    intro op state
    rw [runStage, List.length_cons, List.range'_succ, List.map_cons]
    cases hfn : fn state with
    | error raised =>
      rw [Logged.bind_of_error rfl]
      exact ⟨List.prefix_append _ _, fun _ h => by cases h⟩
    | ok state' =>
      obtain ⟨hpre, hok⟩ := ih (op + 1) state'
      rw [Logged.bind_of_ok rfl]
      exact ⟨(List.prefix_append_right_inj _).mpr hpre,
        fun final h => congrArg _ (hok final h)⟩

namespace StageExecutor

/-- A stage that ran. -/
theorem next_ok (h : executor.next.outcome = .ok executor') :
    executor.index < executor.numStages ∧ executor'.stages = executor.stages ∧
      executor'.index = executor.index + 1 := by
  unfold next at h
  split at h
  · cases h
  · rename_i stage hstage
    obtain ⟨state, -, hret⟩ := Logged.bind_outcome_ok.mp h
    cases hret
    exact ⟨(List.getElem?_eq_some_iff.mp hstage).1, rfl, rfl⟩

/-- A stage starts its ops in order, all of them if it ends well. -/
theorem next_log {stages : List (Stage σ)} {k : Nat} (hstages : executor.stages = stages)
    (hindex : executor.index = k) : executor.next.log <+: stageRuns stages k ∧
      ∀ executor', executor.next.outcome = .ok executor' →
        executor.next.log = stageRuns stages k ∧
          executor'.stages = stages ∧ executor'.index = k + 1 := by
  subst hstages hindex
  refine ⟨?_, fun executor' h => ⟨?_, (next_ok h).2⟩⟩
  · unfold next
    split
    · exact List.nil_prefix
    · rename_i stage hstage
      obtain ⟨hpre, -⟩ := runStage_log executor.index stage 0 executor.state
      rw [stageRuns, List.getD_eq_getElem?_getD, hstage, Option.getD_some, List.range_eq_range']
      cases hrun : (runStage executor.index 0 stage executor.state).outcome with
      | error raised => rwa [Logged.bind_of_error hrun]
      | ok state =>
        rw [Logged.bind_of_ok hrun]
        simpa using hpre
  · unfold next at h ⊢
    split at h
    · cases h
    · rename_i stage hstage
      obtain ⟨state, hrun, -⟩ := Logged.bind_outcome_ok.mp h
      obtain ⟨-, hok⟩ := runStage_log executor.index stage 0 executor.state
      rw [Logged.bind_of_ok hrun, stageRuns, List.getD_eq_getElem?_getD, hstage,
        Option.getD_some, List.range_eq_range', ← hok state hrun]
      simp

/-- Stages that ran, one after another. -/
theorem steps_ok {n : Nat} (h : (steps next n executor).outcome = .ok executor') :
    (executor.index + n ≤ executor.numStages ∨ n = 0) ∧ executor'.stages = executor.stages ∧
      executor'.index = executor.index + n := by
  induction n generalizing executor with
  | zero =>
    cases h
    exact ⟨.inr rfl, rfl, rfl⟩
  | succ n ih =>
    obtain ⟨mid, hmid, hrest⟩ := Logged.bind_outcome_ok.mp h
    obtain ⟨hlt, hstages, hindex⟩ := next_ok hmid
    obtain ⟨hle, hstages', hindex'⟩ := ih hrest
    rw [numStages, hstages, hindex] at hle
    rw [numStages] at hlt ⊢
    exact ⟨.inl (by omega), hstages'.trans hstages, by omega⟩

end StageExecutor

/-! ### The loops are a schedule -/

/-- The executors of the two streams. -/
def pair (a b : StageExecutor σ) : Lane → StageExecutor σ
  | .a => a
  | .b => b

@[simp] theorem update_pair_a (a b a' : StageExecutor σ) :
    Function.update (pair a b) .a a' = pair a' b := by
  funext lane
  cases lane <;> rfl

@[simp] theorem update_pair_b (a b b' : StageExecutor σ) :
    Function.update (pair a b) .b b' = pair a b' := by
  funext lane
  cases lane <;> rfl

theorem alternate_eq (n : Nat) (a b : StageExecutor σ) :
    alternate n a b = interleave StageExecutor.next (List.replicate n [Lane.a, .b]).flatten
      (pair a b) >>= fun executors => pure (executors .a, executors .b) := by
  induction n generalizing a b with
  | zero => rfl
  | succ n ih =>
    rw [alternate, List.replicate_succ, List.flatten_cons, List.cons_append, List.cons_append,
      List.nil_append, interleave, bind_assoc]
    refine congrArg _ (funext fun a' => ?_)
    rw [interleave, bind_assoc, update_pair_a]
    refine congrArg _ (funext fun b' => ?_)
    rw [update_pair_b, ih]

/-- The turns of the overlapped schedule on streams of `numStages` stages. -/
def turns (numStages delta : Nat) : List Lane :=
  List.replicate delta .a ++ (List.replicate (numStages - delta) [Lane.a, .b]).flatten ++
    List.replicate delta .b

/-- **The overlapped schedule is a schedule of two processes.** -/
theorem overlapped_eq {stateA stateB : σ} {operationsA operationsB : List (StreamOp σ)}
    {stagesA stagesB : List (Stage σ)} (hA : convertOperationsToStages operationsA = .ok stagesA)
    (hB : convertOperationsToStages operationsB = .ok stagesB) (delta : Nat) :
    executeOverlappedOperations stateA stateB operationsA operationsB 0 delta =
      interleave StageExecutor.next (turns stagesA.length delta)
          (pair { debugName := "a", stages := stagesA, state := stateA }
            { debugName := "b", stages := stagesB, state := stateB }) >>= fun executors =>
        if (executors .a).done && (executors .b).done then
          pure ((executors .a).state, (executors .b).state)
        else .raise (.assertionError "one stream ran out of stages before the other") := by
  have hdelta : ¬ ((delta : Int) < 0) := by omega
  let a : StageExecutor σ := { debugName := "a", stages := stagesA, state := stateA }
  let b : StageExecutor σ := { debugName := "b", stages := stagesB, state := stateB }
  rw [executeOverlappedOperations, if_neg (not_not.mpr rfl), if_neg hdelta, hA, hB, turns,
    interleave_append, interleave_append, interleave_replicate, bind_assoc, bind_assoc, bind_assoc]
  change (steps StageExecutor.next delta a).tag Lane.a >>= _ =
    (steps StageExecutor.next delta a).tag Lane.a >>= _
  refine Logged.bind_congr_ok fun a' ha' => ?_
  have hnum : a'.numStages = stagesA.length :=
    congrArg List.length (show a'.stages = a.stages from (StageExecutor.steps_ok ha').2.1)
  rw [pure_bind, hnum, Int.toNat_natCast, alternate_eq, bind_assoc, update_pair_a]
  refine congrArg _ (funext fun executors => ?_)
  rw [pure_bind, interleave_replicate, bind_assoc]
  change (steps StageExecutor.next delta (executors .b)).tag Lane.b >>= _ = _
  refine congrArg _ (funext fun b' => ?_)
  rw [pure_bind]
  rfl

/-- The stages of the overlapped schedule in order: the lead's first `delta`, the rounds in
which the lead is `delta` stages ahead, and the trail's last ones. -/
def stageOrder (numStages delta : Nat) : List (Lane × Nat) :=
  (List.range delta).map (fun k => (Lane.a, k)) ++
    (List.range (numStages - delta)).flatMap (fun k => [(Lane.a, delta + k), (Lane.b, k)]) ++
    (List.range delta).map fun k => (Lane.b, numStages - delta + k)

theorem count_rounds (lane : Lane) (n : Nat) :
    (List.replicate n [Lane.a, .b]).flatten.count lane = n := by
  rw [List.count_flatten, List.map_replicate, List.sum_replicate]
  cases lane <;> simp

theorem numbered_rounds (position : Lane → Nat) (n : Nat) :
    numbered position (List.replicate n [Lane.a, .b]).flatten =
      (List.range n).flatMap fun k => [(Lane.a, position .a + k), (Lane.b, position .b + k)] := by
  induction n with
  | zero => rfl
  | succ n ih =>
    rw [List.replicate_succ', List.flatten_append, numbered_append, ih, List.range_succ,
      List.flatMap_append]
    simp [numbered, count_rounds]

theorem numbered_turns (numStages delta : Nat) :
    numbered (fun _ => 0) (turns numStages delta) = stageOrder numStages delta := by
  rw [turns, numbered_append, numbered_append, numbered_replicate, numbered_rounds,
    numbered_replicate, stageOrder]
  simp [count_rounds, List.count_replicate]

theorem count_turns {numStages delta : Nat} (lane : Lane) (h : delta ≤ numStages) :
    (turns numStages delta).count lane = numStages := by
  rw [turns, List.count_append, List.count_append, count_rounds]
  cases lane
  · simp [List.count_replicate, h]
  · simp [List.count_replicate, h]

/-! ### One stream alone -/

/-- The ops of all stages, in order. -/
def allRuns (stages : List (Stage σ)) : List OpRun :=
  (List.range stages.length).flatMap (stageRuns stages)

variable {state final : σ} {operations : List (StreamOp σ)} {stages : List (Stage σ)}

namespace StageExecutor

/-- The name of an executor is only in its own error. -/
theorem next_rename (name : String) (h : executor.index < executor.numStages) :
    next { executor with debugName := name } =
      (fun executor => { executor with debugName := name }) <$> executor.next := by
  have hstage := List.getElem?_eq_getElem h
  simp only [next, hstage, map_bind, map_pure]

theorem steps_rename (name : String) {n : Nat} (h : executor.index + n ≤ executor.numStages) :
    steps next n { executor with debugName := name } =
      (fun executor => { executor with debugName := name }) <$> steps next n executor := by
  induction n generalizing executor with
  | zero => rfl
  | succ n ih =>
    rw [steps, next_rename name (by omega), steps, map_bind, bind_map_left]
    refine Logged.bind_congr_ok fun executor' hnext => ?_
    obtain ⟨-, hstages, hindex⟩ := next_ok hnext
    exact ih (by rw [numStages, hstages, hindex]; rw [numStages] at h; omega)

end StageExecutor

/-- A stream alone is the steps of an executor, whatever its name. -/
theorem executeOperations_eq (h : convertOperationsToStages operations = .ok stages)
    (name : String) : executeOperations state operations =
      StageExecutor.state <$> steps StageExecutor.next stages.length
        ({ debugName := name, stages, state } : StageExecutor σ) := by
  let serial : StageExecutor σ := { debugName := "serial", stages, state }
  have hbound : serial.index + stages.length ≤ serial.numStages := Nat.le_of_eq (Nat.zero_add _)
  have hname := StageExecutor.steps_rename name hbound
  have hsteps : executeOperations state operations =
      StageExecutor.state <$> steps StageExecutor.next stages.length serial := by
    rw [executeOperations, h, ← bind_pure_comp]
    change steps StageExecutor.next stages.length serial >>= _ = _
    refine Logged.bind_congr_ok fun executor hexecutor => ?_
    obtain ⟨-, hstages, hindex⟩ := StageExecutor.steps_ok hexecutor
    have hdone : executor.done = true := by
      rw [StageExecutor.done, StageExecutor.numStages, hstages, hindex]
      exact decide_eq_true (Nat.le_of_eq (Nat.zero_add _).symm)
    rw [hdone, if_pos rfl]
  rw [hsteps]
  change _ = StageExecutor.state <$> steps StageExecutor.next stages.length
    { serial with debugName := name }
  rw [hname, Functor.map_map]

/-- A stream alone starts all its ops in order, if it ends well. -/
theorem executeOperations_log (h : convertOperationsToStages operations = .ok stages)
    (hok : (executeOperations state operations).outcome = .ok final) :
    (executeOperations state operations).log = allRuns stages := by
  rw [executeOperations_eq h "serial"] at hok ⊢
  rw [Logged.map_outcome] at hok
  rw [Logged.map_log, allRuns, List.range_eq_range']
  cases hsteps : (steps StageExecutor.next stages.length
      ({ debugName := "serial", stages, state } : StageExecutor σ)).outcome with
  | error raised =>
    rw [hsteps] at hok
    cases hok
  | ok executor =>
    have hnext : ∀ k (executor executor' : StageExecutor σ),
        executor.stages = stages ∧ executor.index = k → executor.next.outcome = .ok executor' →
          executor.next.log = stageRuns stages k ∧
            executor'.stages = stages ∧ executor'.index = k + 1 :=
      fun k _ executor' hat hnext => (StageExecutor.next_log hat.1 hat.2).2 executor' hnext
    exact steps_order hnext ⟨rfl, rfl⟩ hsteps

/-! ### The two schedules -/

variable {stateA stateB finalA finalB : σ} {operationsA operationsB : List (StreamOp σ)}
  {stagesA stagesB : List (Stage σ)} {delta : Nat}

/-- The executors the overlapped schedule sets out with. -/
def setOut (stagesA stagesB : List (Stage σ)) (stateA stateB : σ) : Lane → StageExecutor σ :=
  pair { debugName := "a", stages := stagesA, state := stateA }
    { debugName := "b", stages := stagesB, state := stateB }

/-- What each stream is run with. -/
def serial (stateA stateB : σ) (operationsA operationsB : List (StreamOp σ)) :
    Lane → Logged OpRun Raised σ
  | .a => executeOperations stateA operationsA
  | .b => executeOperations stateB operationsB

/-- The stages of either stream. -/
def stagesOf (stagesA stagesB : List (Stage σ)) : Lane → List (Stage σ)
  | .a => stagesA
  | .b => stagesB

theorem serial_eq (hA : convertOperationsToStages operationsA = .ok stagesA)
    (hB : convertOperationsToStages operationsB = .ok stagesB) (lane : Lane) :
    serial stateA stateB operationsA operationsB lane =
      StageExecutor.state <$> steps StageExecutor.next (stagesOf stagesA stagesB lane).length
        (setOut stagesA stagesB stateA stateB lane) := by
  cases lane
  · exact executeOperations_eq hA "a"
  · exact executeOperations_eq hB "b"

/-- The order in which the overlapped schedule starts ops. -/
theorem turns_log (stagesA stagesB : List (Stage σ)) (stateA stateB : σ) (n delta : Nat) :
    let run := interleave StageExecutor.next (turns n delta) (setOut stagesA stagesB stateA stateB)
    let order := ordered (fun lane => stageRuns (stagesOf stagesA stagesB lane)) (stageOrder n delta)
    run.log <+: order ∧ ∀ executors, run.outcome = .ok executors → run.log = order := by
  rw [← numbered_turns]
  have hnext : ∀ lane k (executor : StageExecutor σ),
      executor.stages = stagesOf stagesA stagesB lane ∧ executor.index = k →
        executor.next.log <+: stageRuns (stagesOf stagesA stagesB lane) k ∧
          ∀ executor', executor.next.outcome = .ok executor' →
            executor.next.log = stageRuns (stagesOf stagesA stagesB lane) k ∧
              executor'.stages = stagesOf stagesA stagesB lane ∧ executor'.index = k + 1 :=
    fun lane k executor hat => StageExecutor.next_log hat.1 hat.2
  refine interleave_order hnext fun lane => ?_
  cases lane <;> exact ⟨rfl, rfl⟩

/-- On streams of as many stages the schedule leaves both executors done. -/
theorem overlapped_map (hA : convertOperationsToStages operationsA = .ok stagesA)
    (hB : convertOperationsToStages operationsB = .ok stagesB)
    (hlen : stagesA.length = stagesB.length) (hdelta : delta ≤ stagesA.length) :
    executeOverlappedOperations stateA stateB operationsA operationsB 0 delta =
      (fun executors : Lane → StageExecutor σ => ((executors .a).state, (executors .b).state)) <$>
        interleave StageExecutor.next (turns stagesA.length delta)
          (setOut stagesA stagesB stateA stateB) := by
  rw [overlapped_eq hA hB, ← bind_pure_comp]
  refine Logged.bind_congr_ok fun executors hexecutors => ?_
  have hdone (lane : Lane) : (executors lane).done = true := by
    have hsteps := interleave_ok.mp hexecutors lane
    rw [count_turns lane hdelta] at hsteps
    obtain ⟨-, hstages, hindex⟩ := StageExecutor.steps_ok hsteps
    rw [StageExecutor.done, StageExecutor.numStages, hstages, hindex]
    refine decide_eq_true ?_
    cases lane
    · exact Nat.le_of_eq (Nat.zero_add _).symm
    · exact Nat.le_of_eq (hlen.symm.trans (Nat.zero_add _).symm)
  rw [hdone, hdone, Bool.and_self, if_pos rfl]

/-- On other streams one executor runs out of stages, or is left with some. -/
theorem overlapped_raises (hA : convertOperationsToStages operationsA = .ok stagesA)
    (hB : convertOperationsToStages operationsB = .ok stagesB)
    (h : ¬ (stagesA.length = stagesB.length ∧ delta ≤ stagesA.length)) :
    ∃ raised, (executeOverlappedOperations stateA stateB operationsA operationsB 0 delta).outcome =
      .error raised := by
  cases hout : (executeOverlappedOperations stateA stateB operationsA operationsB 0 delta).outcome with
  | error raised => exact ⟨raised, rfl⟩
  | ok finals =>
    exfalso
    rw [overlapped_eq hA hB] at hout
    obtain ⟨executors, hexecutors, hcheck⟩ := Logged.bind_outcome_ok.mp hout
    have hstepsA := interleave_ok.mp hexecutors .a
    have hstepsB := interleave_ok.mp hexecutors .b
    have hcountA : (turns stagesA.length delta).count .a = delta + (stagesA.length - delta) := by
      rw [turns, List.count_append, List.count_append, count_rounds]
      simp [List.count_replicate]
    have hcountB : (turns stagesA.length delta).count .b = stagesA.length - delta + delta := by
      rw [turns, List.count_append, List.count_append, count_rounds]
      simp [List.count_replicate]
    obtain ⟨hleA, hnumA, hindexA⟩ := StageExecutor.steps_ok hstepsA
    obtain ⟨hleB, hnumB, hindexB⟩ := StageExecutor.steps_ok hstepsB
    rw [hcountA] at hleA
    rw [hcountB] at hleB hindexB
    change (0 + _ ≤ stagesA.length ∨ _) at hleA
    change (0 + _ ≤ stagesB.length ∨ _) at hleB
    change _ = 0 + _ at hindexB
    -- the trail stops short of its end where its stream is the longer one
    have hdone : (executors .b).done = true := by
      by_contra hnot
      rw [Bool.not_eq_true] at hnot
      rw [hnot, Bool.and_false, if_neg Bool.false_ne_true] at hcheck
      cases hcheck
    rw [StageExecutor.done, StageExecutor.numStages, hnumB] at hdone
    have hend : stagesB.length ≤ (executors .b).index := of_decide_eq_true hdone
    omega

/-- The op a run started. -/
def opAt (stages : List (Stage σ)) (run : OpRun) : Option (σ → Except Raised σ) :=
  (stages.getD run.stage [])[run.op]?

/-- All runs start the ops of the stages once each, in order. -/
theorem allRuns_ops (stages : List (Stage σ)) :
    (allRuns stages).map (opAt stages) = stages.flatten.map some := by
  have hstage (k : Nat) : (stageRuns stages k).map (opAt stages) =
      (stages.getD k []).map some := by
    rw [stageRuns, List.map_map]
    refine List.ext_getElem (by simp) fun op hop hop' => ?_
    simp [opAt]
  rw [allRuns, List.map_flatMap, List.map_flatten]
  simp only [hstage]
  rw [List.flatMap_def]
  refine congrArg _ (List.ext_getElem (by simp) fun k hk hk' => ?_)
  rw [List.length_map] at hk'
  simp [hk']

/-- **The overlapped schedule is the serial one of each stream.** -/
theorem overlapped_serial (stateA stateB : σ) (delta : Nat)
    (hA : convertOperationsToStages operationsA = .ok stagesA)
    (hB : convertOperationsToStages operationsB = .ok stagesB) :
    let run := executeOverlappedOperations stateA stateB operationsA operationsB 0 delta
    let alone := serial stateA stateB operationsA operationsB
    let stages := stagesOf stagesA stagesB
    let order := ordered (fun lane => stageRuns (stages lane)) (stageOrder stagesA.length delta)
    (stagesA.length = stagesB.length → delta ≤ stagesA.length →
        (∀ finalA finalB, run.outcome = .ok (finalA, finalB) ↔
          (alone .a).outcome = .ok finalA ∧ (alone .b).outcome = .ok finalB) ∧
        (∀ finals, run.outcome = .ok finals → run.log = order ∧
          (logOf .a run.log).map (opAt stagesA) = (opsOf operationsA).map some ∧
          (logOf .b run.log).map (opAt stagesB) = (opsOf operationsB).map some) ∧
        (∀ raised, run.outcome = .error raised → run.log <+: order ∧
          ∃ lane, (alone lane).outcome = .error raised ∧ logOf lane run.log = (alone lane).log)) ∧
      (¬ (stagesA.length = stagesB.length ∧ delta ≤ stagesA.length) →
        ∃ raised, run.outcome = .error raised) := by
  intro run alone stages order
  refine ⟨fun hlen hdelta => ?_, overlapped_raises hA hB⟩
  let inner := interleave StageExecutor.next (turns stagesA.length delta)
    (setOut stagesA stagesB stateA stateB)
  have hrun : run = (fun executors : Lane → StageExecutor σ =>
      ((executors .a).state, (executors .b).state)) <$> inner := overlapped_map hA hB hlen hdelta
  have hnum (lane : Lane) : (stages lane).length = stagesA.length := by
    cases lane
    · rfl
    · exact hlen.symm
  have halone (lane : Lane) : alone lane = StageExecutor.state <$>
      steps StageExecutor.next ((turns stagesA.length delta).count lane)
        (setOut stagesA stagesB stateA stateB lane) := by
    rw [count_turns lane hdelta, ← hnum lane]
    exact serial_eq hA hB lane
  obtain ⟨hpre, hfull⟩ := turns_log stagesA stagesB stateA stateB stagesA.length delta
  have hlog : run.log = inner.log := by rw [hrun, Logged.map_log]
  have hsplit {finals : σ × σ} (h : run.outcome = .ok finals) :
      ∃ executors, inner.outcome = .ok executors ∧
        finals = ((executors .a).state, (executors .b).state) := by
    rw [hrun, Logged.map_outcome] at h
    cases hinner : inner.outcome with
    | error raised =>
        rw [hinner] at h
        cases h
    | ok executors =>
        rw [hinner] at h
        cases h
        exact ⟨executors, rfl, rfl⟩
  have hfinal {executors : Lane → StageExecutor σ} (h : inner.outcome = .ok executors)
      (lane : Lane) : (alone lane).outcome = .ok (executors lane).state := by
    rw [halone, Logged.map_outcome, interleave_ok.mp h lane]
    rfl
  refine ⟨fun finalA finalB => ⟨fun h => ?_, fun h => ?_⟩, fun finals h => ?_, fun raised h => ?_⟩
  · obtain ⟨executors, hinner, hfinals⟩ := hsplit h
    cases hfinals
    exact ⟨hfinal hinner .a, hfinal hinner .b⟩
  · -- both streams end well alone, and so does every schedule of them
    have hsteps (lane : Lane) (final : σ) (h : (alone lane).outcome = .ok final) :
        ∃ executor, (steps StageExecutor.next ((turns stagesA.length delta).count lane)
          (setOut stagesA stagesB stateA stateB lane)).outcome = .ok executor ∧
            executor.state = final := by
      rw [halone, Logged.map_outcome] at h
      cases hone : (steps StageExecutor.next ((turns stagesA.length delta).count lane)
          (setOut stagesA stagesB stateA stateB lane)).outcome with
      | error raised =>
          rw [hone] at h
          cases h
      | ok executor =>
          rw [hone] at h
          cases h
          exact ⟨executor, rfl, rfl⟩
    obtain ⟨a, ha, rfl⟩ := hsteps .a finalA h.1
    obtain ⟨b, hb, rfl⟩ := hsteps .b finalB h.2
    have hinner : inner.outcome = .ok (pair a b) := interleave_ok.mpr fun lane => by
      cases lane
      · exact ha
      · exact hb
    rw [hrun, Logged.map_outcome, hinner]
    rfl
  · obtain ⟨executors, hinner, -⟩ := hsplit h
    have hops (lane : Lane) : logOf lane run.log = (alone lane).log := by
      rw [hlog, interleave_log hinner, halone, Logged.map_log]
    refine ⟨hlog.trans (hfull executors hinner), ?_, ?_⟩
    · rw [hops, ← convert_flatten hA, ← allRuns_ops]
      exact congrArg _ (executeOperations_log hA (hfinal hinner .a))
    · rw [hops, ← convert_flatten hB, ← allRuns_ops]
      exact congrArg _ (executeOperations_log hB (hfinal hinner .b))
  · rw [hrun, Logged.map_outcome] at h
    cases hinner : inner.outcome with
    | ok executors =>
        rw [hinner] at h
        cases h
    | error raised' =>
        rw [hinner] at h
        cases h
        obtain ⟨lane, hraise, hsame⟩ := interleave_error hinner
        refine ⟨hlog ▸ hpre, lane, ?_, ?_⟩
        · rw [halone, Logged.map_outcome, hraise]
          rfl
        · rw [hlog, hsame, halone, Logged.map_log]

/-- Two stages: the first writes a key, the second consumes it. -/
def handOver : List (StreamOp (NamedState Nat)) :=
  [.op "op_write" fun state => state.write "x" 1, .yield,
    .op "op_take" fun state => state.pop "x" >>= fun taken => taken.2.write "y" (taken.1 + 1)]

/-- The trail of two streams is a stage behind. -/
theorem overlapped_serial_handOver :
    (executeOverlappedOperations ⟨[]⟩ ⟨[("z", 0)]⟩ handOver handOver 0 1).outcome =
        .ok (⟨[("y", 2)]⟩, ⟨[("z", 0), ("y", 2)]⟩) ∧
      (executeOverlappedOperations ⟨[]⟩ ⟨[("z", 0)]⟩ handOver handOver 0 1).log =
        [(.a, ⟨0, 0⟩), (.a, ⟨1, 0⟩), (.b, ⟨0, 0⟩), (.b, ⟨1, 0⟩)] := by
  have hcut : convertOperationsToStages handOver = .ok _ := rfl
  obtain ⟨hiff, hlog, -⟩ := (overlapped_serial ⟨[]⟩ ⟨[("z", 0)]⟩ 1 hcut hcut).1 rfl (by decide)
  have hok := (hiff ⟨[("y", 2)]⟩ ⟨[("z", 0), ("y", 2)]⟩).mpr ⟨rfl, rfl⟩
  exact ⟨hok, (hlog _ hok).1⟩

end RapidLlm.OpStreams
