import Mathlib.Data.List.Infix
import Mathlib.Logic.Function.Basic

/-!
# RapidLlm.Lib.Interleave

**Independent processes under a schedule.** `Logged` is a computation that writes a log and may
raise; what was logged before it raised stays. `interleave` lets processes take steps in the
order of a schedule, each over its own state.

A schedule decides the order of the log and nothing else: it ends well just if every process
does when it takes its steps alone, with the same states (`interleave_ok`) and logs
(`interleave_log`), and where it raises one of the processes raises alone, after the same log
(`interleave_error`). `interleave_order` is the log as a whole, where each step logs what is
known of it.
-/

namespace RapidLlm

universe u v w

/-- A computation that writes a log and may raise. -/
@[ext] structure Logged (ω : Type u) (ε : Type v) (α : Type w) where
  log : List ω
  outcome : Except ε α

namespace Logged

variable {ω : Type u} {ε : Type v} {α β γ : Type w} {ι : Type w}

def bind (a : Logged ω ε α) (f : α → Logged ω ε β) : Logged ω ε β :=
  match a.outcome with
  | .error e => ⟨a.log, .error e⟩
  | .ok value => ⟨a.log ++ (f value).log, (f value).outcome⟩

instance : Monad (Logged ω ε) where
  pure value := ⟨[], .ok value⟩
  bind := bind

/-- What a raised exception logs. -/
def raise (e : ε) : Logged ω ε α := ⟨[], .error e⟩

/-- A computation that logs nothing of its own. -/
def lift (a : Except ε α) : Logged ω ε α := ⟨[], a⟩

/-- The log of a process, under its name. -/
def tag (i : ι) (a : Logged ω ε α) : Logged (ι × ω) ε α :=
  ⟨a.log.map fun event => (i, event), a.outcome⟩

variable {a : Logged ω ε α} {f : α → Logged ω ε β} {value : α} {e : ε}

@[simp] theorem pure_log : (pure value : Logged ω ε α).log = [] := rfl

@[simp] theorem pure_outcome : (pure value : Logged ω ε α).outcome = .ok value := rfl

theorem bind_of_ok (h : a.outcome = .ok value) :
    (a >>= f) = ⟨a.log ++ (f value).log, (f value).outcome⟩ := by
  change bind a f = _
  rw [bind, h]

theorem bind_of_error (h : a.outcome = .error e) : (a >>= f) = ⟨a.log, .error e⟩ := by
  change bind a f = _
  rw [bind, h]

/-- Two sequences that go on alike from where the first part ends well. -/
theorem bind_congr_ok {g : α → Logged ω ε β}
    (h : ∀ value, a.outcome = .ok value → f value = g value) : a >>= f = a >>= g := by
  cases hout : a.outcome with
  | error e => rw [bind_of_error hout, bind_of_error hout]
  | ok value => rw [bind_of_ok hout, bind_of_ok hout, h value hout]

/-- A sequence under a name is a sequence of named parts. -/
theorem tag_bind (i : ι) (a : Logged ω ε α) (f : α → Logged ω ε β) :
    (a >>= f).tag i = a.tag i >>= fun value => (f value).tag i := by
  cases h : a.outcome with
  | error e => rw [bind_of_error h, bind_of_error (show (a.tag i).outcome = .error e from h)]; rfl
  | ok value =>
    rw [bind_of_ok h, bind_of_ok (show (a.tag i).outcome = .ok value from h), tag, List.map_append]
    rfl

/-- A sequence ends well when both its parts do. -/
theorem bind_outcome_ok {b : β} : (a >>= f).outcome = .ok b ↔
    ∃ value, a.outcome = .ok value ∧ (f value).outcome = .ok b := by
  cases h : a.outcome with
  | error e => simp [bind_of_error h]
  | ok value => simp [bind_of_ok h]

theorem id_map' (a : Logged ω ε α) : id <$> a = a := by
  change bind a (fun value => ⟨[], .ok value⟩) = a
  cases h : a.outcome with
  | error e => exact (bind_of_error h).trans (Logged.ext rfl h.symm)
  | ok value => exact (bind_of_ok h).trans (Logged.ext (List.append_nil _) h.symm)

theorem bind_assoc' (a : Logged ω ε α) (f : α → Logged ω ε β) (g : β → Logged ω ε γ) :
    a >>= f >>= g = a >>= fun value => f value >>= g := by
  cases h : a.outcome with
  | error e => rw [bind_of_error h, bind_of_error h, bind_of_error rfl]
  | ok value =>
    rw [bind_of_ok h, bind_of_ok h]
    cases h' : (f value).outcome with
    | error e => rw [bind_of_error rfl, bind_of_error h']
    | ok value' => rw [bind_of_ok rfl, bind_of_ok h', List.append_assoc]

instance : LawfulMonad (Logged ω ε) :=
  LawfulMonad.mk' _ id_map' (fun _ _ => rfl) bind_assoc'

@[simp] theorem map_log (f : α → β) : (f <$> a).log = a.log := by
  rw [← bind_pure_comp]
  cases h : a.outcome with
  | error e => rw [bind_of_error h]
  | ok value => rw [bind_of_ok h, pure_log, List.append_nil]

@[simp] theorem map_outcome (f : α → β) : (f <$> a).outcome = a.outcome.map f := by
  rw [← bind_pure_comp]
  cases h : a.outcome with
  | error e => rw [bind_of_error h]; rfl
  | ok value => rw [bind_of_ok h]; rfl

end Logged

namespace Interleave

open Logged

variable {ω : Type u} {ε : Type v} {W : Type w} {ι : Type w}

/-- A process alone. -/
def steps (next : W → Logged ω ε W) : Nat → W → Logged ω ε W
  | 0, process => pure process
  | n + 1, process => next process >>= steps next n

variable [DecidableEq ι]

/-- Processes that step in the order of a schedule. -/
def interleave (next : W → Logged ω ε W) : List ι → (ι → W) → Logged (ι × ω) ε (ι → W)
  | [], processes => pure processes
  | i :: schedule, processes => do
    let process ← (next (processes i)).tag i
    interleave next schedule (Function.update processes i process)

/-- What one process logged. -/
def logOf (i : ι) (log : List (ι × ω)) : List ω :=
  (log.filter fun event => event.1 = i).map Prod.snd

variable {next : W → Logged ω ε W} {schedule : List ι} {processes processes' : ι → W} {i j : ι}
  {e : ε} {log more : List (ι × ω)} {events : List ω}

theorem interleave_append (schedule more : List ι) (processes : ι → W) :
    interleave next (schedule ++ more) processes =
      interleave next schedule processes >>= interleave next more := by
  induction schedule generalizing processes with
  | nil => rw [interleave, pure_bind, List.nil_append]
  | cons i schedule ih =>
    rw [List.cons_append, interleave, interleave, bind_assoc]
    exact congrArg _ (funext fun process => ih _)

/-- A schedule that is one process's turns runs that process. -/
theorem interleave_replicate (n : Nat) (i : ι) (processes : ι → W) :
    interleave next (List.replicate n i) processes =
      (steps next n (processes i)).tag i >>= fun process =>
        pure (Function.update processes i process) := by
  induction n generalizing processes with
  | zero =>
    rw [List.replicate_zero, interleave, steps]
    exact congrArg pure (Function.update_eq_self i processes).symm
  | succ n ih =>
    rw [List.replicate_succ, interleave, steps, tag_bind, bind_assoc]
    refine congrArg _ (funext fun process => ?_)
    rw [ih, Function.update_self]
    exact congrArg _ (funext fun last => congrArg pure (Function.update_idem process last processes))

@[simp] theorem logOf_append : logOf i (log ++ more) = logOf i log ++ logOf i more := by
  rw [logOf, List.filter_append, List.map_append]
  rfl

theorem logOf_tagged : logOf i (events.map fun event => (i, event)) = events := by
  rw [logOf, List.filter_eq_self.mpr, List.map_map]
  · exact List.map_id _
  · simp

theorem logOf_other (h : j ≠ i) : logOf i (events.map fun event => (j, event)) = [] := by
  rw [logOf, List.filter_eq_nil_iff.mpr, List.map_nil]
  simp [h]

/-- A step that ends well leaves the rest of the schedule to run. -/
theorem interleave_cons_ok {process : W} (h : (next (processes i)).outcome = .ok process) :
    interleave next (i :: schedule) processes =
      ⟨(next (processes i)).log.map (fun event => (i, event)) ++
          (interleave next schedule (Function.update processes i process)).log,
        (interleave next schedule (Function.update processes i process)).outcome⟩ :=
  bind_of_ok h

theorem interleave_cons_error (h : (next (processes i)).outcome = .error e) :
    interleave next (i :: schedule) processes =
      ⟨(next (processes i)).log.map (fun event => (i, event)), .error e⟩ :=
  bind_of_error h

/-- **A schedule ends well just if every process does alone**, and leaves it where it would be. -/
theorem interleave_ok : (interleave next schedule processes).outcome = .ok processes' ↔
    ∀ i, (steps next (schedule.count i) (processes i)).outcome = .ok (processes' i) := by
  induction schedule generalizing processes with
  | nil => simp [interleave, steps, funext_iff]
  | cons j schedule ih =>
    have hother {i : ι} (h : i ≠ j) (process : W) :
        steps next ((j :: schedule).count i) (processes i) =
          steps next (schedule.count i) (Function.update processes j process i) := by
      rw [List.count_cons_of_ne h.symm, Function.update_of_ne h]
    cases hstep : (next (processes j)).outcome with
    | error e =>
      rw [interleave_cons_error hstep]
      refine iff_of_false (fun h => by cases h) fun h => ?_
      have hj := h j
      rw [List.count_cons_self, steps, bind_of_error hstep] at hj
      cases hj
    | ok process =>
      rw [interleave_cons_ok hstep]
      refine ih.trans (forall_congr' fun i => ?_)
      by_cases hij : i = j
      · subst hij
        rw [List.count_cons_self, steps, bind_of_ok hstep, Function.update_self]
      · rw [hother hij process]

/-- **Every process logs what it does alone.** -/
theorem interleave_log (h : (interleave next schedule processes).outcome = .ok processes')
    (i : ι) : logOf i (interleave next schedule processes).log =
      (steps next (schedule.count i) (processes i)).log := by
  induction schedule generalizing processes with
  | nil => rfl
  | cons j schedule ih =>
    cases hstep : (next (processes j)).outcome with
    | error e =>
      rw [interleave_cons_error hstep] at h
      cases h
    | ok process =>
      rw [interleave_cons_ok hstep] at h ⊢
      rw [logOf_append, ih h]
      by_cases hij : i = j
      · subst hij
        rw [logOf_tagged, List.count_cons_self, steps, bind_of_ok hstep, Function.update_self]
      · rw [logOf_other (Ne.symm hij), List.nil_append, List.count_cons_of_ne (Ne.symm hij),
          Function.update_of_ne hij]

/-- **Where a schedule raises, a process raises alone**, after the same log. -/
theorem interleave_error (h : (interleave next schedule processes).outcome = .error e) :
    ∃ i, (steps next (schedule.count i) (processes i)).outcome = .error e ∧
      logOf i (interleave next schedule processes).log =
        (steps next (schedule.count i) (processes i)).log := by
  induction schedule generalizing processes with
  | nil => cases h
  | cons j schedule ih =>
    cases hstep : (next (processes j)).outcome with
    | error e' =>
      rw [interleave_cons_error hstep] at h ⊢
      cases h
      refine ⟨j, ?_⟩
      rw [logOf_tagged, List.count_cons_self, steps, bind_of_error hstep]
      exact ⟨rfl, rfl⟩
    | ok process =>
      rw [interleave_cons_ok hstep] at h ⊢
      obtain ⟨i, hraise, hlog⟩ := ih h
      refine ⟨i, ?_⟩
      rw [logOf_append, hlog]
      by_cases hij : i = j
      · subst hij
        rw [Function.update_self] at hraise ⊢
        rw [logOf_tagged, List.count_cons_self, steps, bind_of_ok hstep]
        exact ⟨hraise, rfl⟩
      · rw [Function.update_of_ne hij] at hraise ⊢
        rw [logOf_other (Ne.symm hij), List.nil_append, List.count_cons_of_ne (Ne.symm hij)]
        exact ⟨hraise, rfl⟩

/-! ### The order of the steps -/

/-- The steps of a schedule, each numbered among the steps of its process. -/
def numbered : (ι → Nat) → List ι → List (ι × Nat)
  | _, [] => []
  | position, i :: schedule =>
      (i, position i) :: numbered (Function.update position i (position i + 1)) schedule

theorem numbered_append (position : ι → Nat) (schedule more : List ι) :
    numbered position (schedule ++ more) = numbered position schedule ++
      numbered (fun i => position i + schedule.count i) more := by
  induction schedule generalizing position with
  | nil => rfl
  | cons j schedule ih =>
    rw [List.cons_append, numbered, ih, numbered, List.cons_append]
    congr 3
    funext i
    by_cases hij : i = j
    · subst hij
      rw [Function.update_self, List.count_cons_self]
      omega
    · rw [Function.update_of_ne hij, List.count_cons_of_ne (Ne.symm hij)]

theorem numbered_replicate (position : ι → Nat) (i : ι) (n : Nat) :
    numbered position (List.replicate n i) =
      (List.range n).map fun k => (i, position i + k) := by
  induction n with
  | zero => rfl
  | succ n ih =>
    rw [List.replicate_succ', numbered_append, ih, List.range_succ, List.map_append]
    simp [numbered]

/-- What a schedule logs, if a step logs `emits` of where its process stands. -/
def ordered (emits : ι → Nat → List ω) (steps : List (ι × Nat)) : List (ι × ω) :=
  steps.flatMap fun step => (emits step.1 step.2).map fun event => (step.1, event)

/-- **The log follows the schedule**, step by step; where it ends early it is cut short. -/
theorem interleave_order {emits : ι → Nat → List ω} {At : ι → Nat → W → Prop}
    (hnext : ∀ i k process, At i k process → (next process).log <+: emits i k ∧
      ∀ process', (next process).outcome = .ok process' →
        (next process).log = emits i k ∧ At i (k + 1) process')
    {position : ι → Nat} (hat : ∀ i, At i (position i) (processes i)) :
    (interleave next schedule processes).log <+: ordered emits (numbered position schedule) ∧
      ∀ processes', (interleave next schedule processes).outcome = .ok processes' →
        (interleave next schedule processes).log = ordered emits (numbered position schedule) := by
  induction schedule generalizing processes position with
  | nil => exact ⟨List.prefix_rfl, fun _ _ => rfl⟩
  | cons i schedule ih =>
    obtain ⟨hpre, hok⟩ := hnext i (position i) (processes i) (hat i)
    cases hstep : (next (processes i)).outcome with
    | error e =>
      rw [interleave_cons_error hstep]
      refine ⟨?_, fun _ h => by cases h⟩
      exact (hpre.map _).trans (List.prefix_append _ _)
    | ok process =>
      obtain ⟨hlog, hafter⟩ := hok process hstep
      have hat' (j : ι) : At j (Function.update position i (position i + 1) j)
          (Function.update processes i process j) := by
        by_cases hij : j = i
        · subst hij
          rwa [Function.update_self, Function.update_self]
        · rw [Function.update_of_ne hij, Function.update_of_ne hij]
          exact hat j
      obtain ⟨hrest, hfull⟩ := ih hat'
      rw [interleave_cons_ok hstep, hlog]
      refine ⟨(List.prefix_append_right_inj _).mpr hrest, fun processes' h => ?_⟩
      exact congrArg _ (hfull processes' h)

omit [DecidableEq ι] in
/-- What a process logs alone. -/
theorem steps_order {emits : Nat → List ω} {At : Nat → W → Prop} {process process' : W}
    (hnext : ∀ k process process', At k process → (next process).outcome = .ok process' →
      (next process).log = emits k ∧ At (k + 1) process')
    {k n : Nat} (hat : At k process) (hok : (steps next n process).outcome = .ok process') :
    (steps next n process).log = (List.range' k n).flatMap emits := by
  induction n generalizing k process with
  | zero => rfl
  | succ n ih =>
    obtain ⟨mid, hmid, hrest⟩ := bind_outcome_ok.mp hok
    obtain ⟨hlog, hafter⟩ := hnext k process mid hat hmid
    rw [steps, bind_of_ok hmid, hlog, ih hafter hrest, List.range'_succ, List.flatMap_cons]

end Interleave

end RapidLlm
