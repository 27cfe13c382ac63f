import Mathlib.Logic.Function.Basic
import Mathlib.Logic.IsEmpty.Basic
import Mathlib.Tactic.Common

/-!
# RapidLlm.Lib.Lockstep

**Parties that meet in collectives.** A party is a `Script`: it finishes, or it
enters a collective with a value of its own and goes on with what the collective
returns. A family of parties is in `Lockstep` when all of them enter the same
collective each time one of them does, and all finish together; the collective
hands every party the same combination of the values they brought.

A script entered by one party and not by another has no `Lockstep` derivation at
all: that is the group that hangs. The rules for showing that a family does go
through are those of `Uniform`, the families that also finish on one common
result; the rule for showing that it does not is `Lockstep.path`: every party of
a group that goes through issues the group's calls.
-/

namespace RapidLlm

universe u v w

/-- What a party does next: finish, or enter a collective and go on with the answer. -/
inductive Script (C : Type u) (V : Type v) (α : Type w)
  | done (result : α)
  | enter (call : C) (value : V) (resume : V → Script C V α)

namespace Script

variable {C : Type u} {V : Type v} {α β : Type w}

/-- Run a script and go on with its result. -/
def bind : Script C V α → (α → Script C V β) → Script C V β
  | .done a, k => k a
  | .enter c v resume, k => .enter c v fun answer => (resume answer).bind k

instance : Monad (Script C V) where
  pure := .done
  bind := bind

@[simp] theorem pure_eq (a : α) : (pure a : Script C V α) = .done a := rfl

@[simp] theorem done_bind (a : α) (k : α → Script C V β) : (Script.done a >>= k) = k a := rfl

@[simp] theorem enter_bind (c : C) (v : V) (resume : V → Script C V α) (k : α → Script C V β) :
    (Script.enter c v resume >>= k) = .enter c v fun answer => resume answer >>= k := rfl

theorem bind_done : ∀ s : Script C V α, (s >>= Script.done) = s
  | .done _ => rfl
  | .enter c v resume => by
      rw [enter_bind]
      exact congrArg (Script.enter c v) (funext fun answer => bind_done (resume answer))

theorem bind_bind {γ : Type w} : ∀ (s : Script C V α) (k : α → Script C V β)
    (l : β → Script C V γ), ((s >>= k) >>= l) = (s >>= fun a => k a >>= l)
  | .done _, _, _ => rfl
  | .enter c v resume, k, l => by
      rw [enter_bind, enter_bind, enter_bind]
      exact congrArg (Script.enter c v) (funext fun answer => bind_bind (resume answer) k l)

instance : LawfulMonad (Script C V) :=
  .mk' _ bind_done (fun _ _ => rfl) bind_bind

/-- Run a script on its own, every collective answered by `answer`: the calls it enters and its
result. -/
def follow (answer : C → V → V) : Script C V α → List C × α
  | .done a => ([], a)
  | .enter c v resume =>
      (c :: ((resume (answer c v)).follow answer).1, ((resume (answer c v)).follow answer).2)

/-- One way through a script: the collectives entered on it, in order, and its result.
What the collectives answer is left open. -/
inductive Path : Script C V α → List C → α → Prop
  | done (a : α) : Path (.done a) [] a
  | enter (c : C) (v : V) (resume : V → Script C V α) (answer : V) {calls : List C} {a : α} :
      Path (resume answer) calls a → Path (.enter c v resume) (c :: calls) a

namespace Path

variable {calls : List C}

@[simp] theorem done_iff {a b : α} : Path (.done a : Script C V α) calls b ↔ calls = [] ∧ b = a := by
  constructor
  · intro h
    cases h
    exact ⟨rfl, rfl⟩
  · rintro ⟨rfl, rfl⟩
    exact .done _

theorem enter_iff {c : C} {v : V} {resume : V → Script C V α} {a : α} :
    Path (.enter c v resume) calls a ↔
      ∃ answer rest, calls = c :: rest ∧ Path (resume answer) rest a := by
  constructor
  · intro h
    cases h with
    | enter _ _ _ answer hrest => exact ⟨answer, _, rfl, hrest⟩
  · rintro ⟨answer, rest, rfl, hrest⟩
    exact .enter _ _ _ answer hrest

/-- A way through two scripts in a row is a way through each. -/
theorem bind_iff {k : α → Script C V β} {b : β} : ∀ {s : Script C V α} {calls : List C},
    Path (s >>= k) calls b ↔
      ∃ first second a, calls = first ++ second ∧ Path s first a ∧ Path (k a) second b
  | .done a, calls => by
      simp only [done_bind, done_iff]
      constructor
      · intro h
        exact ⟨[], calls, a, rfl, ⟨rfl, rfl⟩, h⟩
      · rintro ⟨first, second, a', rfl, ⟨rfl, rfl⟩, h⟩
        exact h
  | .enter c v resume, calls => by
      simp only [enter_bind, enter_iff]
      constructor
      · rintro ⟨answer, rest, rfl, hrest⟩
        obtain ⟨first, second, a, rfl, hfirst, hsecond⟩ := bind_iff.mp hrest
        exact ⟨c :: first, second, a, rfl, ⟨answer, first, rfl, hfirst⟩, hsecond⟩
      · rintro ⟨first, second, a, rfl, ⟨answer, rest, rfl, hrest⟩, hsecond⟩
        exact ⟨answer, rest ++ second, rfl, bind_iff.mpr ⟨rest, second, a, rfl, hrest, hsecond⟩⟩

end Path

end Script

/-! ## Groups -/

variable {C : Type u} {V : Type v} {α β : Type w} {ι : Type*}

/-- **A group in lockstep.** Every party finishes, or every party enters the same
collective and the group goes on in lockstep with the one answer they all get. -/
inductive Lockstep (combine : C → (ι → V) → V) :
    (ι → Script C V α) → List C → (ι → α) → Prop
  | done (results : ι → α) : Lockstep combine (fun i => .done (results i)) [] results
  | enter (c : C) (values : ι → V) (resume : ι → V → Script C V α)
      {calls : List C} {results : ι → α} :
      Lockstep combine (fun i => resume i (combine c values)) calls results →
      Lockstep combine (fun i => .enter c (values i) (resume i)) (c :: calls) results

namespace Lockstep

variable {combine : C → (ι → V) → V} {calls calls' : List C}

/-- **Every party issues the group's calls**, one after another. -/
theorem path {scripts : ι → Script C V α} {results : ι → α}
    (h : Lockstep combine scripts calls results) (i : ι) : (scripts i).Path calls (results i) := by
  induction h with
  | done results => exact .done _
  | enter c values resume _ ih => exact .enter _ _ _ (combine c values) ih

/-- A group that has finished has the results its parties finished on. -/
theorem of_done [Nonempty ι] {a results : ι → α}
    (h : Lockstep combine (fun i => (.done (a i) : Script C V α)) calls results) :
    calls = [] ∧ results = a := by
  generalize hs : (fun i => (.done (a i) : Script C V α)) = scripts at h
  cases h with
  | done results =>
    refine ⟨rfl, funext fun i => ?_⟩
    have hi := congrFun hs i
    simpa using hi.symm
  | enter c values resume hrest =>
    obtain ⟨i⟩ : Nonempty ι := inferInstance
    cases congrFun hs i

/-- A group whose parties all wait has entered one collective and goes on from its answer. -/
theorem of_enter [Nonempty ι] {c : ι → C} {values : ι → V} {resume : ι → V → Script C V α}
    {results : ι → α}
    (h : Lockstep combine (fun i => .enter (c i) (values i) (resume i)) calls results) :
    ∃ call rest, calls = call :: rest ∧ (∀ i, c i = call) ∧
      Lockstep combine (fun i => resume i (combine call values)) rest results := by
  generalize hs : (fun i => Script.enter (c i) (values i) (resume i)) = scripts at h
  cases h with
  | done results =>
    obtain ⟨i⟩ : Nonempty ι := inferInstance
    cases congrFun hs i
  | @enter call values' resume' rest _ hrest =>
    have heq : ∀ i, c i = call ∧ values i = values' i ∧ resume i = resume' i := fun i => by
      simpa using congrFun hs i
    obtain rfl : values = values' := funext fun i => (heq i).2.1
    obtain rfl : resume = resume' := funext fun i => (heq i).2.2
    exact ⟨call, rest, rfl, fun i => (heq i).1, hrest⟩

/-- What a group ends on is determined by its scripts. -/
theorem unique {scripts : ι → Script C V α} {results results' : ι → α}
    (h : Lockstep combine scripts calls results)
    (h' : Lockstep combine scripts calls' results') : results' = results := by
  cases isEmpty_or_nonempty ι with
  | inl hempty => exact funext fun i => hempty.elim i
  | inr hι =>
    induction h generalizing calls' with
    | done results => exact h'.of_done.2
    | enter c values resume _ ih =>
      obtain ⟨call, rest, -, hcall, hrest⟩ := h'.of_enter
      obtain ⟨i⟩ := hι
      obtain rfl := hcall i
      exact ih hrest

/-- Parties that run the same script go through together, as one of them would on its own. -/
theorem const : ∀ s : Script C V α,
    Lockstep combine (fun _ : ι => s) (s.follow fun c v => combine c fun _ => v).1
      fun _ => (s.follow fun c v => combine c fun _ => v).2
  | .done _ => .done _
  | .enter c v resume =>
    .enter c (fun _ => v) (fun _ => resume) (const (resume (combine c fun _ => v)))

/-- Two stretches in lockstep, one after the other. -/
theorem bind {scripts : ι → Script C V α} {k : ι → α → Script C V β} {a : ι → α} {b : ι → β}
    (h : Lockstep combine scripts calls a)
    (hk : Lockstep combine (fun i => k i (a i)) calls' b) :
    Lockstep combine (fun i => scripts i >>= k i) (calls ++ calls') b := by
  induction h with
  | done results => exact hk
  | enter c values resume _ ih => exact .enter c values (fun i answer => resume i answer >>= k i) (ih hk)

/-- The same stretch for one element after another, each party on elements of its own. -/
theorem mapM {κ σ : Type*} (xs : List κ) (pick : ι → κ → σ) {f : ι → σ → Script C V α}
    {calls : κ → List C} {results : κ → ι → α}
    (h : ∀ x ∈ xs, Lockstep combine (fun i => f i (pick i x)) (calls x) (results x)) :
    Lockstep combine (fun i => (xs.map (pick i)).mapM (f i)) (xs.flatMap calls)
      fun i => xs.map fun x => results x i := by
  induction xs with
  | nil => exact .done _
  | cons x xs ih =>
    simp only [List.map_cons, List.mapM_cons, List.flatMap_cons]
    refine (h x (List.mem_cons_self ..)).bind ?_
    rw [← List.append_nil (xs.flatMap calls)]
    exact (ih fun y hy => h y (.tail x hy)).bind (k := fun i rest => .done (results x i :: rest))
      (.done _)

end Lockstep

/-- Whatever the collectives answer, each of the scripts issues these calls. -/
def Issues (scripts : ι → Script C V α) (calls : List C) : Prop :=
  ∀ i issued a, (scripts i).Path issued a → issued = calls

namespace Issues

variable {calls calls' : List C}

theorem done (a : ι → α) : Issues (fun i => (.done (a i) : Script C V α)) [] := fun _ _ _ h =>
  (Script.Path.done_iff.mp h).1

theorem bind {scripts : ι → Script C V α} {k : ι → α → Script C V β}
    (h : Issues scripts calls) (hk : ∀ a, Issues (fun i => k i a) calls') :
    Issues (fun i => scripts i >>= k i) (calls ++ calls') := by
  intro i issued b hpath
  obtain ⟨first, second, a, rfl, hfirst, hsecond⟩ := Script.Path.bind_iff.mp hpath
  rw [h i first a hfirst, hk a i second b hsecond]

end Issues

/-- A group that goes through in lockstep and ends on one common result. -/
def Uniform (combine : C → (ι → V) → V) (scripts : ι → Script C V α) : Prop :=
  ∃ calls results, Lockstep combine scripts calls results ∧ ∀ i j, results i = results j

namespace Uniform

variable {combine : C → (ι → V) → V}

/-- Parties that run the same script end alike. -/
theorem const (s : Script C V α) : Uniform combine fun _ : ι => s :=
  ⟨_, _, .const s, fun _ _ => rfl⟩

/-- A party on its own goes through. -/
theorem of_subsingleton [Subsingleton ι] (scripts : ι → Script C V α) :
    Uniform combine scripts := by
  cases isEmpty_or_nonempty ι with
  | inl hempty =>
    have hs : scripts = fun i => .done (hempty.elim i) := funext fun i => hempty.elim i
    rw [hs]
    exact ⟨[], _, .done _, fun i => hempty.elim i⟩
  | inr hι =>
    obtain ⟨i⟩ := hι
    have hs : scripts = fun _ => scripts i := funext fun j => by rw [Subsingleton.elim j i]
    rw [hs]
    exact const _

/-- A stretch whose results are known, then a uniform one. -/
theorem of_lockstep {scripts : ι → Script C V α} {k : ι → α → Script C V β} {calls : List C}
    {a : ι → α} (h : Lockstep combine scripts calls a)
    (hk : Uniform combine fun i => k i (a i)) : Uniform combine fun i => scripts i >>= k i := by
  obtain ⟨calls', b, hb, heq⟩ := hk
  exact ⟨calls ++ calls', b, h.bind hb, heq⟩

/-- Uniform stretches compose. -/
theorem bind {scripts : ι → Script C V α} {k : ι → α → Script C V β}
    (h : Uniform combine scripts) (hk : ∀ a, Uniform combine fun i => k i a) :
    Uniform combine fun i => scripts i >>= k i := by
  cases isEmpty_or_nonempty ι with
  | inl hempty => exact of_subsingleton _
  | inr hι =>
    obtain ⟨i⟩ := hι
    obtain ⟨calls, a, ha, heq⟩ := h
    refine of_lockstep ha ?_
    have hak : (fun j => k j (a j)) = fun j => k j (a i) := funext fun j => by rw [heq j i]
    rw [hak]
    exact hk (a i)

end Uniform

/-! ## Groups whose parties may raise -/

/-- **A group goes through**: in lockstep, and no party of it raises. -/
def Completes {ε : Type w} (combine : C → (ι → V) → V)
    (programs : ι → ExceptT ε (Script C V) α) (results : ι → α) : Prop :=
  ∃ calls, Lockstep combine (fun i => (programs i).run) calls fun i => .ok (results i)

namespace Completes

variable {ε : Type w} {combine : C → (ι → V) → V}

theorem pure (results : ι → α) :
    Completes combine (fun i => (Pure.pure (results i) : ExceptT ε (Script C V) α)) results :=
  ⟨[], .done _⟩

/-- A step on a party's own values, which returns on each. -/
theorem of_ok {outcomes : ι → Except ε α} {results : ι → α} (h : ∀ i, outcomes i = .ok (results i)) :
    Completes combine (fun i => (liftM (outcomes i) : ExceptT ε (Script C V) α)) results := by
  simp only [h]
  exact ⟨[], .done _⟩

/-- A stretch in which nothing is raised. -/
theorem lift {scripts : ι → Script C V α} {calls : List C} {results : ι → α}
    (h : Lockstep combine scripts calls results) :
    Completes combine (fun i => (ExceptT.lift (scripts i) : ExceptT ε (Script C V) α)) results := by
  refine ⟨calls ++ [], ?_⟩
  have hmap : ∀ i, (ExceptT.lift (scripts i) : ExceptT ε (Script C V) α).run =
      (scripts i >>= fun a => .done (.ok a)) := fun i => map_eq_pure_bind _ _
  simp only [hmap]
  exact h.bind (k := fun _ a => .done (Except.ok a)) (.done _)

/-- Two stretches, one after the other. -/
theorem bind {programs : ι → ExceptT ε (Script C V) α} {k : ι → α → ExceptT ε (Script C V) β}
    {a : ι → α} {b : ι → β} (h : Completes combine programs a)
    (hk : Completes combine (fun i => k i (a i)) b) :
    Completes combine (fun i => programs i >>= k i) b := by
  obtain ⟨calls, h⟩ := h
  obtain ⟨calls', hk⟩ := hk
  exact ⟨calls ++ calls', h.bind (k := fun i outcome => ExceptT.bindCont (k i) outcome) hk⟩

end Completes

end RapidLlm
