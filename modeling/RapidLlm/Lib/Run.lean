import Mathlib.Logic.Relation
import RapidLlm.Lib.Outcome

/-!
# RapidLlm.Lib.Run

**Runs of a labelled step relation**, and the two rules every safety proof of
this development goes through: an invariant that one step preserves holds at
the end of every run (`Run.invariant`), and a run of a function that may raise is
what folding it computes (`Run.of_foldlM`).

The module names nothing of the engine: `σ` is any state, `α` any label, and a
restricted run is a run of `Guarded step cond`.
-/

namespace RapidLlm

universe u v

variable {σ : Type u} {α : Type v}

/-- A finite run of `step` from a state, its labels in order. -/
inductive Run (step : σ → α → σ → Prop) (s : σ) : List α → σ → Prop
  | nil : Run step s [] s
  | snoc {as : List α} {a : α} {t u : σ} :
      Run step s as t → step t a u → Run step s (as ++ [a]) u

/-- The steps of `step` whose pre-state and label satisfy `cond`. -/
def Guarded (step : σ → α → σ → Prop) (cond : σ → α → Prop) (s : σ) (a : α) (t : σ) : Prop :=
  step s a t ∧ cond s a

namespace Run

variable {step : σ → α → σ → Prop} {s t u : σ} {as bs : List α} {a : α}

/-- **The invariant rule.** What every step preserves, every run preserves. -/
theorem invariant {I : σ → Prop} (hstep : ∀ s a t, I s → step s a t → I t)
    (h : Run step s as t) (hs : I s) : I t := by
  induction h with
  | nil => exact hs
  | snoc _ hlast ih => exact hstep _ _ _ ih hlast

/-- A run of weaker steps: every step of the run may be replaced by what it implies. -/
theorem mono {step' : σ → α → σ → Prop} (hstep : ∀ s a t, step s a t → step' s a t)
    (h : Run step s as t) : Run step' s as t := by
  induction h with
  | nil => exact .nil
  | snoc _ hlast ih => exact .snoc ih (hstep _ _ _ hlast)

/-- A run restricted by a guard is a run. -/
theorem of_guarded {cond : σ → α → Prop} (h : Run (Guarded step cond) s as t) :
    Run step s as t :=
  h.mono fun _ _ _ hst => hst.1

/-- A run whose labels the guard always lets through. -/
theorem guarded {cond : σ → α → Prop} (h : Run step s as t) :
    (∀ s, ∀ a ∈ as, cond s a) → Run (Guarded step cond) s as t := by
  induction h with
  | nil => exact fun _ => .nil
  | snoc _ hlast ih =>
    intro hcond
    exact .snoc (ih fun s a ha => hcond s a (List.mem_append_left _ ha))
      ⟨hlast, hcond _ _ (List.mem_append_right _ (List.mem_singleton_self _))⟩

/-- **Guards that agree wherever an invariant holds** restrict runs alike. -/
theorem guarded_iff {I : σ → Prop} (hstep : ∀ s a t, I s → step s a t → I t)
    {P Q : σ → α → Prop} (hiff : ∀ s a t, I s → step s a t → (P s a ↔ Q s a)) (hs : I s) :
    Run (Guarded step P) s as t ↔ Run (Guarded step Q) s as t := by
  have hone : ∀ {P Q : σ → α → Prop}, (∀ s a t, I s → step s a t → P s a → Q s a) →
      Run (Guarded step P) s as t → Run (Guarded step Q) s as t := by
    intro P Q himp hrun
    induction hrun with
    | nil => exact .nil
    | snoc hrest hlast ih =>
      have hI := hrest.of_guarded.invariant hstep hs
      exact .snoc ih ⟨hlast.1, himp _ _ _ hI hlast.1 hlast.2⟩
  exact ⟨hone fun s a t h hst => (hiff s a t h hst).mp,
    hone fun s a t h hst => (hiff s a t h hst).mpr⟩

/-- **Guards that agree on an invariant they both keep** restrict runs alike. -/
theorem guarded_iff_of_kept {I : σ → Prop} {P Q : σ → α → Prop}
    (hkeep : ∀ s a t, I s → step s a t → P s a → I t)
    (hiff : ∀ s a t, I s → step s a t → (P s a ↔ Q s a)) (hs : I s) :
    Run (Guarded step P) s as t ↔ Run (Guarded step Q) s as t := by
  have hone : ∀ {P Q : σ → α → Prop}, (∀ s a t, I s → step s a t → P s a → I t ∧ Q s a) →
      Run (Guarded step P) s as t → Run (Guarded step Q) s as t ∧ I t := by
    intro P Q himp hrun
    induction hrun with
    | nil => exact ⟨.nil, hs⟩
    | snoc _ hlast ih =>
      obtain ⟨hI, hQ⟩ := himp _ _ _ ih.2 hlast.1 hlast.2
      exact ⟨.snoc ih.1 ⟨hlast.1, hQ⟩, hI⟩
  refine ⟨fun h => (hone (fun s a t hI hst hP => ?_) h).1,
    fun h => (hone (fun s a t hI hst hQ => ?_) h).1⟩
  · exact ⟨hkeep s a t hI hst hP, (hiff s a t hI hst).mp hP⟩
  · have hP := (hiff s a t hI hst).mpr hQ
    exact ⟨hkeep s a t hI hst hP, hP⟩

/-- One step is a run. -/
theorem single (h : step s a t) : Run step s [a] t :=
  show Run step s ([] ++ [a]) t from .snoc .nil h

/-- The last step of a run. -/
theorem snoc_iff : Run step s (as ++ [a]) u ↔ ∃ t, Run step s as t ∧ step t a u := by
  constructor
  · intro h
    generalize hbs : as ++ [a] = bs at h
    cases h with
    | nil => simp at hbs
    | snoc hrest hlast =>
      obtain ⟨rfl, heq⟩ := List.append_inj' hbs rfl
      cases heq
      exact ⟨_, hrest, hlast⟩
  · rintro ⟨t, hrest, hlast⟩
    exact hrest.snoc hlast

theorem single_iff : Run step s [a] t ↔ step s a t := by
  constructor
  · intro h
    obtain ⟨u, hu, hlast⟩ := snoc_iff.mp (show Run step s ([] ++ [a]) t from h)
    generalize hbs : ([] : List α) = bs at hu
    cases hu with
    | nil => exact hlast
    | snoc _ _ => simp at hbs
  · exact single

/-- Steps that are a function of state and label run to one state. -/
theorem unique (hfun : ∀ s a t u, step s a t → step s a u → t = u)
    (h : Run step s as t) (h' : Run step s as u) : t = u := by
  induction h generalizing u with
  | nil =>
    generalize hbs : ([] : List α) = bs at h'
    cases h' with
    | nil => rfl
    | snoc _ _ => simp at hbs
  | snoc _ hlast ih =>
    obtain ⟨v, hv, hlast'⟩ := snoc_iff.mp h'
    rw [← ih hv] at hlast'
    exact hfun _ _ _ _ hlast hlast'

/-- **A guard that a property needs of each step.** Where the steps are a function, and a step
keeps the property exactly when it meets the guard, the property holds at the end of a run
exactly when every step of the run met it. -/
theorem holds_iff_guarded {I P : σ → Prop} {cond : σ → α → Prop}
    (hfun : ∀ s a t u, step s a t → step s a u → t = u)
    (hkeep : ∀ s a t, I s → step s a t → I t)
    (hiff : ∀ s a t, I s → step s a t → (P t ↔ P s ∧ cond s a)) (hs : I s) (hP : P s)
    (h : Run step s as t) : P t ↔ Run (Guarded step cond) s as t := by
  induction h with
  | nil => exact ⟨fun _ => .nil, fun _ => hP⟩
  | @snoc as a t u hrest hlast ih =>
    rw [hiff t a u (hrest.invariant hkeep hs) hlast, ih]
    constructor
    · rintro ⟨hrun, hcond⟩
      exact hrun.snoc ⟨hlast, hcond⟩
    · intro hrun
      obtain ⟨t', hrun', hstep⟩ := snoc_iff.mp hrun
      obtain rfl := hrest.unique hfun hrun'.of_guarded
      exact ⟨hrun', hstep.2⟩

/-- Runs compose. -/
theorem trans (h₁ : Run step s as t) (h₂ : Run step t bs u) : Run step s (as ++ bs) u := by
  induction h₂ with
  | nil => simpa using h₁
  | snoc _ hlast ih => rw [← List.append_assoc]; exact ih.snoc hlast

/-- Folding a function that may raise runs it step by step. -/
theorem of_foldlM {ε : Type u} {f : σ → α → Except ε σ} : ∀ {as : List α} {s t : σ},
    as.foldlM f s = .ok t → Run (fun s a t => f s a = .ok t) s as t
  | [], s, t, h => by cases h; exact .nil
  | a :: as, s, t, h => by
      rw [List.foldlM_cons, bind_eq_ok] at h
      obtain ⟨u, hu, hrest⟩ := h
      have hone : Run (fun s a t => f s a = .ok t) s [a] u := single hu
      exact hone.trans (of_foldlM hrest)

end Run

end RapidLlm
