import Mathlib.Order.Defs.Unbundled
import Mathlib.Tactic.Common

/-!
# RapidLlm.Lib.Guarantee

**What a computation guarantees of a shared world.** An `Effect` runs over a world and may
raise; what it did to the world before it raised stays.

`Guarantees I R w x Q` speaks about one run of `x`, from `w`. If `w` keeps the invariant `I`,
the world it ends in keeps it and is `R`-related to `w`, whether `x` raised or not; and if it
returned, it returned something of which `Q` holds. The rules follow a `do` block line by
line: each line starts in the world the last one ended in, and what is known of an earlier
world is carried over by `R`.

Any world, any exceptions.
-/

namespace RapidLlm

universe u

/-- A computation over a world that may raise. -/
abbrev Effect (W ε : Type u) := ExceptT ε (StateM W)

namespace Effect

variable {W ε α β : Type u}

/-- What it returns or raises, and the world it ends in. -/
def runFrom (x : Effect W ε α) (w : W) : Except ε α × W := x.run.run w

/-- The world it ends in. -/
def after (x : Effect W ε α) (w : W) : W := (x.runFrom w).2

/-- `try: x finally: cleanup`. -/
def ensuring (x : Effect W ε α) (cleanup : Effect W ε PUnit) : Effect W ε α :=
  ExceptT.mk fun w =>
    let (result, w') := x.runFrom w
    match cleanup.runFrom w' with
    | (.ok _, w'') => (result, w'')
    | (.error e, w'') => (.error e, w'')

theorem runFrom_bind (x : Effect W ε α) (f : α → Effect W ε β) (w : W) :
    (x >>= f).runFrom w =
      match x.runFrom w with
      | (.ok a, w') => (f a).runFrom w'
      | (.error e, w') => (.error e, w') := by
  simp only [runFrom, ExceptT.run_bind, StateT.run_bind]
  change ((match (x.run.run w).1 with
    | .ok a => (f a).run
    | .error e => pure (.error e) : StateM W (Except ε β)).run (x.run.run w).2) = _
  rcases x.run.run w with ⟨_ | _, w'⟩ <;> rfl

/-- A cleanup that does not raise leaves the outcome alone. -/
theorem runFrom_ensuring {x : Effect W ε α} {cleanup : Effect W ε PUnit} {w : W}
    (h : (cleanup.runFrom (x.after w)).1 = .ok ⟨⟩) :
    (x.ensuring cleanup).runFrom w = ((x.runFrom w).1, cleanup.after (x.after w)) := by
  have hrun : (x.ensuring cleanup).runFrom w =
      match cleanup.runFrom (x.after w) with
      | (.ok _, w'') => ((x.runFrom w).1, w'')
      | (.error e, w'') => (.error e, w'') := rfl
  rcases hlast : cleanup.runFrom (x.after w) with ⟨_ | _, w''⟩
  · rw [hlast] at h
    cases h
  · have hafter : cleanup.after (x.after w) = w'' := by rw [after, hlast]
    rw [hrun, hlast, hafter]

/-- One run of a computation: `I` is kept, the world moves by `R`, and `Q` holds of what is
returned. -/
def Guarantees (I : W → Prop) (R : W → W → Prop) (w : W) (x : Effect W ε α)
    (Q : α → W → Prop) : Prop :=
  I w → I (x.after w) ∧ R w (x.after w) ∧ ∀ a, (x.runFrom w).1 = .ok a → Q a (x.after w)

namespace Guarantees

variable {I : W → Prop} {R : W → W → Prop} {w : W} {x : Effect W ε α} {Q Q' : α → W → Prop}

theorem mono (h : Guarantees I R w x Q) (hQ : ∀ a w', I w' → R w w' → Q a w' → Q' a w') :
    Guarantees I R w x Q' := by
  intro hI
  obtain ⟨hI', hR, hret⟩ := h hI
  exact ⟨hI', hR, fun a ha => hQ a _ hI' hR (hret a ha)⟩

theorem weaken {R' : W → W → Prop} (h : Guarantees I R w x Q) (hR : ∀ w', R w w' → R' w w') :
    Guarantees I R' w x Q := by
  intro hI
  obtain ⟨hI', hmoved, hret⟩ := h hI
  exact ⟨hI', hR _ hmoved, hret⟩

/-- A line that leaves the world alone. -/
theorem of_unchanged [Std.Refl R] (hworld : x.after w = w)
    (hret : ∀ a, (x.runFrom w).1 = .ok a → Q a w) : Guarantees I R w x Q := by
  intro hI
  rw [hworld]
  exact ⟨hI, refl w, hret⟩

theorem of_pure [Std.Refl R] {a : α} (h : I w → Q a w) :
    Guarantees I R w (pure a : Effect W ε α) Q := by
  intro hI
  refine ⟨hI, refl w, fun b hb => ?_⟩
  cases hb
  exact h hI

theorem of_throw [Std.Refl R] {e : ε} : Guarantees I R w (throw e : Effect W ε α) Q :=
  of_unchanged rfl fun _ h => (by cases h)

theorem of_lift [Std.Refl R] {r : Except ε α} (h : ∀ a, r = .ok a → Q a w) :
    Guarantees I R w (liftM r : Effect W ε α) Q :=
  of_unchanged rfl h

/-- A line that does not touch the world. -/
theorem lift_bind [Std.Refl R] {r : Except ε α} {f : α → Effect W ε β} {P : β → W → Prop}
    (h : ∀ a, r = .ok a → Guarantees I R w (f a) P) :
    Guarantees I R w ((liftM r : Effect W ε α) >>= f) P := by
  cases r with
  | ok a => exact h a rfl
  | error e => exact of_throw

/-- The invariant may be used at the start of a line. -/
theorem assuming (h : I w → Guarantees I R w x Q) : Guarantees I R w x Q :=
  fun hI => h hI hI

/-- A line that looks at the world. -/
theorem get_bind {f : W → Effect W ε β} {P : β → W → Prop} (h : Guarantees I R w (f w) P) :
    Guarantees I R w (get >>= f) P := h

theorem of_modify {f : W → W} {Q : PUnit → W → Prop} (hI : I w → I (f w)) (hR : I w → R w (f w))
    (hQ : I w → Q ⟨⟩ (f w)) : Guarantees I R w (modify f : Effect W ε PUnit) Q :=
  fun h => ⟨hI h, hR h, fun _ _ => hQ h⟩

/-- One line after another. -/
theorem bind [IsTrans W R] {f : α → Effect W ε β} {P : β → W → Prop} (hx : Guarantees I R w x Q)
    (hf : ∀ a w', R w w' → Q a w' → Guarantees I R w' (f a) P) :
    Guarantees I R w (x >>= f) P := by
  intro hI
  obtain ⟨hI', hR, hret⟩ := hx hI
  unfold after at hI' hR hret ⊢
  rw [runFrom_bind]
  rcases hrun : x.runFrom w with ⟨e | a, w'⟩
  · rw [hrun] at hI' hR
    exact ⟨hI', hR, fun _ h => (by cases h)⟩
  · rw [hrun] at hI' hR hret
    obtain ⟨hI'', hR', hret'⟩ := hf a w' hR (hret a rfl) hI'
    exact ⟨hI'', trans_of R hR hR', hret'⟩

end Guarantees

end Effect

end RapidLlm
