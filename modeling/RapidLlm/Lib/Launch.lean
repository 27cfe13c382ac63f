import Mathlib.Algebra.BigOperators.Group.List.Basic
import Mathlib.Data.List.Perm.Basic
import Mathlib.Data.List.Range
import Mathlib.Data.Option.NAry
import Mathlib.Logic.Function.Basic
import Mathlib.Tactic.Common

/-!
# RapidLlm.Lib.Launch

**What a grid of programs leaves in a buffer.** A launch is the stores of all its programs.
The device decides their order, so what a launch leaves is any `Outcome`: the stores carried
out in any order at all.

A cell that is given one value only has that value in every outcome (`Outcome.stored`), a cell
that is not stored to keeps the value it had (`Outcome.kept`). Any cells, any values; where a
value may be garbage, that is for the type of values to say.
-/

namespace RapidLlm

universe u v

variable {ι : Type u} {β : Type v} [DecidableEq ι]

/-- Carry out stores one after another. -/
def storeAll (stores : List (ι × β)) (buffer : ι → β) : ι → β :=
  stores.foldl (fun buffer store => Function.update buffer store.1 store.2) buffer

/-- The buffer after a launch. -/
def Outcome (stores : List (ι × β)) (before after : ι → β) : Prop :=
  ∃ order, order.Perm stores ∧ after = storeAll order before

variable {stores : List (ι × β)} {before after : ι → β} {i : ι} {value : β}

theorem outcome_exists (stores : List (ι × β)) (before : ι → β) :
    Outcome stores before (storeAll stores before) :=
  ⟨stores, .refl _, rfl⟩

theorem storeAll_kept (h : ∀ value, (i, value) ∉ stores) : storeAll stores before i = before i := by
  induction stores generalizing before with
  | nil => rfl
  | cons store stores ih =>
    have hi : i ≠ store.1 := by
      rintro rfl
      exact h store.2 List.mem_cons_self
    change storeAll stores (Function.update before store.1 store.2) i = _
    rw [ih fun value hmem => h value (List.mem_cons_of_mem _ hmem), Function.update_of_ne hi]

theorem storeAll_stored (hmem : (i, value) ∈ stores) (hone : ∀ other, (i, other) ∈ stores → other = value) :
    storeAll stores before i = value := by
  induction stores generalizing before with
  | nil => cases hmem
  | cons store stores ih =>
    change storeAll stores (Function.update before store.1 store.2) i = _
    by_cases hrest : ∃ other, (i, other) ∈ stores
    · obtain ⟨other, hother⟩ := hrest
      have heq := hone other (List.mem_cons_of_mem _ hother)
      subst heq
      exact ih hother fun other hmem => hone other (List.mem_cons_of_mem _ hmem)
    · have hstore : store = (i, value) := by
        rcases List.mem_cons.mp hmem with rfl | hmem
        · rfl
        · exact absurd ⟨value, hmem⟩ hrest
      subst hstore
      rw [storeAll_kept fun other hmem => hrest ⟨other, hmem⟩, Function.update_self]

/-- All stores to the cell agree. -/
theorem Outcome.stored (h : Outcome stores before after) (hmem : (i, value) ∈ stores)
    (hone : ∀ other, (i, other) ∈ stores → other = value) : after i = value := by
  obtain ⟨order, hperm, rfl⟩ := h
  exact storeAll_stored (hperm.mem_iff.mpr hmem) fun other hother =>
    hone other (hperm.mem_iff.mp hother)

/-- No store to the cell. -/
theorem Outcome.kept (h : Outcome stores before after) (hno : ∀ value, (i, value) ∉ stores) :
    after i = before i := by
  obtain ⟨order, hperm, rfl⟩ := h
  exact storeAll_kept fun value hmem => hno value (hperm.mem_iff.mp hmem)

/-! ### Programs that may not be defined -/

section Ran

variable {κ : Type*} {pids : List κ} {program : κ → Option (List (ι × β))}

/-- A launch of programs that are `none` where they load something nobody wrote. Then the buffer
may hold anything. -/
def Ran (pids : List κ) (program : κ → Option (List (ι × β))) (before after : ι → β) : Prop :=
  (∀ pid ∈ pids, (program pid).isSome) →
    Outcome (pids.flatMap fun pid => (program pid).getD []) before after

theorem ran_exists (pids : List κ) (program : κ → Option (List (ι × β))) (before : ι → β) :
    ∃ after, Ran pids program before after :=
  ⟨_, fun _ => outcome_exists _ before⟩

/-- A launch of programs that are all defined. -/
theorem Ran.outcome (h : Ran pids program before after) (stores : κ → List (ι × β))
    (hdef : ∀ pid ∈ pids, program pid = some (stores pid)) :
    Outcome (pids.flatMap stores) before after := by
  have hout := h fun pid hpid => by rw [hdef pid hpid]; rfl
  have heq : (pids.flatMap fun pid => (program pid).getD []) = pids.flatMap stores :=
    List.flatMap_congr fun pid hpid => by rw [hdef pid hpid, Option.getD_some]
  rwa [heq] at hout

end Ran

/-! ### Cells that may be unwritten -/

section Cells

variable {R : Type*}

/-- A loop that adds to an accumulator, all of whose terms were written. -/
theorem foldl_cells [AddCommMonoid R] {κ : Type*} {term : κ → R} {cell : κ → Option R}
    {xs : List κ} (acc : R) (h : ∀ x ∈ xs, cell x = some (term x)) :
    xs.foldl (fun acc x => Option.map₂ (· + ·) acc (cell x)) (some acc) =
      some (acc + (xs.map term).sum) := by
  induction xs generalizing acc with
  | nil => simp
  | cons x xs ih =>
    rw [List.foldl_cons, h x List.mem_cons_self, Option.map₂_some_some,
      ih _ fun y hy => h y (List.mem_cons_of_mem _ hy), List.map_cons, List.sum_cons, add_assoc]

/-- The values read from cells that may be unwritten. -/
theorem mapM_cells {κ α : Type*} {cell : κ → Option α} {value : κ → α} {xs : List κ}
    (h : ∀ x ∈ xs, cell x = some (value x)) : xs.mapM cell = some (xs.map value) := by
  induction xs with
  | nil => rfl
  | cons x xs ih =>
    rw [List.mapM_cons, h x List.mem_cons_self, ih fun y hy => h y (List.mem_cons_of_mem _ hy)]
    rfl

end Cells

end RapidLlm
