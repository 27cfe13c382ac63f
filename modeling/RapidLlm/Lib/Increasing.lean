import Mathlib.Data.List.Pairwise
import Mathlib.Data.List.Sort

/-!
# RapidLlm.Lib.Increasing

**Runs in an increasing list.** In a strictly increasing list of numbers a window whose ends
differ by its length less one is a run (`window_run`), and a run of numbers of the list is a
window of it (`exists_window`). Searching the ends of the windows finds the runs.
-/

namespace RapidLlm.Increasing

variable {l : List Nat} {i j n a b : Nat}

/-- An increasing list gains at least one with each place. -/
theorem add_le (hl : l.Pairwise (· < ·)) (ha : l[j]? = some a) :
    ∀ {i b : Nat}, l[j + i]? = some b → a + i ≤ b
  | 0, b, hb => by
      rw [Nat.add_zero, ha] at hb
      cases hb
      exact Nat.le_refl a
  | i + 1, b, hb => by
      obtain ⟨hlt, rfl⟩ := List.getElem?_eq_some_iff.mp hb
      have hbefore : j + i < l.length := Nat.lt_of_succ_lt hlt
      have ih := add_le hl ha (List.getElem?_eq_getElem hbefore)
      have hstep : l[j + i] < l[j + (i + 1)] :=
        List.pairwise_iff_getElem.mp hl _ _ hbefore hlt (Nat.lt_succ_self _)
      omega

/-- **A window with the ends of a run is a run.** -/
theorem window_run (hl : l.Pairwise (· < ·)) (hfirst : l[j]? = some a)
    (hlast : l[j + n]? = some (a + n)) (hi : i ≤ n) : l[j + i]? = some (a + i) := by
  have hlt : j + i < l.length :=
    Nat.lt_of_le_of_lt (Nat.add_le_add_left hi j) (List.getElem?_eq_some_iff.mp hlast).1
  have hat := List.getElem?_eq_getElem hlt
  have hge := add_le hl hfirst hat
  have hle := add_le hl hat (i := n - i) (by rw [Nat.add_assoc, Nat.add_sub_cancel' hi, hlast])
  rw [hat, Nat.le_antisymm (by omega) hge]

/-- **A run is a window.** -/
theorem exists_window (hl : l.Pairwise (· < ·)) (hrun : ∀ i ≤ n, a + i ∈ l) :
    ∃ j, l[j]? = some a ∧ l[j + n]? = some (a + n) := by
  obtain ⟨j, hj⟩ := List.mem_iff_getElem?.mp (hrun 0 (Nat.zero_le n))
  refine ⟨j, hj, ?_⟩
  induction n with
  | zero => exact hj
  | succ n ih =>
    have hlast := ih fun i hi => hrun i (Nat.le_succ_of_le hi)
    obtain ⟨k, hk⟩ := List.mem_iff_getElem?.mp (hrun (n + 1) (Nat.le_refl _))
    obtain ⟨hklt, hkeq⟩ := List.getElem?_eq_some_iff.mp hk
    obtain ⟨hjlt, hjeq⟩ := List.getElem?_eq_some_iff.mp hlast
    -- the next number of the list is neither before its place nor behind it
    have hafter : j + n < k := by
      by_contra hle
      have hge := add_le hl hk (i := j + n - k) (b := a + n)
        (by rw [Nat.add_sub_cancel' (Nat.not_lt.mp hle), hlast])
      omega
    have hnext : k = j + n + 1 := by
      have hgap := add_le hl hlast (i := k - (j + n)) (b := a + (n + 1))
        (by rw [Nat.add_sub_cancel' (Nat.le_of_lt hafter), hk])
      omega
    rw [← Nat.add_assoc, ← hnext, hk]

end RapidLlm.Increasing
