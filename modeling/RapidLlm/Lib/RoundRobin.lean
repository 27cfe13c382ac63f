import Mathlib.Algebra.BigOperators.Group.Finset.Piecewise
import Mathlib.Data.List.GetD
import Mathlib.Tactic.Common

/-!
# RapidLlm.Lib.RoundRobin

**Positions dealt round-robin.** Of the positions `0, 1, 2, …` party `rank` of `size`
gets those with `p % size = rank`, and `share size rank n` counts how many of the
first `n` that are. The positions of a party are an arithmetic progression
(`filter_range`), and the shares of all parties add up to `n` (`sum_share`).

`getD_flatMap` is the other half of such layouts: where the `k`-th entry sits in a
list of equally long pieces.
-/

namespace RapidLlm.RoundRobin

universe u v

variable {size rank n : Nat}

/-- How many of the first `n` positions are dealt to `rank`. -/
def share (size rank n : Nat) : Nat := (n + size - 1 - rank) / size

/-- The position after the first `n` is dealt to `rank` when these end one short of a
round of its own. -/
theorem dvd_iff (hrank : rank < size) : size ∣ n + size - rank ↔ n % size = rank := by
  have hsize : 0 < size := by omega
  have hmod : n % size < size := Nat.mod_lt n hsize
  have hsplit : n + size - rank = size * (n / size) + (n % size + size - rank) := by
    have := Nat.div_add_mod n size
    omega
  rw [hsplit, Nat.dvd_add_right (Nat.dvd_mul_right size _)]
  constructor
  · rintro ⟨k, hk⟩
    -- the remainder lies strictly between 0 and 2 * size
    have hk1 : k = 1 := by
      rcases k with _ | _ | k
      · omega
      · rfl
      · have : size * (k + 1 + 1) = size * k + size + size := by
          rw [Nat.mul_succ, Nat.mul_succ]
        omega
    subst hk1
    omega
  · intro h
    exact ⟨1, by omega⟩

@[simp] theorem share_zero (hrank : rank < size) : share size rank 0 = 0 := by
  rw [share, Nat.div_eq_of_lt]
  omega

theorem share_succ (hrank : rank < size) :
    share size rank (n + 1) = share size rank n + if n % size = rank then 1 else 0 := by
  have hstep : n + 1 + size - 1 - rank = (n + size - 1 - rank) + 1 := by omega
  have hnext : n + size - 1 - rank + 1 = n + size - rank := by omega
  rw [share, hstep, Nat.succ_div, hnext, share]
  simp only [dvd_iff hrank]

theorem share_mono {m : Nat} (h : m ≤ n) : share size rank m ≤ share size rank n :=
  Nat.div_le_div_right (by omega)

theorem share_min (m : Nat) :
    share size rank (min m n) = min (share size rank m) (share size rank n) := by
  rcases Nat.le_total m n with h | h
  · rw [Nat.min_eq_left h, Nat.min_eq_left (share_mono h)]
  · rw [Nat.min_eq_right h, Nat.min_eq_right (share_mono h)]

/-- The next position dealt to a party follows those it has. -/
theorem at_share (hrank : rank < size) (h : n % size = rank) :
    rank + share size rank n * size = n := by
  have hdiv := Nat.div_add_mod n size
  have hshare : share size rank n = n / size := by
    rw [share]
    have hn : n + size - 1 - rank = size * (n / size) + (size - 1) := by omega
    have hlt : size - 1 < size := by omega
    rw [hn, Nat.mul_add_div (Nat.zero_lt_of_lt hrank), Nat.div_eq_of_lt hlt, Nat.add_zero]
  rw [hshare, Nat.mul_comm]
  omega

/-- The positions dealt to a party are `rank`, `rank + size`, `rank + 2 * size`, … -/
theorem filter_range (hrank : rank < size) (n : Nat) :
    (List.range n).filter (fun p => p % size = rank) =
      (List.range (share size rank n)).map fun j => rank + j * size := by
  induction n with
  | zero => simp [hrank]
  | succ n ih =>
    rw [List.range_succ, List.filter_append, ih, share_succ hrank]
    by_cases h : n % size = rank
    · have hlast : rank + share size rank n * size = n := at_share hrank h
      simp [h, List.range_succ, hlast]
    · simp [h]

/-- Nothing is dealt twice and nothing is left over. -/
theorem sum_share (hsize : 0 < size) (n : Nat) :
    ∑ rank ∈ Finset.range size, share size rank n = n := by
  induction n with
  | zero =>
    exact Finset.sum_eq_zero fun rank hrank => share_zero (Finset.mem_range.mp hrank)
  | succ n ih =>
    have hstep : ∀ rank ∈ Finset.range size, share size rank (n + 1) =
        share size rank n + if n % size = rank then 1 else 0 :=
      fun rank hrank => share_succ (Finset.mem_range.mp hrank)
    rw [Finset.sum_congr rfl hstep, Finset.sum_add_distrib, ih, Finset.sum_ite_eq,
      if_pos (Finset.mem_range.mpr (Nat.mod_lt n hsize))]

/-- The positions of a share are among the first `n`. -/
theorem position_lt (hrank : rank < size) {j : Nat} (h : j < share size rank n) :
    rank + j * size < n := by
  have hle : (j + 1) * size ≤ n + size - 1 - rank :=
    (Nat.le_div_iff_mul_le (by omega)).mp h
  rw [Nat.succ_mul] at hle
  omega

/-- Of two parties the earlier has no fewer. -/
theorem share_anti {rank' : Nat} (h : rank ≤ rank') : share size rank' n ≤ share size rank n :=
  Nat.div_le_div_right (by omega)

/-- A sum over the positions, party by party. -/
theorem sum_deal {M : Type*} [AddCommMonoid M] (hsize : 0 < size) (f : Nat → M) (n : Nat) :
    ∑ rank ∈ Finset.range size, ∑ j ∈ Finset.range (share size rank n), f (rank + j * size) =
      ∑ k ∈ Finset.range n, f k := by
  induction n with
  | zero =>
    exact Finset.sum_eq_zero fun rank hrank => by rw [share_zero (Finset.mem_range.mp hrank)]; rfl
  | succ n ih =>
    have hstep : ∀ rank ∈ Finset.range size,
        ∑ j ∈ Finset.range (share size rank (n + 1)), f (rank + j * size) =
          ∑ j ∈ Finset.range (share size rank n), f (rank + j * size) +
            if n % size = rank then f n else 0 := fun rank hrank => by
      rw [share_succ (Finset.mem_range.mp hrank)]
      split
      next h => rw [Finset.sum_range_succ, at_share (Finset.mem_range.mp hrank) h]
      next => rw [Nat.add_zero, add_zero]
    rw [Finset.sum_congr rfl hstep, Finset.sum_add_distrib, ih, Finset.sum_range_succ,
      Finset.sum_ite_eq, if_pos (Finset.mem_range.mpr (Nat.mod_lt n hsize))]

/-- Entry `k` of equally long pieces is entry `k % size` of piece `k / size`. -/
theorem getD_flatMap {α : Type u} {β : Type v} {f : α → List β} {width : Nat} (d : α) (z : β)
    {xs : List α} {k : Nat} (hwidth : ∀ a ∈ xs, (f a).length = width)
    (h : k < xs.length * width) :
    (xs.flatMap f).getD k z = (f (xs.getD (k / width) d)).getD (k % width) z := by
  induction xs generalizing k with
  | nil => exact absurd h (by simp)
  | cons x xs ih =>
    have hpos : 0 < width := by
      rcases Nat.eq_zero_or_pos width with h0 | h0
      · rw [h0, Nat.mul_zero] at h
        exact absurd h (Nat.not_lt_zero k)
      · exact h0
    have hx : (f x).length = width := hwidth x (List.mem_cons_self ..)
    rw [List.flatMap_cons]
    by_cases hk : k < width
    · have hleft : k < (f x).length := hx.symm ▸ hk
      rw [List.getD_append _ _ _ _ hleft, Nat.div_eq_of_lt hk, Nat.mod_eq_of_lt hk,
        List.getD_cons_zero]
    · have hge : width ≤ k := Nat.le_of_not_lt hk
      rw [List.length_cons, Nat.succ_mul] at h
      rw [List.getD_append_right _ _ _ _ (by rw [hx]; exact hge), hx,
        ih (fun a ha => hwidth a (.tail x ha)) (by omega), Nat.div_eq_sub_div hpos hge,
        List.getD_cons_succ, Nat.mod_eq_sub_mod hge]

end RapidLlm.RoundRobin
