import Mathlib.Algebra.Order.BigOperators.Group.List
import Mathlib.Data.List.Sort
import Mathlib.Tactic.Common

/-!
# RapidLlm.Lib.TopPicks

**The best of a pool**: `IsTop value pool picks` says that `picks` are members of `pool` in
descending order of `value`, and that none left out beats one of them. Which of several equal
members are picked is left open.

The best of the bests is the best of all (`IsTop.of_slices`), as long as every part offers as
many as are picked in the end. Picks go on to an order of the whole pool (`IsTop.exists_order`),
so their values are the first of its values (`IsTop.map_eq_take`); and of values that are not
negative, those whose predecessors do not yet exceed a threshold are the shortest prefix that
does (`exists_shortest`).
-/

namespace RapidLlm

universe u v w

variable {ι : Type u} {K : Type v} [LinearOrder K] {value : ι → K} {pool picks : List ι}

/-- The picks of a pool, best first. -/
structure IsTop (value : ι → K) (pool picks : List ι) : Prop where
  nodup : picks.Nodup
  subset : picks ⊆ pool
  sorted : picks.Pairwise fun i j => value j ≤ value i
  rest : ∀ i ∈ pool, i ∉ picks → ∀ j ∈ picks, value i ≤ value j

/-- Sorting by value sorts by value. -/
theorem pairwise_descending (value : ι → K) (pool : List ι) :
    (pool.mergeSort fun i j => decide (value j ≤ value i)).Pairwise
      fun i j => value j ≤ value i := by
  have hsorted : (pool.mergeSort fun i j => decide (value j ≤ value i)).Pairwise
      fun i j => decide (value j ≤ value i) = true := by
    refine List.pairwise_mergeSort (fun a b c hab hbc => ?_) (fun a b => ?_) pool
    · exact decide_eq_true (le_trans (of_decide_eq_true hbc) (of_decide_eq_true hab))
    · simpa using le_total (value b) (value a)
  exact hsorted.imp of_decide_eq_true

namespace IsTop

/-- Picks of a pool are picks of its image, where the order is kept. -/
theorem map {κ : Type w} {value' : κ → K} {f : ι → κ} (h : IsTop value pool picks)
    (hinj : ∀ i ∈ pool, ∀ j ∈ pool, f i = f j → i = j)
    (hmono : ∀ i ∈ pool, ∀ j ∈ pool, value i ≤ value j → value' (f i) ≤ value' (f j)) :
    IsTop value' (pool.map f) (picks.map f) where
  nodup := h.nodup.map_on fun i hi j hj => hinj i (h.subset hi) j (h.subset hj)
  subset := List.map_subset f h.subset
  sorted := List.pairwise_map.mpr (h.sorted.imp_of_mem fun hi hj hle =>
    hmono _ (h.subset hj) _ (h.subset hi) hle)
  rest := by
    intro a ha hnot b hb
    obtain ⟨i, hi, rfl⟩ := List.mem_map.mp ha
    obtain ⟨j, hj, rfl⟩ := List.mem_map.mp hb
    exact hmono i hi j (h.subset hj)
      (h.rest i hi (fun hmem => hnot (List.mem_map_of_mem hmem)) j hj)

/-- Picks by one value are picks by another of the same order. -/
theorem reorder {value' : ι → K} (h : IsTop value pool picks)
    (hmono : ∀ i ∈ pool, ∀ j ∈ pool, value i ≤ value j → value' i ≤ value' j) :
    IsTop value' pool picks where
  nodup := h.nodup
  subset := h.subset
  sorted := h.sorted.imp_of_mem fun hi hj hle => hmono _ (h.subset hj) _ (h.subset hi) hle
  rest := fun i hi hnot j hj => hmono i hi j (h.subset hj) (h.rest i hi hnot j hj)

/-- Only the members of a pool count. -/
theorem of_mem_iff {pool' : List ι} (h : IsTop value pool picks)
    (hmem : ∀ i, i ∈ pool ↔ i ∈ pool') : IsTop value pool' picks where
  nodup := h.nodup
  subset := fun i hi => (hmem i).mp (h.subset hi)
  sorted := h.sorted
  rest := fun i hi hnot j hj => h.rest i ((hmem i).mpr hi) hnot j hj

/-- Picks of a pool are picks of any part of it that has them. -/
theorem restrict {pool' : List ι} (h : IsTop value pool picks) (hpicks : picks ⊆ pool')
    (hpool : pool' ⊆ pool) : IsTop value pool' picks where
  nodup := h.nodup
  subset := hpicks
  sorted := h.sorted
  rest := fun i hi hnot j hj => h.rest i (hpool hi) hnot j hj

/-- **The best of the bests.** Every part of the pool offers its best `k`, or all it has; the
best of these, `k` of them at most, are the best of the pool. -/
theorem of_slices {κ : Type w} {parts : List κ} {pools offers : κ → List ι} {k : Nat}
    (hoffers : ∀ r ∈ parts, IsTop value (pools r) (offers r))
    (hcount : ∀ r ∈ parts, (offers r).length = min k (pools r).length)
    (h : IsTop value (parts.flatMap offers) picks) (hle : picks.length ≤ k) :
    IsTop value (parts.flatMap pools) picks where
  nodup := h.nodup
  subset := by
    intro i hi
    obtain ⟨r, hr, hoffer⟩ := List.mem_flatMap.mp (h.subset hi)
    exact List.mem_flatMap.mpr ⟨r, hr, (hoffers r hr).subset hoffer⟩
  sorted := h.sorted
  rest := by
    intro i hi hnot j hj
    obtain ⟨r, hr, hpool⟩ := List.mem_flatMap.mp hi
    by_cases hoffer : i ∈ offers r
    · exact h.rest i (List.mem_flatMap.mpr ⟨r, hr, hoffer⟩) hnot j hj
    by_contra hlt
    rw [not_le] at hlt
    -- a part that keeps `i` back offers `k` that beat `j`, so `j` is one too many
    have hbeat : ∀ p ∈ offers r, value j < value p := fun p hp =>
      lt_of_lt_of_le hlt ((hoffers r hr).rest i hpool hoffer p hp)
    have hpicked : offers r ⊆ picks := by
      intro p hp
      by_contra hout
      exact absurd (h.rest p (List.mem_flatMap.mpr ⟨r, hr, hp⟩) hout j hj)
        (not_le.mpr (hbeat p hp))
    have hmore : (i :: offers r).length ≤ (pools r).length :=
      (List.nodup_cons.mpr ⟨hoffer, (hoffers r hr).nodup⟩).length_le_of_subset
        (List.cons_subset.mpr ⟨hpool, (hoffers r hr).subset⟩)
    have hout : j ∉ offers r := fun hmem => lt_irrefl _ (hbeat j hmem)
    have hfull : (j :: offers r).length ≤ picks.length :=
      (List.nodup_cons.mpr ⟨hout, (hoffers r hr).nodup⟩).length_le_of_subset
        (List.cons_subset.mpr ⟨hj, hpicked⟩)
    rw [List.length_cons] at hmore hfull
    have hk := hcount r hr
    omega

/-- Picks go on to a descending order of the pool. -/
theorem exists_order (h : IsTop value pool picks) (hnodup : pool.Nodup) :
    ∃ rest, (picks ++ rest).Perm pool ∧
      (picks ++ rest).Pairwise fun i j => value j ≤ value i := by
  classical
  let left := pool.filter fun i => decide (i ∉ picks)
  let rest := left.mergeSort fun i j => decide (value j ≤ value i)
  have hrest : rest.Perm left := List.mergeSort_perm _ _
  have hmem : ∀ i, i ∈ rest ↔ i ∈ pool ∧ i ∉ picks := fun i => by
    rw [hrest.mem_iff, List.mem_filter, decide_eq_true_eq]
  refine ⟨rest, ?_, ?_⟩
  · refine (List.perm_ext_iff_of_nodup ?_ hnodup).mpr fun i => ?_
    · refine h.nodup.append (hrest.nodup_iff.mpr (hnodup.filter _)) fun i hi hi' => ?_
      exact ((hmem i).mp hi').2 hi
    · rw [List.mem_append, hmem]
      constructor
      · rintro (hi | hi)
        · exact h.subset hi
        · exact hi.1
      · intro hi
        by_cases hpick : i ∈ picks
        · exact .inl hpick
        · exact .inr ⟨hi, hpick⟩
  · refine List.pairwise_append.mpr ⟨h.sorted, ?_, fun i hi j hj => ?_⟩
    · exact pairwise_descending value left
    · obtain ⟨hpool, hout⟩ := (hmem j).mp hj
      exact h.rest j hpool hout i hi

/-- The values of picks are the first of all the values. -/
theorem map_eq_take (h : IsTop value pool picks) (hnodup : pool.Nodup) :
    picks.map value =
      ((pool.map value).mergeSort fun a b => decide (b ≤ a)).take picks.length := by
  obtain ⟨rest, hperm, hsorted⟩ := h.exists_order hnodup
  have hsort : ((pool.map value).mergeSort fun a b => decide (b ≤ a)) =
      (picks ++ rest).map value := by
    have hleft : ((pool.map value).mergeSort fun a b => decide (b ≤ a)).Pairwise
        fun a b => b ≤ a := pairwise_descending id (pool.map value)
    have hright : ((picks ++ rest).map value).Pairwise fun a b => b ≤ a :=
      List.pairwise_map.mpr hsorted
    exact List.Perm.eq_of_pairwise (fun a b _ _ hab hba => le_antisymm hba hab) hleft hright
      ((List.mergeSort_perm _ _).trans (hperm.map value).symm)
  rw [hsort, List.map_append, ← List.length_map (f := value), List.take_left]

end IsTop

/-- **The shortest prefix past a threshold.** Of values that are not negative, an entry has at
most the threshold before it exactly where it is in the shortest prefix that exceeds it. -/
theorem exists_shortest [AddCommMonoid K] [IsOrderedAddMonoid K] {values : List K} {threshold : K}
    (hnonneg : ∀ a ∈ values, 0 ≤ a) (hsum : threshold < values.sum) :
    ∃ m ≤ values.length, threshold < (values.take m).sum ∧
      (∀ n < m, (values.take n).sum ≤ threshold) ∧
      ∀ n, (values.take n).sum ≤ threshold ↔ n < m := by
  classical
  have hexists : ∃ m, threshold < (values.take m).sum :=
    ⟨values.length, by rwa [List.take_length]⟩
  have hmono : ∀ m n, m ≤ n → (values.take m).sum ≤ (values.take n).sum := by
    intro m n hle
    rw [← Nat.add_sub_cancel' hle, List.take_add, List.sum_append]
    refine le_add_of_nonneg_right (List.sum_nonneg fun a ha => hnonneg a ?_)
    exact List.mem_of_mem_drop (List.mem_of_mem_take ha)
  have hleast := Nat.find_spec hexists
  have hbelow : ∀ n < Nat.find hexists, (values.take n).sum ≤ threshold := fun n hn =>
    not_lt.mp (Nat.find_min hexists hn)
  refine ⟨Nat.find hexists, Nat.find_min' hexists (by rwa [List.take_length]), hleast, hbelow,
    fun n => ⟨fun hle => ?_, hbelow n⟩⟩
  by_contra hge
  exact absurd (lt_of_lt_of_le hleast (hmono _ n (not_lt.mp hge))) (not_lt.mpr hle)

end RapidLlm
