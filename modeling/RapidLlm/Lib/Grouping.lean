import Mathlib.Data.List.Nodup
import Mathlib.Data.List.Perm.Basic

/-!
# RapidLlm.Lib.Grouping

**Numbers dealt into groups.** A list of groups is read through two functions: which group a
number is in, and where in it. `Grouping` says that the functions are right about every number
below a bound and that nothing else is in a group; it makes the groups a partition
(`Grouping.perm`, `Grouping.eq_of_mem`). `runs` cuts the numbers into consecutive groups of one
width, and nested loops over two indices enumerate what one loop over their pair does
(`flatMap_range`).
-/

namespace RapidLlm

universe u

/-- A quotient and a remainder are read back from the number they make. -/
theorem div_mod_of_lt {q a width : Nat} (h : a < width) :
    (q * width + a) / width = q ∧ (q * width + a) % width = a := by
  have hwidth : 0 < width := Nat.zero_lt_of_lt h
  rw [Nat.mul_comm, Nat.mul_add_div hwidth, Nat.div_eq_of_lt h, Nat.mul_add_mod,
    Nat.mod_eq_of_lt h]
  exact ⟨rfl, rfl⟩

/-- Number `r < n` is in group `index r`, at place `place r`, and nowhere else. -/
structure Grouping (groups : List (List Nat)) (n : Nat) (index place : Nat → Nat) : Prop where
  find : ∀ {r : Nat}, r < n → ∃ group, groups[index r]? = some group ∧ group[place r]? = some r
  only : ∀ {g i r : Nat} {group : List Nat}, groups[g]? = some group → group[i]? = some r →
    r < n ∧ index r = g ∧ place r = i

namespace Grouping

variable {groups : List (List Nat)} {group group' : List Nat} {n r count width : Nat}
  {index place : Nat → Nat}

theorem lt_of_mem (h : Grouping groups n index place) (hgroup : group ∈ groups)
    (hr : r ∈ group) : r < n := by
  obtain ⟨g, hg⟩ := List.mem_iff_getElem?.mp hgroup
  obtain ⟨i, hi⟩ := List.mem_iff_getElem?.mp hr
  exact (h.only hg hi).1

theorem exists_mem (h : Grouping groups n index place) (hr : r < n) :
    ∃ group ∈ groups, r ∈ group := by
  obtain ⟨group, hgroup, hplace⟩ := h.find hr
  exact ⟨group, List.mem_of_getElem? hgroup, List.mem_of_getElem? hplace⟩

/-- A number stands in its group where `place` says. -/
theorem getElem?_place (h : Grouping groups n index place) (hgroup : group ∈ groups)
    (hr : r ∈ group) : group[place r]? = some r := by
  obtain ⟨g, hg⟩ := List.mem_iff_getElem?.mp hgroup
  obtain ⟨i, hi⟩ := List.mem_iff_getElem?.mp hr
  rw [(h.only hg hi).2.2, hi]

/-- **The groups are a partition**: together they hold every number once. -/
theorem perm (h : Grouping groups n index place) : groups.flatten.Perm (List.range n) := by
  refine (List.perm_ext_iff_of_nodup ?_ List.nodup_range).mpr fun r => ?_
  · refine List.nodup_flatten.mpr ⟨fun group hgroup => ?_, ?_⟩
    · obtain ⟨g, hg⟩ := List.mem_iff_getElem?.mp hgroup
      refine List.nodup_iff_injective_getElem.mpr fun i j hij => Fin.ext ?_
      have hi := (h.only hg (List.getElem?_eq_getElem i.isLt)).2.2
      have hj := (h.only hg (List.getElem?_eq_getElem j.isLt)).2.2
      rw [← hi, ← hj]
      exact congrArg place hij
    · refine List.pairwise_iff_getElem.mpr fun i j hi hj hlt r hri hrj => ?_
      obtain ⟨a, ha⟩ := List.mem_iff_getElem?.mp hri
      obtain ⟨b, hb⟩ := List.mem_iff_getElem?.mp hrj
      have hleft := (h.only (List.getElem?_eq_getElem hi) ha).2.1
      have hright := (h.only (List.getElem?_eq_getElem hj) hb).2.1
      omega
  · rw [List.mem_flatten, List.mem_range]
    constructor
    · rintro ⟨group, hgroup, hr⟩
      exact h.lt_of_mem hgroup hr
    · exact h.exists_mem

theorem getElem?_map_range {α : Type u} {f : Nat → α} {k : Nat} {a : α} :
    ((List.range n).map f)[k]? = some a ↔ k < n ∧ f k = a := by
  rw [List.getElem?_map]
  by_cases hk : k < n
  · rw [List.getElem?_range hk, Option.map_some, Option.some.injEq]
    exact (and_iff_right hk).symm
  · rw [List.getElem?_eq_none (by simpa using hk)]
    simp [hk]

/-- Groups of one width, given by what stands at each place. -/
theorem of_elem {elem : Nat → Nat → Nat}
    (hfind : ∀ r < n, index r < count ∧ place r < width ∧ elem (index r) (place r) = r)
    (honly : ∀ g < count, ∀ i < width,
      elem g i < n ∧ index (elem g i) = g ∧ place (elem g i) = i) :
    Grouping ((List.range count).map fun g => (List.range width).map (elem g)) n index place where
  find := by
    intro r hr
    obtain ⟨hindex, hplace, helem⟩ := hfind r hr
    refine ⟨(List.range width).map (elem (index r)), ?_, ?_⟩
    · rw [List.getElem?_map, List.getElem?_range hindex]
      rfl
    · rw [List.getElem?_map, List.getElem?_range hplace, Option.map_some, helem]
  only := by
    intro g i r group hgroup hr
    obtain ⟨hg, rfl⟩ := getElem?_map_range.mp hgroup
    obtain ⟨hi, rfl⟩ := getElem?_map_range.mp hr
    exact honly g hg i hi

/-- Consecutive groups of one width. -/
theorem runs (hwidth : 0 < width) :
    Grouping ((List.range count).map fun g => List.range' (g * width) width) (count * width)
      (· / width) (· % width) := by
  have heq : (fun g => List.range' (g * width) width) =
      fun g => (List.range width).map fun i => g * width + i := by
    funext g
    exact List.range'_eq_map_range ..
  rw [heq]
  refine of_elem (fun r hr => ⟨?_, Nat.mod_lt r hwidth, Nat.div_add_mod' r width⟩)
    fun g hg i hi => ⟨?_, div_mod_of_lt hi⟩
  · exact Nat.div_lt_of_lt_mul (by rwa [Nat.mul_comm])
  · calc g * width + i < g * width + width := Nat.add_lt_add_left hi _
      _ = (g + 1) * width := (Nat.succ_mul g width).symm
      _ ≤ count * width := Nat.mul_le_mul_right width hg

end Grouping

/-- Two loops, one in the other, run through the pairs that one loop over both indices does. -/
theorem flatMap_range {α : Type u} (outer inner : Nat) (f : Nat → Nat → α) :
    ((List.range outer).flatMap fun i => (List.range inner).map (f i)) =
      (List.range (outer * inner)).map fun k => f (k / inner) (k % inner) := by
  induction outer with
  | zero => simp
  | succ outer ih =>
    rw [List.range_succ, List.flatMap_append, ih, Nat.succ_mul, List.range_add, List.map_append,
      List.flatMap_singleton, List.map_map]
    refine congrArg _ (List.map_congr_left fun j hj => ?_)
    obtain ⟨hdiv, hmod⟩ := div_mod_of_lt (q := outer) (List.mem_range.mp hj)
    rw [Function.comp_apply, hdiv, hmod]

end RapidLlm
