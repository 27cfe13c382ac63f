import Mathlib.Algebra.BigOperators.Group.Finset.Piecewise
import Mathlib.Data.List.GetD
import Mathlib.Data.List.Sort
import Mathlib.Data.List.Perm.Lattice
import Mathlib.Tactic.Common

/-!
# RapidLlm.Lib.Segments

**Slots placed in segments by key.** Each of the slots `0, 1, .., n - 1` has a key, and the
slots of one key fill the segment of that key from its front.

In the order of a stable sort a slot's place in its segment is the number of earlier slots
with its key (`place_stableOrder`); such places are distinct and leave no gap
(`earlier_lt_held`, `exists_of_lt_held`). `scatter` is the indexed write `base[pos] = val`
that placing is followed by.
-/

namespace RapidLlm.Segments

universe u

/-! ### Counting slots -/

/-- How many of the first `n` slots have key `d`. -/
def held (key : Nat → Nat) (n d : Nat) : Nat := (List.range n).countP fun s => key s = d

/-- How many slots before `s` have its key. -/
def earlier (key : Nat → Nat) (s : Nat) : Nat := held key s (key s)

variable {key : Nat → Nat} {n m s t d : Nat}

@[simp] theorem held_zero : held key 0 d = 0 := rfl

theorem held_succ : held key (n + 1) d = held key n d + if key n = d then 1 else 0 := by
  rw [held, List.range_succ, List.countP_append, List.countP_singleton, ← held]
  simp only [decide_eq_true_eq]

theorem held_mono (h : n ≤ m) : held key n d ≤ held key m d := by
  induction h with
  | refl => exact le_rfl
  | step _ ih =>
    rw [held_succ]
    omega

theorem held_le : held key n d ≤ n := by
  have h := List.countP_le_length (p := fun s => decide (key s = d)) (l := List.range n)
  rwa [List.length_range] at h

variable (key) in
/-- A slot comes after its predecessors and before the end of its segment. -/
theorem earlier_lt_held (h : s < n) : earlier key s < held key n (key s) := by
  have hstep : held key (s + 1) (key s) = earlier key s + 1 := by
    rw [held_succ, if_pos rfl, earlier]
  have hmono : held key (s + 1) (key s) ≤ held key n (key s) := held_mono h
  omega

/-- Two slots of a segment are at different places. -/
theorem earlier_inj (hkey : key s = key t) (h : earlier key s = earlier key t) : s = t := by
  rcases Nat.lt_trichotomy s t with hlt | heq | hlt
  · have hbefore := earlier_lt_held key hlt
    rw [hkey, ← earlier] at hbefore
    omega
  · exact heq
  · have hbefore := earlier_lt_held key hlt
    rw [← hkey, ← earlier] at hbefore
    omega

variable (key n) in
/-- The segments of distinct keys have no more slots than there are. -/
theorem sum_held_le (keys : Finset Nat) : ∑ d ∈ keys, held key n d ≤ n := by
  induction n with
  | zero => simp
  | succ n ih =>
    have hone : ∑ d ∈ keys, (if key n = d then 1 else 0) ≤ 1 := by
      rw [Finset.sum_ite_eq]
      split <;> omega
    simp only [held_succ, Finset.sum_add_distrib]
    omega

/-- No place of a segment is left out. -/
theorem exists_of_lt_held {p : Nat} (h : p < held key n d) :
    ∃ s < n, key s = d ∧ earlier key s = p := by
  induction n with
  | zero => exact absurd h (Nat.not_lt_zero p)
  | succ n ih =>
    rw [held_succ] at h
    by_cases hp : p < held key n d
    · obtain ⟨s, hs, hkey, hearlier⟩ := ih hp
      exact ⟨s, Nat.lt_succ_of_lt hs, hkey, hearlier⟩
    · by_cases hkey : key n = d
      · rw [if_pos hkey] at h
        refine ⟨n, Nat.lt_succ_self n, hkey, ?_⟩
        rw [earlier, hkey]
        omega
      · rw [if_neg hkey] at h
        omega

/-! ### Stable sorting -/

/-- The slots sorted by key, those of one key in their own order. -/
def stableOrder (key : Nat → Nat) (n : Nat) : List Nat :=
  (List.range n).insertionSort fun a b => key a ≤ key b

/-- The first place of a sorted list that holds `v` or more. -/
def searchsortedLeft (sorted : List Nat) (v : Nat) : Nat := sorted.findIdx fun a => v ≤ a

theorem stableOrder_perm (key : Nat → Nat) (n : Nat) : (stableOrder key n).Perm (List.range n) :=
  List.perm_insertionSort _ _

@[simp] theorem stableOrder_length : (stableOrder key n).length = n := by
  rw [(stableOrder_perm key n).length_eq, List.length_range]

/-- First by key, then by slot. -/
def Before (key : Nat → Nat) (a b : Nat) : Prop := key a < key b ∨ key a = key b ∧ a < b

instance : DecidablePred (Before key · s) := fun a =>
  inferInstanceAs (Decidable (key a < key s ∨ key a = key s ∧ a < s))

theorem orderedInsert_pairwise {a : Nat} {l : List Nat} (hl : l.Pairwise (Before key))
    (ha : ∀ b ∈ l, a < b) :
    (l.orderedInsert (fun a b => key a ≤ key b) a).Pairwise (Before key) := by
  induction l with
  | nil => exact List.pairwise_singleton _ _
  | cons b l ih =>
    obtain ⟨hb, hrest⟩ := List.pairwise_cons.mp hl
    by_cases hle : key a ≤ key b
    · rw [List.orderedInsert_cons, if_pos hle]
      refine List.pairwise_cons.mpr ⟨fun c hc => ?_, hl⟩
      have hac : a < c := ha c hc
      have hbc : key b ≤ key c := by
        rcases List.mem_cons.mp hc with rfl | hmem
        · exact le_rfl
        · rcases hb c hmem with h | h <;> omega
      unfold Before
      omega
    · rw [List.orderedInsert_cons, if_neg hle]
      refine List.pairwise_cons.mpr ⟨fun c hc => ?_, ih hrest fun c hc => ha c (.tail b hc)⟩
      rcases (List.mem_orderedInsert _).mp hc with rfl | hmem
      · exact .inl (by omega)
      · exact hb c hmem

theorem insertionSort_pairwise {l : List Nat} (hl : l.Pairwise (· < ·)) :
    (l.insertionSort fun a b => key a ≤ key b).Pairwise (Before key) := by
  induction l with
  | nil => exact List.Pairwise.nil
  | cons a l ih =>
    obtain ⟨ha, hrest⟩ := List.pairwise_cons.mp hl
    refine orderedInsert_pairwise (ih hrest) fun b hb => ha b ?_
    exact (List.perm_insertionSort _ l).mem_iff.mp hb

theorem stableOrder_pairwise (key : Nat → Nat) (n : Nat) :
    (stableOrder key n).Pairwise (Before key) :=
  insertionSort_pairwise List.pairwise_lt_range

/-- The index of an element of a list in strict order counts what comes before it. -/
theorem countP_before {l : List Nat} (hl : l.Pairwise (Before key)) {i : Nat} (hi : i < l.length) :
    l.countP (Before key · l[i]) = i := by
  have hsplit : l = l.take i ++ l[i] :: l.drop (i + 1) := by
    rw [← List.drop_eq_getElem_cons hi, List.take_append_drop]
  have hirrefl : ∀ a b, Before key a b → ¬ Before key b a := by
    unfold Before
    omega
  rw [hsplit] at hl
  obtain ⟨-, hright, hcross⟩ := List.pairwise_append.mp hl
  obtain ⟨hafter, -⟩ := List.pairwise_cons.mp hright
  have hleft : (l.take i).countP (Before key · l[i]) = (l.take i).length :=
    List.countP_eq_length.mpr fun a ha =>
      decide_eq_true (hcross a ha l[i] (List.mem_cons_self ..))
  have hrest : (l[i] :: l.drop (i + 1)).countP (Before key · l[i]) = 0 := by
    refine List.countP_eq_zero.mpr fun a ha => ?_
    rw [decide_eq_true_eq]
    rcases List.mem_cons.mp ha with rfl | hmem
    · exact fun h => hirrefl _ _ h h
    · exact hirrefl _ _ (hafter a hmem)
  calc l.countP (Before key · l[i])
      = (l.take i ++ l[i] :: l.drop (i + 1)).countP (Before key · l[i]) := by rw [← hsplit]
    _ = i := by rw [List.countP_append, hleft, hrest, List.length_take]; omega

/-- What is sorted by value is cut in two by a bound. -/
theorem searchsortedLeft_eq {sorted : List Nat} (h : sorted.Pairwise (· ≤ ·)) (v : Nat) :
    searchsortedLeft sorted v = sorted.countP (· < v) := by
  induction sorted with
  | nil => rfl
  | cons a sorted ih =>
    obtain ⟨ha, hrest⟩ := List.pairwise_cons.mp h
    rw [searchsortedLeft, List.findIdx_cons, List.countP_cons]
    by_cases hv : v ≤ a
    · have hnone : sorted.countP (· < v) = 0 :=
        List.countP_eq_zero.mpr fun b hb => by
          have hab := ha b hb
          rw [decide_eq_true_eq]
          omega
      simp [hv, hnone]
    · have hstep := ih hrest
      rw [searchsortedLeft] at hstep
      simp [hv, hstep, Nat.lt_of_not_le hv]

variable (key) in
theorem getD_stableOrder_lt {i : Nat} (hi : i < n) : (stableOrder key n).getD i 0 < n := by
  have hlen : i < (stableOrder key n).length := by rwa [stableOrder_length]
  rw [List.getD_eq_getElem _ _ hlen]
  exact List.mem_range.mp ((stableOrder_perm key n).mem_iff.mp (List.getElem_mem hlen))

variable (key) in
/-- Every slot is somewhere in the sorted order. -/
theorem exists_getD_stableOrder (hs : s < n) : ∃ i < n, (stableOrder key n).getD i 0 = s := by
  have hmem : s ∈ stableOrder key n := (stableOrder_perm key n).mem_iff.mpr (List.mem_range.mpr hs)
  obtain ⟨i, hi, hget⟩ := List.getElem_of_mem hmem
  refine ⟨i, by rwa [stableOrder_length] at hi, ?_⟩
  rw [List.getD_eq_getElem _ _ hi, hget]

variable (key) in
/-- In the sorted order a slot stands as far into its segment as there are earlier slots of
its key. -/
theorem place_stableOrder {i : Nat} (hi : i < n) :
    i - searchsortedLeft ((stableOrder key n).map key) (key ((stableOrder key n).getD i 0)) =
      earlier key ((stableOrder key n).getD i 0) := by
  have hlen : i < (stableOrder key n).length := by rwa [stableOrder_length]
  have hpair := stableOrder_pairwise key n
  have hsorted : ((stableOrder key n).map key).Pairwise (· ≤ ·) := by
    rw [List.pairwise_map]
    refine hpair.imp fun h => ?_
    rcases h with h | h <;> omega
  have hindex := countP_before hpair hlen
  have hlt := getD_stableOrder_lt key hi
  rw [← List.getD_eq_getElem _ 0 hlen] at hindex
  generalize (stableOrder key n).getD i 0 = s at hindex hlt ⊢
  rw [searchsortedLeft_eq hsorted, List.countP_map]
  rw [(stableOrder_perm key n).countP_eq] at hindex ⊢
  -- of the slots before `s` some have a smaller key, and the others are its predecessors
  have hsplit : ∀ m ≤ n, (List.range m).countP (Before key · s) =
      (List.range m).countP ((fun a => decide (a < key s)) ∘ key) +
        held key (min m s) (key s) := by
    intro m hm
    induction m with
    | zero => simp
    | succ m ih =>
      rw [List.range_succ, List.countP_append, List.countP_append, ih (by omega),
        List.countP_singleton, List.countP_singleton]
      rcases Nat.lt_or_ge m s with hms | hms
      · rw [Nat.min_eq_left hms.le, Nat.min_eq_left hms, held_succ]
        simp only [Before, Function.comp_apply, decide_eq_true_eq, hms, and_true]
        split_ifs <;> omega
      · rw [Nat.min_eq_right hms, Nat.min_eq_right (by omega)]
        simp only [Before, Function.comp_apply, decide_eq_true_eq, Nat.not_lt_of_le hms,
          and_false, or_false]
        split_ifs <;> omega
  rw [hsplit n le_rfl, Nat.min_eq_right hlt.le] at hindex
  rw [earlier]
  omega

/-! ### Indexed writes -/

variable {α : Type u} {pos : Nat → Nat} {val base : Nat → α} {p : Nat} {a : α}

/-- `base[pos[i]] = val[i]` for every `i < n`. -/
def scatter (n : Nat) (pos : Nat → Nat) (val base : Nat → α) : Nat → α :=
  match n with
  | 0 => base
  | n + 1 => Function.update (scatter n pos val base) (pos n) (val n)

theorem scatter_of_ne (h : ∀ i < n, pos i ≠ p) : scatter n pos val base p = base p := by
  induction n with
  | zero => rfl
  | succ n ih =>
    rw [scatter, Function.update_of_ne (h n (Nat.lt_succ_self n)).symm,
      ih fun i hi => h i (Nat.lt_succ_of_lt hi)]

/-- Writes to one position that all write the same. -/
theorem scatter_eq (hex : ∃ i < n, pos i = p) (h : ∀ i < n, pos i = p → val i = a) :
    scatter n pos val base p = a := by
  induction n with
  | zero =>
    obtain ⟨i, hi, -⟩ := hex
    exact absurd hi (Nat.not_lt_zero i)
  | succ n ih =>
    rw [scatter]
    by_cases hn : pos n = p
    · rw [← hn, Function.update_self]
      exact h n (Nat.lt_succ_self n) hn
    · rw [Function.update_of_ne (Ne.symm hn)]
      refine ih ?_ fun i hi => h i (Nat.lt_succ_of_lt hi)
      obtain ⟨i, hi, hpos⟩ := hex
      refine ⟨i, lt_of_le_of_ne (Nat.le_of_lt_succ hi) ?_, hpos⟩
      rintro rfl
      exact hn hpos

end RapidLlm.Segments
