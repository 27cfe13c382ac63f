import Mathlib.Data.List.Basic
import Mathlib.Data.List.Sort
import Mathlib.Data.List.FinRange
import Mathlib.Data.List.Perm.Subperm
import Mathlib.Order.WithBot
import Mathlib.Tactic.Common

/-!
# RapidLlm.Lib.Windows

**A stream cut into windows, and the largest entries of a list.**

`window rate xs i` is the `i`-th run of `rate` elements. A reader that takes whole windows and
keeps the rest back sees the same windows however the stream is cut into pieces
(`window_leftover`).

`IsTopK` says what the indices of the `k` largest entries are, with ties broken in any way;
an entry with at most `k` entries as large as itself is among them (`IsTopK.mem_of_countP`).
-/

namespace RapidLlm.Windows

universe u

variable {α : Type u} {rate i m n : Nat} {xs ys : List α}

/-! ### Windows -/

def window (rate : Nat) (xs : List α) (i : Nat) : List α := (xs.drop (i * rate)).take rate

/-- What is left after the closed windows. -/
def leftover (rate : Nat) (xs : List α) : List α := xs.drop (xs.length / rate * rate)

/-- A closed window does not change when the stream goes on. -/
theorem window_append (h : i < xs.length / rate) : window rate (xs ++ ys) i = window rate xs i := by
  have hend : (i + 1) * rate ≤ xs.length :=
    (Nat.mul_le_mul_right rate h).trans (Nat.div_mul_le_self _ _)
  rw [Nat.succ_mul] at hend
  rw [window, window, List.drop_append_of_le_length (by omega),
    List.take_append_of_le_length (by rw [List.length_drop]; omega)]

theorem window_drop : window rate (xs.drop (m * rate)) i = window rate xs (m + i) := by
  rw [window, window, List.drop_drop, ← Nat.add_mul]

theorem window_take (h : i < n) : window rate (xs.take (n * rate)) i = window rate xs i := by
  have hend : (i + 1) * rate ≤ n * rate := Nat.mul_le_mul_right rate h
  rw [Nat.succ_mul] at hend
  rw [window, window, List.drop_take, List.take_take, Nat.min_eq_left (by omega)]

theorem window_length (h : (i + 1) * rate ≤ xs.length) : (window rate xs i).length = rate := by
  rw [Nat.succ_mul] at h
  rw [window, List.length_take, List.length_drop]
  omega

theorem window_map {β : Type*} (f : α → β) : window rate (xs.map f) i = (window rate xs i).map f := by
  rw [window, window, List.map_take, List.map_drop]

theorem window_zipWith {β γ : Type*} (f : α → β → γ) (zs : List β) :
    window rate (xs.zipWith f zs) i = (window rate xs i).zipWith f (window rate zs i) := by
  rw [window, window, window, List.drop_zipWith, List.take_zipWith]

/-- A whole number of windows, one after another. -/
theorem flatMap_window (h : xs.length = n * rate) :
    (List.range n).flatMap (window rate xs) = xs := by
  induction n generalizing xs with
  | zero => simpa [eq_comm] using h
  | succ n ih =>
    have hlen : (xs.take (n * rate)).length = n * rate := by
      rw [List.length_take, h, Nat.succ_mul]
      omega
    have hlast : window rate xs n = xs.drop (n * rate) := by
      refine List.take_of_length_le ?_
      rw [List.length_drop, h, Nat.succ_mul]
      omega
    have hfirst : (List.range n).flatMap (window rate xs) = xs.take (n * rate) := by
      rw [← ih hlen]
      exact List.flatMap_congr fun i hi => (window_take (List.mem_range.mp hi)).symm
    rw [List.range_succ, List.flatMap_append, hfirst, List.flatMap_singleton, hlast,
      List.take_append_drop]

theorem leftover_append (ys : List α) : leftover rate xs ++ ys =
    (xs ++ ys).drop (xs.length / rate * rate) := by
  rw [leftover, List.drop_append_of_le_length (Nat.div_mul_le_self _ _)]

/-- The windows that close when `ys` follows what was kept back. -/
theorem closed_append (xs ys : List α) (hrate : 0 < rate) :
    xs.length / rate + (leftover rate xs ++ ys).length / rate = (xs ++ ys).length / rate := by
  have hle := Nat.div_mul_le_self xs.length rate
  rw [leftover_append, List.length_drop, ← Nat.mul_add_div hrate, Nat.mul_comm rate]
  congr 1
  rw [List.length_append]
  omega

/-- They are the windows of the whole stream. -/
theorem window_leftover (rate : Nat) (xs ys : List α) (h : i < n) :
    window rate ((leftover rate xs ++ ys).take (n * rate)) i =
      window rate (xs ++ ys) (xs.length / rate + i) := by
  rw [window_take h, leftover_append, window_drop]

/-- And what is kept back then is what the whole stream leaves over. -/
theorem leftover_leftover (hrate : 0 < rate) :
    leftover rate (leftover rate xs ++ ys) = leftover rate (xs ++ ys) := by
  have hclosed := closed_append xs ys hrate
  rw [leftover, leftover_append, List.drop_drop, ← Nat.add_mul, ← leftover_append, hclosed,
    leftover]

/-! ### Gathering by index -/

section Gather

variable {idx : List Nat} {a : α}

/-- The elements at the given indices. -/
def gather (xs : List α) (idx : List Nat) : List α := idx.filterMap fun i => xs[i]?

theorem mem_gather (hi : i ∈ idx) (ha : xs[i]? = some a) : a ∈ gather xs idx :=
  List.mem_filterMap.mpr ⟨i, hi, ha⟩

theorem gather_range (xs : List α) : gather xs (List.range xs.length) = xs := by
  induction xs with
  | nil => rfl
  | cons x xs ih =>
    rw [gather, List.length_cons, List.range_succ_eq_map, List.filterMap_cons, List.filterMap_map]
    exact congrArg (x :: ·) ih

/-- Increasing indices gather a sublist. -/
theorem gather_sublist (hidx : idx.Pairwise (· < ·)) (hlt : ∀ i ∈ idx, i < xs.length) :
    (gather xs idx).Sublist xs := by
  have hsub : idx.Sublist (List.range xs.length) :=
    List.sublist_of_subperm_of_sortedLE
      (List.subperm_of_subset (hidx.imp Nat.ne_of_lt) fun i hi => List.mem_range.mpr (hlt i hi))
      (hidx.imp Nat.le_of_lt).sortedLE (List.pairwise_lt_range.imp Nat.le_of_lt).sortedLE
  have hgather := hsub.filterMap fun i => xs[i]?
  rwa [← gather, ← gather, gather_range] at hgather

theorem filter_range_lt (h : m ≤ n) : (List.range n).filter (· < m) = List.range m := by
  obtain ⟨k, rfl⟩ := Nat.exists_eq_add_of_le h
  rw [List.range_add, List.filter_append,
    List.filter_eq_self.mpr fun i hi => by simpa using hi,
    List.filter_eq_nil_iff.mpr fun i hi => by
      obtain ⟨j, -, rfl⟩ := List.mem_map.mp hi
      simp,
    List.append_nil]

/-- A sublist that leaves out nothing. -/
theorem eq_of_sublist (hsub : xs.Sublist ys) (hnodup : ys.Nodup) (hall : ys ⊆ xs) : xs = ys :=
  hsub.eq_of_length_le (List.subperm_of_subset hnodup hall).length_le

end Gather

/-! ### Largest entries -/

theorem foldl_max_le_iff {xs : List Nat} : xs.foldl max m ≤ n ↔ m ≤ n ∧ ∀ x ∈ xs, x ≤ n := by
  induction xs generalizing m with
  | nil => simp
  | cons x xs ih =>
    rw [List.foldl_cons, ih, Nat.max_le, List.forall_mem_cons, and_assoc]

section TopK

variable {A : Type} [LinearOrder A] {values : List A} {k : Nat} {picks : List Nat} {a : A}

/-- The indices of `k` entries no other entry exceeds. -/
structure IsTopK (values : List A) (k : Nat) (picks : List Nat) : Prop where
  length_eq : picks.length = k
  nodup : picks.Nodup
  lt_length : ∀ i ∈ picks, i < values.length
  le_picked : ∀ i ∈ picks, ∀ j, j ∉ picks → ∀ a b, values[i]? = some a → values[j]? = some b → b ≤ a

omit [LinearOrder A] in
/-- Counting entries is counting indices. -/
theorem countP_range (q : A → Bool) (values : List A) :
    (List.range values.length).countP (fun j => values[j]?.any q) = values.countP q := by
  induction values with
  | nil => rfl
  | cons a values ih =>
    rw [List.length_cons, List.range_succ_eq_map, List.countP_cons, List.countP_map,
      List.countP_cons, ← ih]
    rfl

/-- An entry with at most `k` entries as large as itself is picked. -/
theorem IsTopK.mem_of_countP (h : IsTopK values k picks) (ha : values[i]? = some a)
    (hcount : values.countP (fun b => decide (a ≤ b)) ≤ k) : i ∈ picks := by
  by_contra hnot
  obtain ⟨hi, -⟩ := List.getElem?_eq_some_iff.mp ha
  have hsub : (i :: picks) ⊆ (List.range values.length).filter
      fun j => values[j]?.any fun b => decide (a ≤ b) := by
    intro j hj
    rw [List.mem_filter, List.mem_range]
    rcases List.mem_cons.mp hj with rfl | hj
    · exact ⟨hi, by simp [ha]⟩
    · have hlt := h.lt_length j hj
      have hget := List.getElem?_eq_getElem hlt
      exact ⟨hlt, by simpa [hget] using h.le_picked j hj i hnot _ _ hget ha⟩
  have hnodup : (i :: picks).Nodup := List.nodup_cons.mpr ⟨hnot, h.nodup⟩
  have hlen := (List.subperm_of_subset hnodup hsub).length_le
  rw [List.length_cons, h.length_eq, ← List.countP_eq_length_filter, countP_range] at hlen
  omega

/-- **Picking under a mask.** Where only the first `m` entries are not masked, as many of them
are picked as there are picks, or all of them. -/
theorem IsTopK.filter_length {masked : List (WithBot A)} {K : Nat}
    (h : IsTopK masked (min K masked.length) picks) (hm : m ≤ masked.length)
    (hopen : ∀ w < m, ∃ a : A, masked[w]? = some (a : WithBot A))
    (hmasked : ∀ w, m ≤ w → w < masked.length → masked[w]? = some ⊥) :
    (picks.filter (· < m)).length = min K m := by
  have hle : (picks.filter (· < m)).length ≤ m := by
    have hsub : (picks.filter (· < m)).Subperm (List.range m) :=
      List.subperm_of_subset (h.nodup.filter _) fun i hi => by
        simpa using (List.mem_filter.mp hi).2
    simpa using hsub.length_le
  have hpicks := h.length_eq
  by_cases hall : ∀ i ∈ picks, i < m
  · rw [List.filter_eq_self.mpr (by simpa using hall)] at hle ⊢
    omega
  · -- a masked entry is picked only when every open one is
    push Not at hall
    obtain ⟨i, hi, him⟩ := hall
    have hbot := hmasked i him (h.lt_length i hi)
    have hpicked : ∀ w < m, w ∈ picks := by
      intro w hw
      by_contra hnot
      obtain ⟨a, ha⟩ := hopen w hw
      exact absurd (h.le_picked i hi w hnot _ _ hbot ha) (by simp)
    have hge : m ≤ (picks.filter (· < m)).length := by
      have hsub : (List.range m).Subperm (picks.filter (· < m)) :=
        List.subperm_of_subset List.nodup_range fun w hw =>
          List.mem_filter.mpr ⟨hpicked w (List.mem_range.mp hw), by simpa using hw⟩
      simpa using hsub.length_le
    have hlt : (picks.filter (· < m)).length < picks.length :=
      List.length_filter_lt_length_iff_exists.mpr ⟨i, hi, by simpa using him⟩
    omega

/-- A way to pick the largest entries. -/
structure TopK where
  pick : {A : Type} → [LinearOrder A] → List A → Nat → List Nat
  isTopK : ∀ {A : Type} [LinearOrder A] (values : List A) (k : Nat), k ≤ values.length →
    IsTopK values k (pick values k)

/-- The indices in the order of their entries, the largest first. -/
def descending (values : List A) : List Nat :=
  ((List.finRange values.length).insertionSort fun i j => values[j] ≤ values[i]).map Fin.val

theorem descending_perm (values : List A) :
    (descending values).Perm (List.range values.length) := by
  have h := (List.perm_insertionSort (fun i j : Fin values.length => values[j] ≤ values[i])
    (List.finRange values.length)).map Fin.val
  rwa [List.map_coe_finRange_eq_range] at h

theorem descending_pairwise (values : List A) :
    (descending values).Pairwise fun i j => ∀ a b, values[i]? = some a → values[j]? = some b →
      b ≤ a := by
  have htotal : Std.Total fun i j : Fin values.length => values[j] ≤ values[i] :=
    ⟨fun i j => le_total _ _⟩
  have htrans : IsTrans (Fin values.length) fun i j => values[j] ≤ values[i] :=
    ⟨fun i j k hij hjk => hjk.trans hij⟩
  rw [descending, List.pairwise_map]
  refine (List.pairwise_insertionSort _ _).imp fun {i j} hle a b ha hb => ?_
  rw [List.getElem?_eq_getElem i.isLt] at ha
  rw [List.getElem?_eq_getElem j.isLt] at hb
  cases ha
  cases hb
  exact hle

/-- Sorting all entries picks the largest. -/
def TopK.bySorting : TopK where
  pick values k := (descending values).take k
  isTopK values k hk := by
    have hperm := descending_perm values
    have hlen : (descending values).length = values.length := by
      rw [hperm.length_eq, List.length_range]
    have hnodup : (descending values).Nodup := hperm.nodup_iff.mpr List.nodup_range
    refine ⟨by rw [List.length_take, hlen, Nat.min_eq_left hk],
      hnodup.sublist (List.take_sublist k _), fun i hi => ?_, fun i hi j hj a b ha hb => ?_⟩
    · exact List.mem_range.mp (hperm.mem_iff.mp (List.mem_of_mem_take hi))
    · obtain ⟨hlt, -⟩ := List.getElem?_eq_some_iff.mp hb
      have hmem : j ∈ descending values := hperm.mem_iff.mpr (List.mem_range.mpr hlt)
      have hpair := descending_pairwise values
      rw [← List.take_append_drop k (descending values)] at hmem hpair
      rcases List.mem_append.mp hmem with hmem | hmem
      · exact absurd hmem hj
      · exact (List.pairwise_append.mp hpair).2.2 i hi j hmem a b ha hb

end TopK

end RapidLlm.Windows
