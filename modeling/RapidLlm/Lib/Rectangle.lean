import Mathlib.Algebra.GroupWithZero.Nat
import RapidLlm.Lib.Grouping
import RapidLlm.Lib.RoundRobin
import RapidLlm.Lib.Segments

/-!
# RapidLlm.Lib.Rectangle

**Ragged rows in a rectangle.** Pieces of different lengths are carried by an exchange of
equal lengths: each piece is padded to one width, and a plan says where in the rectangle the
rows of the pieces are. Reading the rectangle through the plan gives the pieces one after
another (`compact`); writing them through the plan puts each piece where its rows belong
(`spread`).
-/

namespace RapidLlm.Rectangle

open Segments

universe u v

variable {α : Type u} {β : Type v} {width count r t : Nat} {sizes : Nat → Nat} {z : α}

/-- A piece followed by filler up to the width. -/
def pad (z : α) (width : Nat) (piece : List α) : List α :=
  piece ++ List.replicate (width - piece.length) z

/-- Where the rows of `count` pieces are in the rectangle. -/
def plan (sizes : Nat → Nat) (width count : Nat) : List Nat :=
  (List.range count).flatMap fun r => (List.range (sizes r)).map fun t => r * width + t

/-- The piece `r` of a list cut into pieces of these sizes. -/
def cut (z : α) (sizes : List Nat) (l : List α) (r : Nat) : List α :=
  (List.range (sizes.getD r 0)).map fun i => l.getD ((sizes.take r).sum + i) z

theorem pad_length {piece : List α} (h : piece.length ≤ width) :
    (pad z width piece).length = width := by
  rw [pad, List.length_append, List.length_replicate]
  omega

theorem pad_getD {piece : List α} (h : t < piece.length) :
    (pad z width piece).getD t z = piece.getD t z :=
  List.getD_append _ _ _ _ h

/-- A list is its entries in order. -/
theorem map_range_getD (piece : List α) (z : α) :
    (List.range piece.length).map (fun t => piece.getD t z) = piece := by
  refine List.ext_getElem (by simp) fun i hi hi' => ?_
  rw [List.getElem_map, List.getElem_range, List.getD_eq_getElem]

/-- Row `t` of piece `r` in pieces of one width. -/
theorem getD_row {f : Nat → List α} (hwidth : ∀ r < count, (f r).length = width) (hr : r < count)
    (ht : t < width) : ((List.range count).flatMap f).getD (r * width + t) z = (f r).getD t z := by
  obtain ⟨hdiv, hmod⟩ := div_mod_of_lt (q := r) ht
  have hlt : r * width + t < (List.range count).length * width := by
    rw [List.length_range]
    calc r * width + t < r * width + width := Nat.add_lt_add_left ht _
      _ = (r + 1) * width := (Nat.succ_mul r width).symm
      _ ≤ count * width := Nat.mul_le_mul_right width hr
  have hget : (List.range count).getD r 0 = r := by
    rw [List.getD_eq_getElem _ _ (by rwa [List.length_range]), List.getElem_range]
  rw [RoundRobin.getD_flatMap 0 z (fun a ha => hwidth a (List.mem_range.mp ha)) hlt, hdiv, hmod,
    hget]

theorem cut_length (sizes : List Nat) (l : List α) (r : Nat) :
    (cut z sizes l r).length = sizes.getD r 0 := by
  rw [cut, List.length_map, List.length_range]

/-- A list is its pieces one after another. -/
theorem flatMap_cut (z : α) : ∀ (sizes : List Nat) (l : List α), l.length = sizes.sum →
    (List.range sizes.length).flatMap (cut z sizes l) = l
  | [], l, h => (List.length_eq_zero_iff.mp h).symm
  | size :: sizes, l, h => by
      rw [List.sum_cons] at h
      have hrest : (l.drop size).length = sizes.sum := by
        rw [List.length_drop, h, Nat.add_sub_cancel_left]
      have hfirst : cut z (size :: sizes) l 0 = l.take size := by
        refine List.ext_getElem ?_ fun i hi hi' => ?_
        · rw [cut_length, List.length_take, h]
          exact (Nat.min_eq_left (Nat.le_add_right _ _)).symm
        · have hlt : i < l.length := Nat.lt_of_lt_of_le hi' (List.length_take_le' _ _)
          rw [List.getElem_take]
          simp [cut, hlt]
      have hnext : ∀ r, cut z (size :: sizes) l (r + 1) = cut z sizes (l.drop size) r := by
        intro r
        refine List.map_congr_left fun i _ => ?_
        rw [List.take_succ_cons, List.sum_cons, List.getD_eq_getElem?_getD,
          List.getD_eq_getElem?_getD, List.getElem?_drop, Nat.add_assoc]
      rw [List.length_cons, List.range_succ_eq_map, List.flatMap_cons, List.flatMap_map, hfirst]
      simp only [Nat.succ_eq_add_one, hnext]
      rw [flatMap_cut z sizes (l.drop size) hrest, List.take_append_drop]

/-- Cutting a piece out of the pieces one after another. -/
theorem slice_flatMap {f : Nat → List α} {offset length : Nat} (hr : r < count)
    (hoffset : ((List.range r).flatMap f).length = offset) (hlength : length ≤ (f r).length) :
    (((List.range count).flatMap f).take (offset + length)).drop offset = (f r).take length := by
  obtain ⟨rest, rfl⟩ := Nat.exists_eq_add_of_lt hr
  have hsplit : (List.range (r + rest + 1)).flatMap f =
      (List.range r).flatMap f ++ (f r ++ (List.range rest).flatMap fun k => f (r + (1 + k))) := by
    rw [Nat.add_assoc, Nat.add_comm rest 1, List.range_add, List.flatMap_append,
      List.flatMap_map, List.range_add, List.flatMap_append, List.flatMap_map]
    simp
  rw [hsplit, ← hoffset, List.take_length_add_append, List.drop_left,
    List.take_append_of_le_length hlength]

/-- Reading the rectangle through the plan gives the pieces one after another. -/
theorem compact {pieces : Nat → List α} (hlen : ∀ r < count, (pieces r).length ≤ width) :
    (plan (fun r => (pieces r).length) width count).map
        (fun p => ((List.range count).flatMap fun r => pad z width (pieces r)).getD p z) =
      (List.range count).flatMap pieces := by
  rw [plan, List.map_flatMap]
  refine List.flatMap_congr fun r hr => ?_
  have hr := List.mem_range.mp hr
  rw [List.map_map]
  calc (List.range (pieces r).length).map _
      = (List.range (pieces r).length).map (fun t => (pieces r).getD t z) := by
        refine List.map_congr_left fun t ht => ?_
        have ht := List.mem_range.mp ht
        rw [Function.comp_apply, getD_row (fun r' hr' => pad_length (hlen r' hr')) hr
          (Nat.lt_of_lt_of_le ht (hlen r hr)), pad_getD ht]
    _ = pieces r := map_range_getD (pieces r) z

/-- Pieces of the same lengths are combined piece by piece. -/
theorem zipWith_flatMap {γ δ : Type*} {xs : List γ} {f : γ → List α} {g : γ → List β}
    {k : α → β → δ} (h : ∀ x ∈ xs, (f x).length = (g x).length) :
    (xs.flatMap f).zipWith k (xs.flatMap g) = xs.flatMap fun x => (f x).zipWith k (g x) := by
  induction xs with
  | nil => rfl
  | cons x xs ih =>
    rw [List.flatMap_cons, List.flatMap_cons, List.flatMap_cons,
      List.zipWith_append (h x (List.mem_cons_self ..)), ih fun y hy => h y (.tail x hy)]

/-- Pieces of the same lengths are zipped piece by piece. -/
theorem zip_flatMap {γ : Type*} {xs : List γ} {f : γ → List α} {g : γ → List β}
    (h : ∀ x ∈ xs, (f x).length = (g x).length) :
    (xs.flatMap f).zip (xs.flatMap g) = xs.flatMap fun x => (f x).zip (g x) :=
  zipWith_flatMap h

/-- Writing the pieces through the plan puts every row of a piece in its place. -/
theorem spread {pieces : Nat → List α} {base : Nat → α}
    (hlen : ∀ r < count, (pieces r).length ≤ width) (hr : r < count)
    (ht : t < (pieces r).length) :
    scatter ((List.range count).flatMap pieces).length
        (fun i => (plan (fun r => (pieces r).length) width count).getD i 0)
        (fun i => ((List.range count).flatMap pieces).getD i z) base (r * width + t) =
      (pieces r).getD t z := by
  let rows := (List.range count).flatMap pieces
  let places := plan (fun r => (pieces r).length) width count
  have hlens : places.length = rows.length := by
    simp only [places, rows, plan, List.length_flatMap, List.length_map, List.length_range]
  have hzip : places.zip rows = (List.range count).flatMap fun r =>
      ((List.range (pieces r).length).map fun t => r * width + t).zip (pieces r) :=
    zip_flatMap fun r _ => by rw [List.length_map, List.length_range]
  -- a place and the row written there
  have hmem : ∀ p a, (p, a) ∈ places.zip rows ↔ ∃ r < count, ∃ t < (pieces r).length,
      r * width + t = p ∧ (pieces r).getD t z = a := by
    intro p a
    rw [hzip, List.mem_flatMap]
    constructor
    · rintro ⟨r, hr, hmem⟩
      obtain ⟨t, ht, hget⟩ := List.getElem_of_mem hmem
      rw [List.getElem_zip, List.getElem_map, List.getElem_range, Prod.mk.injEq] at hget
      have ht' : t < (pieces r).length := by simpa using ht
      exact ⟨r, List.mem_range.mp hr, t, ht', hget.1,
        (List.getD_eq_getElem _ _ ht').trans hget.2⟩
    · rintro ⟨r, hr, t, ht, rfl, rfl⟩
      refine ⟨r, List.mem_range.mpr hr, List.mem_iff_getElem.mpr ⟨t, by simpa using ht, ?_⟩⟩
      rw [List.getElem_zip, List.getElem_map, List.getElem_range, List.getD_eq_getElem _ _ ht]
  have hentry : ∀ i (hi : i < rows.length), (places.getD i 0, rows.getD i z) ∈ places.zip rows := by
    intro i hi
    have hi' : i < places.length := by rwa [hlens]
    rw [List.getD_eq_getElem _ _ hi, List.getD_eq_getElem _ _ hi']
    refine List.mem_iff_getElem.mpr ⟨i, by simp [hi, hi'], ?_⟩
    rw [List.getElem_zip]
  refine scatter_eq ?_ fun i hi hplace => ?_
  · obtain ⟨i, hi, hget⟩ := List.getElem_of_mem ((hmem _ _).mpr ⟨r, hr, t, ht, rfl, rfl⟩)
    rw [List.getElem_zip, Prod.mk.injEq] at hget
    have hi' : i < places.length ∧ i < rows.length := by simpa using hi
    exact ⟨i, hi'.2, (List.getD_eq_getElem _ _ hi'.1).trans hget.1⟩
  · obtain ⟨r', hr', t', ht', hplace', hval⟩ := (hmem _ _).mp (hentry i hi)
    have hplace : r' * width + t' = r * width + t := hplace'.trans hplace
    have hw := hlen r hr
    have hw' := hlen r' hr'
    have hdiv : ∀ r t, t < width → (r * width + t) / width = r := fun _ _ ht =>
      (div_mod_of_lt ht).1
    have hrr : r' = r := by
      rw [← hdiv r' t' (by omega), hplace, hdiv r t (by omega)]
    subst hrr
    have htt : t' = t := by omega
    rw [← htt]
    exact hval.symm

end RapidLlm.Rectangle
