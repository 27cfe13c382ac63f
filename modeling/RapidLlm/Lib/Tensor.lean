import Mathlib.Algebra.BigOperators.Pi
import Mathlib.Data.List.InsertIdx
import RapidLlm.Lib.Rectangle

/-!
# RapidLlm.Lib.Tensor

**Tensors as rows along an axis.** A tensor has a shape, a list of extents, and an entry for
every index inside it. Along an axis it is a list of rows, each a function of the other
coordinates. The operations that work along one axis (concatenate, select, narrow, pad, move an
axis) are operations on the list of rows, and a tensor is determined by its rows along any one
axis: `HasRows` is the bridge, and each operation comes with the rows it has.
-/

namespace RapidLlm

open Segments Rectangle

universe u

variable {A : Type u}

/-- One coordinate for every extent, each below it. -/
def Inside : List Nat → List Nat → Prop
  | [], [] => True
  | i :: index, extent :: shape => i < extent ∧ Inside index shape
  | _, _ => False

instance Inside.decidable : ∀ index shape, Decidable (Inside index shape)
  | [], [] => inferInstanceAs (Decidable True)
  | _ :: index, _ :: shape =>
      haveI := Inside.decidable index shape
      inferInstanceAs (Decidable (_ ∧ _))
  | [], _ :: _ => inferInstanceAs (Decidable False)
  | _ :: _, [] => inferInstanceAs (Decidable False)

namespace Inside

variable {i n : Nat}

theorem length_eq : ∀ {index shape : List Nat}, Inside index shape → index.length = shape.length
  | [], [], _ => rfl
  | _ :: _, _ :: _, h => congrArg (· + 1) h.2.length_eq

/-- An index with a coordinate put in at an axis. -/
theorem insertIdx_iff : ∀ {d : Nat} {base rest : List Nat}, d ≤ base.length →
    (Inside (rest.insertIdx d i) (base.insertIdx d n) ↔ i < n ∧ Inside rest base)
  | 0, base, rest, _ => by simp [Inside]
  | d + 1, extent :: base, [], _ => by simp [Inside]
  | d + 1, extent :: base, j :: rest, hd => by
      have ih : Inside (rest.insertIdx d i) (base.insertIdx d n) ↔ i < n ∧ Inside rest base :=
        insertIdx_iff (Nat.le_of_succ_le_succ hd)
      simp only [List.insertIdx_succ_cons, Inside, ih]
      exact and_left_comm

end Inside

/-- A shape, and an entry for every index inside it. -/
@[ext]
structure Tensor (A : Type u) [Zero A] where
  shape : List Nat
  entry : List Nat → A
  outside : ∀ index, ¬ Inside index shape → entry index = 0

namespace Tensor

section Rows

variable [Zero A] {t t' : Tensor A} {base : List Nat} {d n : Nat} {l : List (List Nat → A)}

/-- The tensor of a shape with the entries of a function. -/
def ofFn (shape : List Nat) (f : List Nat → A) : Tensor A where
  shape := shape
  entry := fun index => if Inside index shape then f index else 0
  outside := fun _ h => if_neg h

theorem entry_ofFn {shape index : List Nat} (f : List Nat → A) (h : Inside index shape) :
    (ofFn shape f).entry index = f index :=
  if_pos h

instance : Inhabited (Tensor A) := ⟨ofFn [] fun _ => 0⟩

/-- `t.dim()`. -/
def dim (t : Tensor A) : Nat := t.shape.length

/-- `t.shape[d]`. -/
def size (t : Tensor A) (d : Nat) : Nat := t.shape.getD d 0

/-- Row `i` along axis `d`: the entries with `i` at that axis. -/
def row (t : Tensor A) (d i : Nat) : List Nat → A := fun rest => t.entry (rest.insertIdx d i)

/-- The rows along an axis. -/
def rows (t : Tensor A) (d : Nat) : List (List Nat → A) := (List.range (t.size d)).map (t.row d)

/-- The tensor with these rows along an axis. -/
def ofRows (base : List Nat) (d : Nat) (l : List (List Nat → A)) : Tensor A :=
  ofFn (base.insertIdx d l.length) fun index => l.getD (index.getD d 0) 0 (index.eraseIdx d)

/-- A row with nothing outside the other extents. -/
def Within (base : List Nat) (row : List Nat → A) : Prop :=
  ∀ rest, ¬ Inside rest base → row rest = 0

/-- A tensor laid out along an axis as these rows. -/
structure HasRows (t : Tensor A) (base : List Nat) (d : Nat) (l : List (List Nat → A)) :
    Prop where
  axis : d ≤ base.length
  shape : t.shape = base.insertIdx d l.length
  rows_eq : t.rows d = l

theorem getD_insertIdx_self {l : List Nat} {a : Nat} (h : d ≤ l.length) :
    (l.insertIdx d a).getD d 0 = a := by
  have hlt : d < (l.insertIdx d a).length := by
    rw [List.length_insertIdx_of_le_length h]
    exact Nat.lt_succ_of_le h
  rw [List.getD_eq_getElem _ _ hlt, List.getElem_insertIdx_self]

/-- A row reaches no further than the other extents. -/
theorem within_row (hd : d ≤ base.length) (hshape : t.shape = base.insertIdx d n) (i : Nat) :
    Within base (t.row d i) := by
  intro rest hrest
  refine t.outside _ fun hin => hrest ?_
  rw [hshape] at hin
  exact ((Inside.insertIdx_iff hd).mp hin).2

/-- Past the extent of the axis there are no rows. -/
theorem row_eq_zero (hd : d ≤ base.length) (hshape : t.shape = base.insertIdx d n) {i : Nat}
    (hi : n ≤ i) : t.row d i = 0 := by
  funext rest
  refine t.outside _ fun hin => ?_
  rw [hshape] at hin
  exact Nat.not_lt_of_le hi ((Inside.insertIdx_iff hd).mp hin).1

/-- The rows that a tensor of this shape has. -/
theorem hasRows_rows (hd : d ≤ base.length) (hshape : t.shape = base.insertIdx d n) :
    t.HasRows base d ((List.range n).map (t.row d)) := by
  have hsize : t.size d = n := by rw [size, hshape, getD_insertIdx_self hd]
  exact ⟨hd, by rw [hshape, List.length_map, List.length_range], by rw [rows, hsize]⟩

namespace HasRows

theorem size_eq (h : t.HasRows base d l) : t.size d = l.length := by
  rw [size, h.shape, getD_insertIdx_self h.axis]

theorem base_eq (h : t.HasRows base d l) : t.shape.eraseIdx d = base := by
  rw [h.shape, List.eraseIdx_insertIdx_self]

theorem row_eq (h : t.HasRows base d l) (i : Nat) : t.row d i = l.getD i 0 := by
  by_cases hi : i < l.length
  · have hrows : (List.range l.length).map (t.row d) = l := by
      rw [← h.size_eq]
      exact h.rows_eq
    conv_rhs => rw [← hrows]
    rw [List.getD_eq_getElem _ _ (by simpa using hi), List.getElem_map, List.getElem_range]
  · rw [List.getD_eq_default _ _ (Nat.le_of_not_lt hi),
      row_eq_zero h.axis h.shape (Nat.le_of_not_lt hi)]

theorem within_rows (h : t.HasRows base d l) : ∀ row ∈ l, Within base row := by
  intro row hrow
  rw [← h.rows_eq, Tensor.rows, List.mem_map] at hrow
  obtain ⟨i, -, rfl⟩ := hrow
  exact within_row h.axis h.shape i

/-- **A tensor is determined by its rows along one axis.** -/
theorem eq (h : t.HasRows base d l) (h' : t'.HasRows base d l) : t = t' := by
  refine Tensor.ext (h.shape.trans h'.shape.symm) (funext fun index => ?_)
  by_cases hin : Inside index t.shape
  · have hlen : d < index.length := by
      rw [hin.length_eq, h.shape, List.length_insertIdx_of_le_length h.axis]
      exact Nat.lt_succ_of_le h.axis
    have hindex : (index.eraseIdx d).insertIdx d index[d] = index :=
      List.insertIdx_eraseIdx_getElem hlen
    have hrow : t.row d index[d] = t'.row d index[d] := by rw [h.row_eq, h'.row_eq]
    calc t.entry index = t.row d index[d] (index.eraseIdx d) := by rw [row, hindex]
      _ = t'.row d index[d] (index.eraseIdx d) := by rw [hrow]
      _ = t'.entry index := by rw [row, hindex]
  · have hin' : ¬ Inside index t'.shape := by rwa [h'.shape, ← h.shape]
    rw [t.outside _ hin, t'.outside _ hin']

end HasRows

/-- The rows of a tensor given by a function. -/
theorem hasRows_ofFn {f : List Nat → A} (hd : d ≤ base.length) (hlen : l.length = n)
    (hf : ∀ i < l.length, ∀ rest, Inside rest base →
      f (rest.insertIdx d i) = l.getD i 0 rest)
    (hrows : ∀ line ∈ l, Within base line) :
    (ofFn (base.insertIdx d n) f).HasRows base d l := by
  subst hlen
  refine ⟨hd, rfl, ?_⟩
  have hsize : (ofFn (base.insertIdx d l.length) f).size d = l.length :=
    getD_insertIdx_self hd
  rw [rows, hsize]
  refine List.ext_getElem (by simp) fun i hi hi' => ?_
  rw [List.getElem_map, List.getElem_range]
  funext rest
  by_cases hin : Inside rest base
  · rw [row, entry_ofFn f ((Inside.insertIdx_iff hd).mpr ⟨hi', hin⟩), hf i hi' rest hin,
      List.getD_eq_getElem _ _ hi']
  · rw [within_row hd rfl i rest hin, hrows _ (List.getElem_mem hi') rest hin]

theorem hasRows_ofRows (hd : d ≤ base.length) (hrows : ∀ row ∈ l, Within base row) :
    (ofRows base d l).HasRows base d l := by
  refine hasRows_ofFn hd rfl (fun i _ rest hin => ?_) hrows
  have hrest : d ≤ rest.length := hin.length_eq ▸ hd
  rw [getD_insertIdx_self hrest, List.eraseIdx_insertIdx_self]

end Rows

/-! ### Operations -/

section Operations

variable [Zero A]

/-- `torch.cat(parts, dim=d)`. -/
def cat (d : Nat) (parts : List (Tensor A)) : Tensor A :=
  ofRows ((parts.headD default).shape.eraseIdx d) d (parts.flatMap (rows · d))

/-- `torch.index_select(t, d, index)`. -/
def indexSelect (t : Tensor A) (d : Nat) (index : List Nat) : Tensor A :=
  ofRows (t.shape.eraseIdx d) d (index.map (t.row d))

/-- `t.narrow(d, start, length)`. -/
def narrow (t : Tensor A) (d start length : Nat) : Tensor A :=
  ofRows (t.shape.eraseIdx d) d ((List.range length).map fun i => t.row d (start + i))

/-- `t[start:stop]`. -/
def slice (t : Tensor A) (start stop : Nat) : Tensor A :=
  ofRows (t.shape.eraseIdx 0) 0 (((t.rows 0).take stop).drop start)

/-- `t.movedim(source, destination)`. -/
def movedim (t : Tensor A) (source destination : Nat) : Tensor A :=
  ofFn ((t.shape.eraseIdx source).insertIdx destination (t.size source)) fun index =>
    t.entry ((index.eraseIdx destination).insertIdx source (index.getD destination 0))

/-- `torch.nn.functional.pad(t, pads)`: a pair of counts for each axis, the zeros before it and
the zeros after it, from the last axis inwards. -/
def pad (t : Tensor A) (pads : List Nat) : Tensor A :=
  let before := fun k => pads.getD (2 * (t.dim - 1 - k)) 0
  let after := fun k => pads.getD (2 * (t.dim - 1 - k) + 1) 0
  ofFn (t.shape.mapIdx fun k extent => before k + extent + after k) fun index =>
    if (List.range t.dim).all fun k => before k ≤ index.getD k 0 then
      t.entry (index.mapIdx fun k i => i - before k)
    else 0

/-- `torch.zeros(shape)`. -/
def zeros (shape : List Nat) : Tensor A := ofFn shape fun _ => 0

/-- `t.index_copy_(0, index, source)`. -/
def indexCopy (t : Tensor A) (index : List Nat) (source : Tensor A) : Tensor A :=
  ofRows (t.shape.eraseIdx 0) 0 ((List.range (t.size 0)).map
    (scatter (source.size 0) (fun i => index.getD i 0) (source.row 0) (t.row 0)))

/-- The pads that put `count` zeros after axis `d` and none elsewhere. -/
def padsAfter (n d count : Nat) : List Nat :=
  (List.replicate (2 * n) 0).set (2 * (n - 1 - d) + 1) count

end Operations

/-- The entrywise sum of a family of tensors of one shape. -/
def sum {ι : Type*} [Fintype ι] [AddCommMonoid A] (shape : List Nat) (parts : ι → Tensor A) :
    Tensor A :=
  ofFn shape fun index => ∑ i, (parts i).entry index

/-! ### What rows the operations have -/

namespace Within

variable {base : List Nat} {row row' : List Nat → A}

theorem zero [Zero A] : Within base (0 : List Nat → A) := fun _ _ => rfl

theorem getD [Zero A] {l : List (List Nat → A)} (h : ∀ line ∈ l, Within base line) (i : Nat) :
    Within base (l.getD i 0) := by
  by_cases hi : i < l.length
  · rw [List.getD_eq_getElem _ _ hi]
    exact h _ (List.getElem_mem hi)
  · rw [List.getD_eq_default _ _ (Nat.le_of_not_lt hi)]
    exact zero

theorem sum [AddCommMonoid A] {ι : Type*} {f : ι → List Nat → A} {parts : Finset ι}
    (h : ∀ i ∈ parts, Within base (f i)) : Within base (∑ i ∈ parts, f i) := by
  intro rest hrest
  rw [Finset.sum_apply]
  exact Finset.sum_eq_zero fun i hi => h i hi rest hrest

end Within

namespace HasRows

section Zero

variable [Zero A] {t : Tensor A} {base : List Nat} {d : Nat} {l : List (List Nat → A)}

theorem zeros {n : Nat} (hd : d ≤ base.length) :
    (zeros (base.insertIdx d n) : Tensor A).HasRows base d (List.replicate n 0) := by
  have hlen : (List.replicate n (0 : List Nat → A)).length = n := List.length_replicate
  refine hasRows_ofFn hd hlen (fun i hi rest _ => ?_) fun line hline => ?_
  · rw [List.getD_eq_getElem _ _ hi, List.getElem_replicate]
    rfl
  · rw [List.eq_of_mem_replicate hline]
    exact .zero

/-- Parts one after another along the axis. -/
theorem cat {ι : Type*} {parts : List ι} {f : ι → Tensor A} {lines : ι → List (List Nat → A)}
    (hne : parts ≠ []) (h : ∀ i ∈ parts, (f i).HasRows base d (lines i)) :
    (cat d (parts.map f)).HasRows base d (parts.flatMap lines) := by
  obtain ⟨first, rest, rfl⟩ := List.exists_cons_of_ne_nil hne
  have hfirst := h first (List.mem_cons_self ..)
  have hrows : ((first :: rest).map f).flatMap (rows · d) = (first :: rest).flatMap lines := by
    rw [List.flatMap_map]
    exact List.flatMap_congr fun i hi => (h i hi).rows_eq
  rw [Tensor.cat, hrows, List.map_cons, List.headD_cons, hfirst.base_eq]
  refine hasRows_ofRows hfirst.axis fun line hline => ?_
  obtain ⟨i, hi, hmem⟩ := List.mem_flatMap.mp hline
  exact (h i hi).within_rows line hmem

/-- A list of rows of a tensor. -/
theorem map_row (h : t.HasRows base d l) {ι : Type*} (index : List ι) (f : ι → Nat) :
    (ofRows (t.shape.eraseIdx d) d (index.map fun i => t.row d (f i))).HasRows base d
      (index.map fun i => l.getD (f i) 0) := by
  have hrows : (index.map fun i => t.row d (f i)) = index.map fun i => l.getD (f i) 0 :=
    List.map_congr_left fun i _ => h.row_eq (f i)
  rw [hrows, h.base_eq]
  refine hasRows_ofRows h.axis fun line hline => ?_
  obtain ⟨i, -, rfl⟩ := List.mem_map.mp hline
  exact .getD h.within_rows (f i)

/-- Zeros after the last row. -/
theorem pad (h : t.HasRows base d l) (count : Nat) :
    (t.pad (padsAfter t.dim d count)).HasRows base d (l ++ List.replicate count 0) := by
  have hdim : t.dim = base.length + 1 := by
    rw [dim, h.shape, List.length_insertIdx_of_le_length h.axis]
  have hd := h.axis
  have hbefore : ∀ k, (padsAfter t.dim d count).getD (2 * (t.dim - 1 - k)) 0 = 0 := by
    intro k
    rw [padsAfter, List.getD_eq_getElem?_getD, List.getElem?_set_ne (by omega),
      List.getElem?_getD_replicate_default_eq]
  have hafter : ∀ k < t.dim, (padsAfter t.dim d count).getD (2 * (t.dim - 1 - k) + 1) 0 =
      if k = d then count else 0 := by
    intro k hk
    split
    · subst k
      rw [padsAfter, List.getD_eq_getElem?_getD, List.getElem?_set_self (by simp; omega)]
      rfl
    · rw [padsAfter, List.getD_eq_getElem?_getD, List.getElem?_set_ne (by omega),
        List.getElem?_getD_replicate_default_eq]
  have hshape : (t.shape.mapIdx fun k extent => 0 + extent +
      (padsAfter t.dim d count).getD (2 * (t.dim - 1 - k) + 1) 0) =
        base.insertIdx d (l.length + count) := by
    refine List.ext_getElem ?_ fun k hk hk' => ?_
    · rw [List.length_mapIdx, h.shape, List.length_insertIdx_of_le_length hd,
        List.length_insertIdx_of_le_length hd]
    · rw [List.getElem_mapIdx, hafter k (by rw [List.length_mapIdx] at hk; exact hk)]
      simp only [h.shape, List.getElem_insertIdx, Nat.zero_add]
      by_cases hlt : k < d
      · rw [dif_pos hlt, dif_pos hlt, if_neg (Nat.ne_of_lt hlt), Nat.add_zero]
      · by_cases heq : k = d
        · subst k
          simp
        · rw [dif_neg hlt, dif_neg heq, dif_neg hlt, dif_neg heq, if_neg heq, Nat.add_zero]
  rw [Tensor.pad]
  simp only [hbefore]
  rw [hshape]
  refine hasRows_ofFn hd (by simp) (fun i _ rest _ => ?_) fun line hline => ?_
  · have hall : ((List.range t.dim).all fun k =>
        decide (0 ≤ (rest.insertIdx d i).getD k 0)) = true := by simp
    rw [if_pos hall]
    have hindex : ((rest.insertIdx d i).mapIdx fun _ i => i - 0) = rest.insertIdx d i := by
      refine List.ext_getElem (by simp) fun k hk hk' => ?_
      rw [List.getElem_mapIdx, Nat.sub_zero]
    rw [hindex]
    refine (congrFun (h.row_eq i) rest).trans (congrFun ?_ rest)
    by_cases hi : i < l.length
    · rw [List.getD_append _ _ _ _ hi]
    · have hle := Nat.le_of_not_lt hi
      rw [List.getD_eq_default _ _ hle, List.getD_append_right _ _ _ _ hle,
        List.getD_eq_getElem?_getD, List.getElem?_getD_replicate_default_eq]
  · rcases List.mem_append.mp hline with hmem | hmem
    · exact h.within_rows line hmem
    · rw [List.eq_of_mem_replicate hmem]
      exact .zero

theorem indexSelect (h : t.HasRows base d l) (index : List Nat) :
    (t.indexSelect d index).HasRows base d (index.map fun p => l.getD p 0) :=
  h.map_row index id

theorem narrow (h : t.HasRows base d l) (start length : Nat) :
    (t.narrow d start length).HasRows base d
      ((List.range length).map fun i => l.getD (start + i) 0) :=
  h.map_row (List.range length) (start + ·)

theorem slice (h : t.HasRows base 0 l) (start stop : Nat) :
    (t.slice start stop).HasRows base 0 ((l.take stop).drop start) := by
  rw [Tensor.slice, h.rows_eq, h.base_eq]
  exact hasRows_ofRows h.axis fun line hline =>
    h.within_rows line (List.mem_of_mem_take (List.mem_of_mem_drop hline))

/-- The axis moved to the front. -/
theorem movedim_zero (h : t.HasRows base d l) : (t.movedim d 0).HasRows base 0 l := by
  rw [movedim, h.base_eq, h.size_eq]
  refine hasRows_ofFn (Nat.zero_le _) rfl (fun i _ rest _ => ?_) h.within_rows
  rw [← h.row_eq]
  rfl

/-- The first axis moved to where it was. -/
theorem movedim_to (h : t.HasRows base 0 l) (hd : d ≤ base.length) :
    (t.movedim 0 d).HasRows base d l := by
  rw [movedim, h.base_eq, h.size_eq]
  refine hasRows_ofFn hd rfl (fun i _ rest hin => ?_) h.within_rows
  have hrest : d ≤ rest.length := hin.length_eq ▸ hd
  rw [getD_insertIdx_self hrest, List.eraseIdx_insertIdx_self, ← h.row_eq]
  rfl

/-- Writing rows into the first axis. -/
theorem indexCopy (h : t.HasRows base 0 l) {source : Tensor A} {lines : List (List Nat → A)}
    (hsource : source.HasRows base 0 lines) (index : List Nat) :
    (t.indexCopy index source).HasRows base 0 ((List.range l.length).map
      (scatter lines.length (fun i => index.getD i 0) (fun i => lines.getD i 0)
        fun i => l.getD i 0)) := by
  have hrow : t.row 0 = fun i => l.getD i 0 := funext h.row_eq
  have hline : source.row 0 = fun i => lines.getD i 0 := funext hsource.row_eq
  rw [Tensor.indexCopy, hrow, hline, h.base_eq, h.size_eq, hsource.size_eq]
  refine hasRows_ofRows h.axis fun line hmem => ?_
  obtain ⟨p, -, rfl⟩ := List.mem_map.mp hmem
  generalize lines.length = n
  induction n with
  | zero => exact .getD h.within_rows p
  | succ n ih =>
    rw [scatter, Function.update_apply]
    split
    · exact .getD hsource.within_rows n
    · exact ih

end Zero

/-- The sum of tensors laid out alike. -/
theorem sum [AddCommMonoid A] {ι : Type*} [Fintype ι] {base : List Nat} {d n : Nat}
    {parts : ι → Tensor A} {lines : ι → List (List Nat → A)} (hd : d ≤ base.length)
    (h : ∀ i, (parts i).HasRows base d (lines i)) :
    (Tensor.sum (base.insertIdx d n) parts).HasRows base d
      ((List.range n).map fun k => ∑ i, (lines i).getD k 0) := by
  have hlen : ((List.range n).map fun k => ∑ i, (lines i).getD k 0).length = n := by simp
  refine hasRows_ofFn hd hlen (fun k hk rest _ => ?_) fun line hline => ?_
  · rw [List.getD_eq_getElem _ _ hk, List.getElem_map, List.getElem_range, Finset.sum_apply]
    exact Finset.sum_congr rfl fun i _ => congrFun ((h i).row_eq k) rest
  · obtain ⟨k, -, rfl⟩ := List.mem_map.mp hline
    exact .sum fun i _ => .getD (h i).within_rows k

end HasRows

end Tensor

end RapidLlm
