import Mathlib.Algebra.BigOperators.Field
import Mathlib.Algebra.BigOperators.Pi
import Mathlib.Algebra.Order.BigOperators.Group.Finset
import Mathlib.Analysis.SpecialFunctions.Log.Basic
import Mathlib.Tactic.Ring
import RapidLlm.Lib.Floating

/-!
# RapidLlm.Lib.OnlineSoftmax

**A softmax-weighted sum, taken piece by piece.** A loop keeps a running maximum, the weights
added up relative to it and the values weighted the same way, and rescales the two when the
maximum grows. `Stands` says which weights such a state stands for: a tile of scores adds what
its unmasked lanes weigh (`Stands.tile`), a part that was normalised on its own adds what it
stood for (`Stands.absorb`), and so in any order and any division into tiles and parts the
end is the same. Parts that meet at once, by their log-sum-exps, are `merged`.

A total is the weight of some scores and, lane by lane, their values so weighted. Which number a
state takes as its maximum does not matter, only that it is none exactly when nothing was added.
-/

namespace RapidLlm

open Floating

universe u

variable {K : Type u} [Field K]

/-- The weight of some scores, and their values so weighted. -/
abbrev Total (K : Type u) := K × (Nat → K)

namespace Total

variable {ι : Type*}

theorem sum_fst (s : Finset ι) (part : ι → Total K) : (∑ i ∈ s, part i).1 = ∑ i ∈ s, (part i).1 :=
  map_sum (AddMonoidHom.fst K (Nat → K)) part s

theorem sum_snd (s : Finset ι) (part : ι → Total K) (x : Nat) :
    (∑ i ∈ s, part i).2 x = ∑ i ∈ s, (part i).2 x :=
  (congrFun (map_sum (AddMonoidHom.snd K (Nat → K)) part s) x).trans (Finset.sum_apply x s _)

end Total

variable [LinearOrder K]

namespace Total

variable {total : Total K}

/-- The softmax-weighted sum; of nothing it is zero. -/
def softmax (total : Total K) (x : Nat) : Floating K :=
  if total.1 = 0 then num 0 else num (total.2 x / total.1)

theorem softmax_zero (x : Nat) : (0 : Total K).softmax x = num 0 := if_pos rfl

theorem softmax_pos (h : 0 < total.1) (x : Nat) :
    total.softmax x = num (total.2 x / total.1) :=
  if_neg h.ne'

/-- Nothing, or something of positive weight. -/
def Proper (total : Total K) : Prop := total = 0 ∨ 0 < total.1

theorem Proper.nonneg (h : total.Proper) : 0 ≤ total.1 := by
  rcases h with rfl | h
  · exact le_rfl
  · exact h.le

theorem proper_sum_range [IsStrictOrderedRing K] {parts : Nat → Total K} {n : Nat}
    (h : ∀ r < n, (parts r).Proper) :
    (∑ r ∈ Finset.range n, parts r).Proper := by
  induction n with
  | zero => exact .inl rfl
  | succ n ih =>
    rw [Finset.sum_range_succ]
    rcases ih fun r hr => h r (hr.trans n.lt_succ_self) with hzero | hpos <;>
      rcases h n n.lt_succ_self with hlast | hlast
    · exact .inl (by rw [hzero, hlast, add_zero])
    · exact .inr (by rwa [hzero, zero_add])
    · exact .inr (by rwa [hlast, add_zero])
    · exact .inr (add_pos hpos hlast)

end Total

variable [Exponential K]

namespace Exponential

theorem exp_mul_exp_sub (a b : K) : exp b * exp (a - b) = exp a := by
  rw [← exp_add, add_sub_cancel]

/-- The logarithm of a product, where one factor is a power. -/
theorem log_exp_mul (m : K) {d : K} (hd : 0 < d) : log (exp m * d) = m + log d := by
  have hprod : exp m * d = exp (m + log d) := by rw [exp_add, exp_log d hd]
  rw [hprod, log_exp]

end Exponential

namespace Total

/-- One score and the value behind it. -/
def weigh (score : K) (value : Nat → K) : Total K :=
  (Exponential.exp score, fun x => Exponential.exp score * value x)

/-- The log-sum-exp; of nothing it is `-inf`. -/
def lse (total : Total K) : Floating K :=
  if total.1 = 0 then negInf else num (Exponential.log total.1)

variable {ι : Type*} {s : Finset ι} {score : ι → K} {value : ι → Nat → K} {total : Total K}

theorem lse_zero : (0 : Total K).lse = negInf := if_pos rfl

theorem lse_pos (h : 0 < total.1) : total.lse = num (Exponential.log total.1) := if_neg h.ne'

theorem weigh_pos (score : K) (value : Nat → K) : 0 < (weigh score value).1 := Exponential.exp_pos score

/-- Weights relative to a maximum, and the factor that makes up for it. -/
theorem weigh_relative (m : K) (score : K) (value : Nat → K) :
    weigh score value = (Exponential.exp m * Exponential.exp (score - m),
      fun x => Exponential.exp m * (Exponential.exp (score - m) * value x)) := by
  simp only [← mul_assoc, Exponential.exp_mul_exp_sub]
  rfl

/-- The values, all times a constant. -/
def scale (c : K) (total : Total K) : Total K := (total.1, fun x => total.2 x * c)

theorem scale_sum (s : Finset ι) (score : ι → K) (value : ι → Nat → K) (c : K) :
    scale c (∑ i ∈ s, weigh (score i) (value i)) =
      ∑ i ∈ s, weigh (score i) fun x => value i x * c := by
  refine Prod.ext ?_ (funext fun x => ?_)
  · change (∑ i ∈ s, weigh (score i) (value i)).1 = _
    rw [sum_fst, sum_fst]
    rfl
  · change (∑ i ∈ s, weigh (score i) (value i)).2 x * c = _
    rw [sum_snd, sum_snd, Finset.sum_mul]
    exact Finset.sum_congr rfl fun i _ => mul_assoc _ _ _

/-- A part that was normalised weighs what it stood for. -/
theorem weigh_log (h : 0 < total.1) :
    weigh (Exponential.log total.1) (fun x => total.2 x / total.1) = total := by
  refine Prod.ext (Exponential.exp_log _ h) (funext fun x => ?_)
  change Exponential.exp (Exponential.log total.1) * (total.2 x / total.1) = total.2 x
  rw [Exponential.exp_log _ h, mul_div_cancel₀ _ h.ne']

variable [IsStrictOrderedRing K]

theorem sum_pos (hs : s.Nonempty) : 0 < (∑ i ∈ s, weigh (score i) (value i)).1 := by
  rw [sum_fst]
  exact Finset.sum_pos (fun i _ => weigh_pos (score i) (value i)) hs

theorem proper_sum (s : Finset ι) (score : ι → K) (value : ι → Nat → K) :
    (∑ i ∈ s, weigh (score i) (value i)).Proper := by
  rcases s.eq_empty_or_nonempty with rfl | hs
  · exact .inl rfl
  · exact .inr (sum_pos hs)

end Total

/-! ### The loop -/

/-- What the loop carries: the maximum, the weights and the weighted values so far. -/
structure SoftmaxState (K : Type u) where
  m : Floating K
  d : Floating K
  acc : Nat → Floating K

namespace SoftmaxState

def init : SoftmaxState K := ⟨negInf, num 0, fun _ => num 0⟩

/-- A tile of scores, with the values behind them. -/
def tile (lanes : Nat) (score : Nat → Floating K) (value : Nat → Nat → Floating K)
    (st : SoftmaxState K) : SoftmaxState K :=
  let m := st.m.maximum (laneMax lanes score)
  let p := fun j => exp (score j - m)
  let alpha := exp (st.m - m)
  { m
    d := alpha * st.d + ∑ j ∈ Finset.range lanes, p j
    acc := fun x => alpha * st.acc x + ∑ j ∈ Finset.range lanes, p j * value j x }

/-- A part that is already normalised, with its log-sum-exp. -/
def absorb (partMax : Floating K) (partV : Nat → Floating K) (st : SoftmaxState K) :
    SoftmaxState K :=
  let m := partMax.maximum st.m
  let alpha := exp (st.m - m)
  let p := exp (partMax - m)
  ⟨m, alpha * st.d + p, fun x => alpha * st.acc x + p * partV x⟩

/-- The state stands for `total`. -/
def Stands (st : SoftmaxState K) (total : Total K) : Prop :=
  (total = 0 ∧ st = init) ∨
    ∃ (m d : K) (acc : Nat → K), 0 < d ∧ st = ⟨num m, num d, fun x => num (acc x)⟩ ∧
      total = (Exponential.exp m * d, fun x => Exponential.exp m * acc x)

variable {st : SoftmaxState K} {total part : Total K}

theorem stands_init : Stands (init : SoftmaxState K) 0 := Or.inl ⟨rfl, rfl⟩

/-- A state is rescaled to any maximum by one factor, and then stands for the same. -/
theorem Stands.rescale (h : Stands st total) (m' : K) :
    ∃ (a d : K) (acc : Nat → K), exp (st.m - num m') = num a ∧ st.d = num d ∧ st.acc = (fun x => num (acc x)) ∧
      total = (Exponential.exp m' * (a * d), fun x => Exponential.exp m' * (a * acc x)) := by
  rcases h with ⟨rfl, rfl⟩ | ⟨m, d, acc, hd, rfl, rfl⟩
  · refine ⟨0, 0, fun _ => 0, rfl, rfl, rfl, ?_⟩
    simp only [mul_zero]
    rfl
  · refine ⟨Exponential.exp (m - m'), d, acc, by simp, rfl, rfl, ?_⟩
    simp only [← mul_assoc, Exponential.exp_mul_exp_sub]

/-- The maximum is a number, or nothing was added. -/
theorem Stands.maximum (h : Stands st total) : (total = 0 ∧ st.m = negInf) ∨ ∃ m, st.m = num m := by
  rcases h with ⟨rfl, rfl⟩ | ⟨m, d, acc, -, rfl, -⟩
  · exact .inl ⟨rfl, rfl⟩
  · exact .inr ⟨m, rfl⟩

/-- Scaling what was accumulated scales what it stands for. -/
theorem Stands.scale (h : Stands st total) (c : K) :
    Stands ⟨st.m, st.d, fun x => st.acc x * num c⟩ (total.scale c) := by
  rcases h with ⟨rfl, rfl⟩ | ⟨m, d, acc, hd, rfl, rfl⟩
  · refine Or.inl ⟨Prod.ext rfl (funext fun x => zero_mul c), ?_⟩
    change (⟨negInf, num 0, fun _ => num (0 * c)⟩ : SoftmaxState K) = ⟨negInf, num 0, fun _ => num 0⟩
    rw [zero_mul]
  · exact .inr ⟨m, d, fun x => acc x * c, hd, rfl,
      Prod.ext rfl (funext fun x => mul_assoc _ _ _)⟩

/-- A loop whose rounds add a part each. -/
theorem Stands.foldl {κ : Type*} {xs : List κ} {body : SoftmaxState K → κ → SoftmaxState K}
    (h : Stands st total) (parts : κ → Total K)
    (hbody : ∀ x ∈ xs, ∀ st total, Stands st total → Stands (body st x) (total + parts x)) :
    Stands (xs.foldl body st) (total + (xs.map parts).sum) := by
  induction xs generalizing st total with
  | nil => simpa using h
  | cons x xs ih =>
    rw [List.foldl_cons, List.map_cons, List.sum_cons, ← add_assoc]
    exact ih (hbody x List.mem_cons_self st total h) fun y hy =>
      hbody y (List.mem_cons_of_mem _ hy)

theorem Stands.softmax (h : Stands st total) (hpos : 0 < total.1) (x : Nat) :
    st.acc x / st.d = total.softmax x := by
  rcases h with ⟨rfl, -⟩ | ⟨m, d, acc, hd, rfl, rfl⟩
  · exact absurd hpos (lt_irrefl 0)
  · rw [Total.softmax_pos hpos, num_div _ hd.ne',
      mul_div_mul_left _ _ (Exponential.exp_pos m).ne']

theorem Stands.lse (h : Stands st total) (hpos : 0 < total.1) :
    st.m + log st.d = total.lse := by
  rcases h with ⟨rfl, -⟩ | ⟨m, d, acc, hd, rfl, rfl⟩
  · exact absurd hpos (lt_irrefl 0)
  · rw [Total.lse_pos hpos, log_num hd, num_add, Exponential.log_exp_mul m hd]

variable [IsStrictOrderedRing K]

theorem Stands.proper (h : Stands st total) : total.Proper := by
  rcases h with ⟨rfl, -⟩ | ⟨m, d, acc, hd, -, rfl⟩
  · exact .inl rfl
  · exact .inr (mul_pos (Exponential.exp_pos m) hd)

theorem Stands.positive_iff (h : Stands st total) : st.d.Positive ↔ 0 < total.1 := by
  rcases h with ⟨rfl, rfl⟩ | ⟨m, d, acc, hd, rfl, rfl⟩
  · exact Iff.rfl
  · exact ⟨fun _ => mul_pos (Exponential.exp_pos m) hd, fun _ => hd⟩

/-- A loop whose first round adds something, so that the others may add nothing. -/
theorem Stands.foldl_range {n : Nat} {body : SoftmaxState K → Nat → SoftmaxState K}
    (parts : Nat → Total K) (hparts : ∀ t, (parts t).Proper) (hfirst : 0 < (parts 0).1)
    (hbody : ∀ t < n, ∀ st total, Stands st total → (t = 0 ∨ 0 < total.1) →
      Stands (body st t) (total + parts t)) :
    Stands ((List.range n).foldl body init) (∑ t ∈ Finset.range n, parts t) := by
  induction n with
  | zero => exact stands_init
  | succ n ih =>
    rw [List.range_succ, List.foldl_append, Finset.sum_range_succ]
    refine hbody n n.lt_succ_self _ _ (ih fun t ht => hbody t (ht.trans n.lt_succ_self)) ?_
    rcases Nat.eq_zero_or_pos n with hzero | hpos
    · exact .inl hzero
    · refine .inr ?_
      rw [Total.sum_fst]
      exact Finset.sum_pos' (fun t _ => (hparts t).nonneg)
        ⟨0, Finset.mem_range.mpr hpos, hfirst⟩

/-- The end of a loop that may have added nothing: then the divisor is not used. -/
theorem Stands.finish_out (h : Stands st total) (x : Nat) :
    (st.acc x / if st.d.Positive then st.d else num 1) = total.softmax x := by
  by_cases hpos : 0 < total.1
  · rw [if_pos (h.positive_iff.mpr hpos), h.softmax hpos]
  · rw [if_neg (mt h.positive_iff.mp hpos)]
    rcases h with ⟨rfl, rfl⟩ | ⟨m, d, acc, hd, rfl, rfl⟩
    · rw [Total.softmax_zero]
      exact (num_div 0 one_ne_zero).trans (congrArg num (zero_div 1))
    · exact absurd (mul_pos (Exponential.exp_pos m) hd) hpos

theorem Stands.finish_lse (h : Stands st total) :
    (if st.d.Positive then st.m + log st.d else negInf) = total.lse := by
  by_cases hpos : 0 < total.1
  · rw [if_pos (h.positive_iff.mpr hpos), h.lse hpos]
  · rw [if_neg (mt h.positive_iff.mp hpos), h.proper.resolve_right hpos, Total.lse_zero]

/-- The state a rescaling leaves, once some positive weight is in it. -/
theorem stands_of_rescaled {m : K} (d : K) (acc : Nat → K) (hst : st.m = num m) (hd : st.d = num d)
    (hacc : ∀ x, st.acc x = num (acc x))
    (htotal : total = (Exponential.exp m * d, fun x => Exponential.exp m * acc x)) (hpos : 0 < total.1) :
    Stands st total := by
  refine .inr ⟨m, d, acc, ?_, ?_, htotal⟩
  · rw [htotal] at hpos
    exact pos_of_mul_pos_right hpos (Exponential.exp_pos m).le
  · obtain ⟨_, _, _⟩ := st
    simp only at hst hd hacc
    rw [hst, hd, funext hacc]

/-- A tile adds what its live lanes weigh. It has one, or something was added before. -/
theorem Stands.tile {lanes : Nat} {score : Nat → Floating K}
    {value : Nat → Nat → Floating K} {s : Nat → K} {v : Nat → Nat → K} (h : Stands st total)
    (live : Finset Nat) (hlive : live ⊆ Finset.range lanes) (hsome : live.Nonempty ∨ 0 < total.1)
    (hscore : ∀ j < lanes, score j = if j ∈ live then num (s j) else negInf)
    (hvalue : ∀ j < lanes, ∀ x, value j x = num (v j x)) :
    Stands (st.tile lanes score value) (total + ∑ j ∈ live, Total.weigh (s j) (v j)) := by
  obtain ⟨m', hmax⟩ : ∃ m', st.m.maximum (laneMax lanes score) = num m' := by
    have hcases : ∀ j < lanes, score j = negInf ∨ ∃ a, score j = num a := fun j hj => by
      rw [hscore j hj]
      split
      · exact .inr ⟨_, rfl⟩
      · exact .inl rfl
    rcases laneMax_cases hcases with ⟨hmax, hall⟩ | ⟨a, hmax⟩ <;>
      rcases h.maximum with ⟨rfl, hm⟩ | ⟨m, hm⟩ <;> rw [hmax, hm]
    · -- nothing before and nothing in the tile
      obtain ⟨j, hj⟩ := hsome.resolve_right (lt_irrefl 0)
      have hlt := Finset.mem_range.mp (hlive hj)
      have hnone := hall j hlt
      rw [hscore j hlt, if_pos hj] at hnone
      cases hnone
    · exact ⟨m, rfl⟩
    · exact ⟨a, rfl⟩
    · exact ⟨_, rfl⟩
  obtain ⟨a, d, acc, halpha, hd, hacc, htotal⟩ := h.rescale m'
  have hp : ∀ j ∈ Finset.range lanes,
      exp (score j - num m') = num (if j ∈ live then Exponential.exp (s j - m') else 0) := fun j hj => by
    rw [hscore j (Finset.mem_range.mp hj)]
    split <;> simp
  have hsum : ∀ f : Nat → K, ∑ j ∈ Finset.range lanes, (if j ∈ live then f j else 0) =
      ∑ j ∈ live, f j := fun f => by
    rw [Finset.sum_ite_mem, Finset.inter_eq_right.mpr hlive]
  have hpos : 0 < (total + ∑ j ∈ live, Total.weigh (s j) (v j)).1 := by
    rw [Prod.fst_add]
    rcases hsome with hlive | hpos
    · exact add_pos_of_nonneg_of_pos h.proper.nonneg (Total.sum_pos hlive)
    · exact add_pos_of_pos_of_nonneg hpos (Total.proper_sum live s v).nonneg
  refine stands_of_rescaled (a * d + ∑ j ∈ live, Exponential.exp (s j - m'))
    (fun x => a * acc x + ∑ j ∈ live, Exponential.exp (s j - m') * v j x) hmax ?_ (fun x => ?_)
    ?_ hpos
  · change exp (st.m - st.m.maximum (laneMax lanes score)) * st.d +
      ∑ j ∈ Finset.range lanes, exp (score j - st.m.maximum (laneMax lanes score)) = _
    rw [hmax, halpha, hd, Finset.sum_congr rfl hp, num_sum, hsum, num_mul, num_add]
  · change exp (st.m - st.m.maximum (laneMax lanes score)) * st.acc x +
      ∑ j ∈ Finset.range lanes,
        exp (score j - st.m.maximum (laneMax lanes score)) * value j x = _
    have hpv : ∀ j ∈ Finset.range lanes, exp (score j - num m') * value j x =
        num (if j ∈ live then Exponential.exp (s j - m') * v j x else 0) := fun j hj => by
      rw [hp j hj, hvalue j (Finset.mem_range.mp hj), num_mul, ite_mul, zero_mul]
    rw [hmax, halpha, hacc, Finset.sum_congr rfl hpv, num_sum, hsum, num_mul, num_add]
  · refine Prod.ext ?_ (funext fun x => ?_)
    · rw [Prod.fst_add, htotal, Total.sum_fst, mul_add, Finset.mul_sum]
      simp only [Total.weigh_relative m']
    · rw [Prod.snd_add, Pi.add_apply, htotal, Total.sum_snd]
      simp only [Total.weigh_relative m', mul_add, Finset.mul_sum]

/-- A part adds what it stood for. -/
theorem Stands.absorb (h : Stands st total) (hpart : 0 < part.1) :
    Stands (st.absorb part.lse part.softmax) (total + part) := by
  have hlse := Total.lse_pos hpart
  have hout := funext (Total.softmax_pos hpart)
  obtain ⟨m', hmax⟩ : ∃ m', part.lse.maximum st.m = num m' := by
    rw [hlse]
    rcases h.maximum with ⟨-, hm⟩ | ⟨m, hm⟩ <;> rw [hm]
    · exact ⟨_, rfl⟩
    · exact ⟨_, rfl⟩
  obtain ⟨a, d, acc, halpha, hd, hacc, htotal⟩ := h.rescale m'
  have hp : exp (part.lse - num m') = num (Exponential.exp (Exponential.log part.1 - m')) := by
    rw [hlse, num_sub, exp_num]
  have hpos : 0 < (total + part).1 := add_pos_of_nonneg_of_pos h.proper.nonneg hpart
  refine stands_of_rescaled (a * d + Exponential.exp (Exponential.log part.1 - m'))
    (fun x => a * acc x + Exponential.exp (Exponential.log part.1 - m') * (part.2 x / part.1)) hmax
    ?_ (fun x => ?_) ?_ hpos
  · change exp (st.m - part.lse.maximum st.m) * st.d + exp (part.lse - part.lse.maximum st.m) = _
    rw [hmax, halpha, hd, hp, num_mul, num_add]
  · change exp (st.m - part.lse.maximum st.m) * st.acc x +
      exp (part.lse - part.lse.maximum st.m) * part.softmax x = _
    rw [hmax, halpha, hacc, hp, hout, num_mul, num_mul, num_add]
  · conv_lhs => rw [htotal, ← Total.weigh_log hpart, Total.weigh_relative m']
    simp only [mul_add]
    rfl

end SoftmaxState

/-- The exponential of the reals is one. -/
noncomputable instance : Exponential ℝ where
  exp := Real.exp
  log := Real.log
  exp_pos := Real.exp_pos
  exp_add := Real.exp_add
  log_exp := Real.log_exp
  exp_log _ h := Real.exp_log h

/-! ### Parts that meet at once -/

section Merge

variable [IsStrictOrderedRing K] {parts : Nat → Total K} {n : Nat}

/-- The log-sum-exp of numbers that may be `-inf`. -/
def logSumExp (n : Nat) (lse : Nat → Floating K) : Floating K :=
  log (∑ r ∈ Finset.range n, exp (lse r))

omit [IsStrictOrderedRing K] in
theorem exp_lse {part : Total K} (h : part.Proper) : exp part.lse = num part.1 := by
  rcases h with rfl | h
  · rw [Total.lse_zero, exp_negInf]
    rfl
  · rw [Total.lse_pos h, exp_num, Exponential.exp_log _ h]

/-- The log-sum-exp of parts is that of all they stand for. -/
theorem logSumExp_parts (h : ∀ r < n, (parts r).Proper) :
    logSumExp n (fun r => (parts r).lse) = (∑ r ∈ Finset.range n, parts r).lse := by
  have hexp : ∀ r ∈ Finset.range n, exp (parts r).lse = num (parts r).1 := fun r hr =>
    exp_lse (h r (Finset.mem_range.mp hr))
  rw [logSumExp, Finset.sum_congr rfl hexp, num_sum, ← Total.sum_fst]
  rcases Total.proper_sum_range h with hzero | hpos
  · rw [hzero, Total.lse_zero]
    exact log_zero
  · rw [Total.lse_pos hpos, log_num hpos]

/-- How much a part counts among all. -/
def mergeWeight (global local' : Floating K) : Floating K :=
  if global.isFinite then exp (local' - global) else num 0

/-- The parts, each weighted, add up to the softmax of all. -/
theorem merged (h : ∀ r < n, (parts r).Proper) (x : Nat) :
    ∑ r ∈ Finset.range n, (parts r).softmax x *
        mergeWeight (∑ r ∈ Finset.range n, parts r).lse (parts r).lse =
      (∑ r ∈ Finset.range n, parts r).softmax x := by
  have hsum := Total.proper_sum_range h
  generalize htotal : ∑ r ∈ Finset.range n, parts r = total at hsum ⊢
  have hterm : ∀ r ∈ Finset.range n, (parts r).softmax x * mergeWeight total.lse (parts r).lse =
      num ((parts r).2 x / total.1) := by
    intro r hr
    have hpart := h r (Finset.mem_range.mp hr)
    rcases hsum with hzero | hpos
    · -- all parts are empty, and so is this one
      have hle : (parts r).1 ≤ total.1 := by
        rw [← htotal, Total.sum_fst]
        exact Finset.single_le_sum (fun i hi => (h i (Finset.mem_range.mp hi)).nonneg) hr
      rw [hzero] at hle ⊢
      have hnone : parts r = 0 := hpart.resolve_right (not_lt.mpr hle)
      rw [hnone, Total.softmax_zero, Total.lse_zero]
      simp [mergeWeight, isFinite]
    · rw [mergeWeight, Total.lse_pos hpos, isFinite, if_pos rfl]
      rcases hpart with hnone | hsome
      · rw [hnone, Total.softmax_zero, Total.lse_zero, negInf_sub_num, exp_negInf, num_mul]
        simp
      · rw [Total.softmax_pos hsome, Total.lse_pos hsome, num_sub, exp_num, num_mul]
        have hweight : Exponential.exp (Exponential.log (parts r).1 - Exponential.log total.1) =
            (parts r).1 / total.1 := by
          rw [eq_div_iff hpos.ne', mul_comm]
          conv_lhs => rw [← Exponential.exp_log _ hpos]
          rw [Exponential.log_exp, Exponential.exp_mul_exp_sub, Exponential.exp_log _ hsome]
        rw [hweight, div_mul_div_cancel₀ hsome.ne']
  rw [Finset.sum_congr rfl hterm, num_sum, ← Finset.sum_div, ← Total.sum_snd, htotal]
  rcases hsum with hzero | hpos
  · rw [hzero, Total.softmax_zero]
    simp
  · rw [Total.softmax_pos hpos]

end Merge

end RapidLlm
