import Mathlib.Algebra.BigOperators.Group.Finset.Basic
import Mathlib.Algebra.Order.Field.Basic
import Mathlib.Algebra.Order.Group.MinMax
import Mathlib.Tactic.Common

/-!
# RapidLlm.Lib.Floating

**Exact numbers with the special values of floating point.** `Floating K` adds `-inf`, `+inf`
and `nan` to an ordered field, and its operations treat these as IEEE arithmetic does: what has
no value is a `nan`, and a `nan` stays one. Nothing is rounded.

A computation that starts from numbers and ends in a number has met no special value that
mattered, which is what the `simp` lemmas below are for: on numbers each operation is that of
the field.
-/

namespace RapidLlm

universe u

/-- A number, or a special value. -/
inductive Floating (K : Type u)
  | num (value : K)
  | negInf
  | posInf
  | nan

/-- An exponential: positive, turning sums into products, with a logarithm as its inverse. -/
class Exponential (K : Type u) [Field K] [LinearOrder K] where
  exp : K → K
  log : K → K
  exp_pos : ∀ x, 0 < exp x
  exp_add : ∀ x y, exp (x + y) = exp x * exp y
  log_exp : ∀ x, log (exp x) = x
  exp_log : ∀ x, 0 < x → exp (log x) = x

namespace Floating

variable {K : Type u}

section Operations

variable [Field K] [LinearOrder K]

/-- An infinity of the sign of a number; of zero there is none. -/
def infinity (sign : K) : Floating K :=
  if 0 < sign then posInf else if sign < 0 then negInf else nan

def add : Floating K → Floating K → Floating K
  | num a, num b => num (a + b)
  | nan, _ => nan
  | _, nan => nan
  | posInf, negInf => nan
  | negInf, posInf => nan
  | posInf, _ => posInf
  | _, posInf => posInf
  | negInf, _ => negInf
  | _, negInf => negInf

def neg : Floating K → Floating K
  | num a => num (-a)
  | negInf => posInf
  | posInf => negInf
  | nan => nan

def mul : Floating K → Floating K → Floating K
  | num a, num b => num (a * b)
  | nan, _ => nan
  | _, nan => nan
  | num a, posInf => infinity a
  | posInf, num a => infinity a
  | num a, negInf => infinity (-a)
  | negInf, num a => infinity (-a)
  | posInf, posInf => posInf
  | negInf, negInf => posInf
  | posInf, negInf => negInf
  | negInf, posInf => negInf

def div : Floating K → Floating K → Floating K
  | num a, num b => if b = 0 then infinity a else num (a / b)
  | nan, _ => nan
  | _, nan => nan
  | num _, _ => num 0
  | posInf, num b => if b < 0 then negInf else posInf
  | negInf, num b => if b < 0 then posInf else negInf
  | _, _ => nan

/-- `maximum`: of a `nan` and something else, the other. -/
def maximum : Floating K → Floating K → Floating K
  | num a, num b => num (max a b)
  | nan, y => y
  | x, nan => x
  | posInf, _ => posInf
  | _, posInf => posInf
  | negInf, y => y
  | x, negInf => x

instance : Zero (Floating K) := ⟨num 0⟩

instance : Add (Floating K) := ⟨add⟩

instance : Sub (Floating K) := ⟨fun x y => add x (neg y)⟩

instance : Mul (Floating K) := ⟨mul⟩

instance : Div (Floating K) := ⟨div⟩

/-- `x > 0`. -/
def Positive : Floating K → Prop
  | num a => 0 < a
  | posInf => True
  | _ => False

instance : DecidablePred (Positive (K := K))
  | num a => inferInstanceAs (Decidable (0 < a))
  | posInf => inferInstanceAs (Decidable True)
  | negInf => inferInstanceAs (Decidable False)
  | nan => inferInstanceAs (Decidable False)

/-- `isfinite`. -/
def isFinite : Floating K → Bool
  | num _ => true
  | _ => false

section Exp

variable [Exponential K]

def exp : Floating K → Floating K
  | num a => num (Exponential.exp a)
  | negInf => num 0
  | posInf => posInf
  | nan => nan

def log : Floating K → Floating K
  | num a => if 0 < a then num (Exponential.log a) else if a = 0 then negInf else nan
  | posInf => posInf
  | _ => nan

end Exp

end Operations

/-! ### Sums -/

section Sums

variable [Field K]

@[simp] theorem num_add (a b : K) : num a + num b = num (a + b) := rfl

@[simp] theorem num_sub (a b : K) : num a - num b = num (a - b) := by
  rw [sub_eq_add_neg]
  rfl

@[simp] theorem negInf_sub_num (a : K) : (negInf : Floating K) - num a = negInf := rfl

instance : AddCommMonoid (Floating K) where
  add_assoc a b c := by
    rcases a with a | _ | _ | _ <;> rcases b with b | _ | _ | _ <;> rcases c with c | _ | _ | _
    case num.num.num => exact congrArg num (add_assoc a b c)
    all_goals rfl
  zero_add a := by
    rcases a with a | _ | _ | _
    case num => exact congrArg num (zero_add a)
    all_goals rfl
  add_zero a := by
    rcases a with a | _ | _ | _
    case num => exact congrArg num (add_zero a)
    all_goals rfl
  add_comm a b := by
    rcases a with a | _ | _ | _ <;> rcases b with b | _ | _ | _
    case num.num => exact congrArg num (add_comm a b)
    all_goals rfl
  nsmul := nsmulRec

/-- `num` keeps sums. -/
def numHom : K →+ Floating K where
  toFun := num
  map_zero' := rfl
  map_add' _ _ := rfl

theorem num_sum {ι : Type*} (s : Finset ι) (f : ι → K) : ∑ i ∈ s, num (f i) = num (∑ i ∈ s, f i) :=
  (map_sum numHom f s).symm

end Sums

/-! ### Maxima -/

section Maxima

variable [LinearOrder K]

/-- `max` of the lanes of a vector. -/
def laneMax (lanes : Nat) (x : Nat → Floating K) : Floating K :=
  (List.range lanes).foldl (fun m j => m.maximum (x j)) negInf

theorem laneMax_succ (lanes : Nat) (x : Nat → Floating K) :
    laneMax (lanes + 1) x = (laneMax lanes x).maximum (x lanes) := by
  rw [laneMax, List.range_succ, List.foldl_append]
  rfl

/-- Lanes that are numbers or `-inf` have such a maximum. -/
theorem laneMax_cases {lanes : Nat} {x : Nat → Floating K}
    (hx : ∀ j < lanes, x j = negInf ∨ ∃ a, x j = num a) :
    (laneMax lanes x = negInf ∧ ∀ j < lanes, x j = negInf) ∨ ∃ a, laneMax lanes x = num a := by
  induction lanes with
  | zero => exact .inl ⟨rfl, fun j hj => absurd hj (Nat.not_lt_zero j)⟩
  | succ lanes ih =>
    rw [laneMax_succ]
    rcases ih fun j hj => hx j (hj.trans (Nat.lt_succ_self lanes)) with ⟨hmax, hall⟩ | ⟨a, hmax⟩ <;>
      rcases hx lanes (Nat.lt_succ_self lanes) with hlast | ⟨b, hlast⟩ <;> rw [hmax, hlast]
    · refine .inl ⟨rfl, fun j hj => ?_⟩
      rcases Nat.lt_succ_iff_lt_or_eq.mp hj with hj | rfl
      · exact hall j hj
      · exact hlast
    · exact .inr ⟨b, rfl⟩
    · exact .inr ⟨a, rfl⟩
    · exact .inr ⟨_, rfl⟩

end Maxima

/-! ### Products and exponentials -/

variable [Field K] [LinearOrder K]

@[simp] theorem num_mul (a b : K) : num a * num b = num (a * b) := rfl

theorem num_div {b : K} (a : K) (hb : b ≠ 0) : num a / num b = num (a / b) := if_neg hb

variable [Exponential K]

@[simp] theorem exp_num (a : K) : exp (num a) = num (Exponential.exp a) := rfl

@[simp] theorem exp_negInf : exp (negInf : Floating K) = num 0 := rfl

theorem log_num {a : K} (ha : 0 < a) : log (num a) = num (Exponential.log a) := if_pos ha

theorem log_zero : log (num 0 : Floating K) = negInf :=
  (if_neg (lt_irrefl (0 : K))).trans (if_pos rfl)

end Floating

end RapidLlm
