import Mathlib.Data.Rat.Floor
import Mathlib.Tactic.Linarith

/-!
# RapidLlm.Lib.Rounding

**Rounding to an integer and clamping.** `roundEven` rounds a rational to the nearest integer,
ties to the even one; `clamp` brings an integer into a range. What the two together lose is
within one exactly for the values within one of the range (`abs_clamp_sub_le_one_iff`), so an
error bound for a quantiser is a range condition on what it rounds.
-/

namespace RapidLlm

/-- The nearest integer, of two equally near the even one. -/
def roundEven (x : ℚ) : ℤ :=
  if x - ⌊x⌋ < 1 / 2 then ⌊x⌋
  else if 1 / 2 < x - ⌊x⌋ then ⌊x⌋ + 1
  else if ⌊x⌋ % 2 = 0 then ⌊x⌋ else ⌊x⌋ + 1

example : roundEven (5 / 2) = 2 ∧ roundEven (-5 / 2) = -2 ∧ roundEven (7 / 2) = 4 := by
  decide +kernel

/-- `t.clamp(lo, hi)`. -/
def clamp (lo hi x : ℤ) : ℤ := min (max x lo) hi

variable {lo hi : ℤ}

theorem abs_roundEven_sub_le (x : ℚ) : |(roundEven x : ℚ) - x| ≤ 1 / 2 := by
  have hle := Int.floor_le x
  have hlt := Int.lt_floor_add_one x
  unfold roundEven
  rw [abs_le]
  split_ifs
  all_goals
    push_cast
    constructor <;> linarith

theorem clamp_mem (h : lo ≤ hi) (x : ℤ) : lo ≤ clamp lo hi x ∧ clamp lo hi x ≤ hi := by
  unfold clamp
  omega

/-- A rounded and clamped value is within one of what it was exactly where that was within one
of the range. -/
theorem abs_clamp_sub_le_one_iff (h : lo ≤ hi) (y : ℚ) :
    |(clamp lo hi (roundEven y) : ℚ) - y| ≤ 1 ↔ (lo : ℚ) - 1 ≤ y ∧ y ≤ hi + 1 := by
  obtain ⟨hround, hround'⟩ := abs_le.mp (abs_roundEven_sub_le y)
  obtain ⟨hlo, hhi⟩ := clamp_mem h (roundEven y)
  have hloQ : (lo : ℚ) ≤ clamp lo hi (roundEven y) := by exact_mod_cast hlo
  have hhiQ : (clamp lo hi (roundEven y) : ℚ) ≤ hi := by exact_mod_cast hhi
  rw [abs_le]
  constructor
  · intro hnear
    constructor <;> linarith [hnear.1, hnear.2]
  · intro hrange
    rcases lt_or_ge (roundEven y) lo with hbelow | hge
    · have hclamp : clamp lo hi (roundEven y) = lo := by
        unfold clamp
        omega
      have hstep : (roundEven y : ℚ) + 1 ≤ lo := by exact_mod_cast hbelow
      rw [hclamp]
      constructor <;> linarith [hrange.1, hrange.2]
    · rcases lt_or_ge hi (roundEven y) with habove | hle
      · have hclamp : clamp lo hi (roundEven y) = hi := by
          unfold clamp
          omega
        have hstep : (hi : ℚ) + 1 ≤ roundEven y := by exact_mod_cast habove
        rw [hclamp]
        constructor <;> linarith [hrange.1, hrange.2]
      · have hclamp : clamp lo hi (roundEven y) = roundEven y := by
          unfold clamp
          omega
        rw [hclamp]
        constructor <;> linarith

end RapidLlm
