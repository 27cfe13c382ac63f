import Mathlib.Algebra.BigOperators.Group.Finset.Basic
import Mathlib.Algebra.Order.Ring.Int
import Mathlib.Tactic.Ring
import Mathlib.Tactic.Linarith

/-!
# RapidLlm.Lib.PackedWord

**Small numbers side by side in a 32-bit word.** A word is a signed integer in two's
complement. `pack` shifts each number to its place, every shift narrowed to 32 bits, adds them
in a wider type and narrows the sum; `field` shifts a word right, keeping its sign, and masks.

`wideSum_mem` says the sum already fits, the top number turning it negative at most;
`field_pack` that reading gives back what was packed. Both hold for any width that divides the
word evenly.
-/

namespace RapidLlm.PackedWord

open Finset (range)

/-- A value as an `int32`. -/
def toInt32 (x : Int) : Int := Int.bmod x (2 ^ 32)

/-- What an `int32` holds. -/
def Fits (x : Int) : Prop := -2 ^ 31 ≤ x ∧ x < 2 ^ 31

/-- `(word >> width * j) & (2 ** width - 1)`. -/
def field (width : Nat) (word : Int) (j : Nat) : Int := (word >>> (width * j)) % 2 ^ width

/-- `(digits << shifts).sum()`: every shift is an `int32`, the sum is wider. -/
def wideSum (width count : Nat) (digits : Nat → Int) : Int :=
  ∑ j ∈ range count, toInt32 (digits j <<< (width * j))

/-- The sum narrowed to a word. -/
def pack (width count : Nat) (digits : Nat → Int) : Int := toInt32 (wideSum width count digits)

/-- Every number fits the place it is given. -/
def Digits (width count : Nat) (digits : Nat → Int) : Prop :=
  ∀ j < count, 0 ≤ digits j ∧ digits j < 2 ^ width

variable {width count : Nat} {digits : Nat → Int} {x : Int}

theorem toInt32_fits (x : Int) : Fits (toInt32 x) := by
  have hle := Int.le_bmod (x := x) (m := 2 ^ 32) (by norm_num)
  have hlt := Int.bmod_lt (x := x) (m := 2 ^ 32) (by norm_num)
  exact ⟨by simpa [toInt32] using hle, by simpa [toInt32] using hlt⟩

theorem toInt32_of_fits (h : Fits x) : toInt32 x = x := by
  obtain ⟨hle, hlt⟩ := h
  rw [toInt32, Int.bmod_def]
  omega

/-- Narrowing changes a value by a multiple of the word size. -/
theorem exists_toInt32 (x : Int) : ∃ t : Int, toInt32 x = x + t * 2 ^ 32 := by
  rw [toInt32, Int.bmod_def]
  split
  · exact ⟨-(x / 2 ^ 32), by omega⟩
  · exact ⟨-(x / 2 ^ 32) - 1, by omega⟩

/-! ### Numbers side by side -/

/-- The numbers at their places, nothing narrowed. -/
def exactSum (width count : Nat) (digits : Nat → Int) : Int :=
  ∑ j ∈ range count, digits j * 2 ^ (width * j)

theorem exactSum_succ : exactSum width (count + 1) digits =
    exactSum width count digits + digits count * 2 ^ (width * count) :=
  Finset.sum_range_succ _ _

theorem Digits.mono (h : Digits width count digits) {less : Nat} (hle : less ≤ count) :
    Digits width less digits :=
  fun j hj => h j (Nat.lt_of_lt_of_le hj hle)

theorem two_pow_pos (n : Nat) : (0 : Int) < 2 ^ n := by positivity

/-- Numbers side by side stay below the next place. -/
theorem exactSum_mem (h : Digits width count digits) :
    0 ≤ exactSum width count digits ∧ exactSum width count digits < 2 ^ (width * count) := by
  induction count with
  | zero => simp [exactSum]
  | succ count ih =>
    obtain ⟨hle, hlt⟩ := ih (h.mono (Nat.le_succ count))
    obtain ⟨hdle, hdlt⟩ := h count (Nat.lt_succ_self count)
    have hpos := two_pow_pos (width * count)
    have hpow : (2 : Int) ^ (width * (count + 1)) = 2 ^ width * 2 ^ (width * count) := by
      rw [Nat.mul_succ, pow_add, mul_comm]
    have htop : digits count * 2 ^ (width * count) ≤ (2 ^ width - 1) * 2 ^ (width * count) :=
      mul_le_mul_of_nonneg_right (by omega) hpos.le
    rw [exactSum_succ, hpow]
    constructor
    · have := mul_nonneg hdle hpos.le
      omega
    · rw [sub_mul, one_mul] at htop
      omega

/-- Each number reads back, whatever stands above the numbers. -/
theorem field_exactSum (h : Digits width count digits) (above : Int) {j : Nat} (hj : j < count) :
    field width (exactSum width count digits + above * 2 ^ (width * count)) j = digits j := by
  induction count generalizing above with
  | zero => exact absurd hj (Nat.not_lt_zero j)
  | succ count ih =>
    have hsplit : exactSum width (count + 1) digits + above * 2 ^ (width * (count + 1)) =
        exactSum width count digits +
          (digits count + above * 2 ^ width) * 2 ^ (width * count) := by
      rw [exactSum_succ, Nat.mul_succ, pow_add]
      ring
    rw [hsplit]
    rcases Nat.lt_succ_iff_lt_or_eq.mp hj with hlt | rfl
    · exact ih (h.mono (Nat.le_succ count)) _ hlt
    · obtain ⟨hle, hlt⟩ := exactSum_mem (h.mono (Nat.le_succ j))
      obtain ⟨hdle, hdlt⟩ := h j (Nat.lt_succ_self j)
      rw [field, Int.shiftRight_eq_div_pow]
      push_cast
      rw [Int.add_mul_ediv_right _ _ (two_pow_pos _).ne', Int.ediv_eq_zero_of_lt hle hlt,
        zero_add, Int.add_mul_emod_self_right, Int.emod_eq_of_lt hdle hdlt]

/-! ### The word -/

/-- Narrowing the places changes the sum by a multiple of the word size. -/
theorem exists_wideSum (width count : Nat) (digits : Nat → Int) :
    ∃ t : Int, wideSum width count digits = exactSum width count digits + t * 2 ^ 32 := by
  induction count with
  | zero => exact ⟨0, by simp [wideSum, exactSum]⟩
  | succ count ih =>
    obtain ⟨t, ht⟩ := ih
    obtain ⟨s, hs⟩ := exists_toInt32 (digits count <<< (width * count))
    have hsucc : wideSum width (count + 1) digits =
        wideSum width count digits + toInt32 (digits count <<< (width * count)) :=
      Finset.sum_range_succ _ _
    refine ⟨t + s, ?_⟩
    rw [hsucc, ht, hs, exactSum_succ, Int.shiftLeft_eq]
    push_cast
    ring

/-- Below the top place nothing is narrowed. -/
theorem wideSum_eq (h : Digits width count digits) (hroom : width * count ≤ 31) :
    wideSum width count digits = exactSum width count digits := by
  refine Finset.sum_congr rfl ?_
  intro j hj
  have hjlt := Finset.mem_range.mp hj
  obtain ⟨hdle, hdlt⟩ := h j hjlt
  have hpos := two_pow_pos (width * j)
  have hplace : digits j * 2 ^ (width * j) < 2 ^ 31 := by
    calc digits j * 2 ^ (width * j) < 2 ^ width * 2 ^ (width * j) :=
          mul_lt_mul_of_pos_right hdlt hpos
      _ = 2 ^ (width * (j + 1)) := by rw [Nat.mul_succ, pow_add, mul_comm]
      _ ≤ 2 ^ 31 := pow_le_pow_right₀ (by norm_num)
          ((Nat.mul_le_mul_left width hjlt).trans hroom)
  rw [Int.shiftLeft_eq]
  exact toInt32_of_fits ⟨(by norm_num : (-2 ^ 31 : Int) ≤ 0).trans (mul_nonneg hdle hpos.le), hplace⟩

/-- The top number may make the sum negative, and the sum fits the word. -/
theorem wideSum_fits (hwidth : 0 < width) (hword : width * count = 32)
    (h : Digits width count digits) : Fits (wideSum width count digits) := by
  obtain ⟨low, rfl⟩ : ∃ low, count = low + 1 :=
    Nat.exists_eq_succ_of_ne_zero (by rintro rfl; simp at hword)
  rw [Nat.mul_succ] at hword
  have hlow := h.mono (Nat.le_succ low)
  have hsum : wideSum width (low + 1) digits =
      exactSum width low digits + toInt32 (digits low * 2 ^ (width * low)) := by
    rw [← wideSum_eq hlow (by omega)]
    refine (Finset.sum_range_succ _ _).trans ?_
    rw [Int.shiftLeft_eq]
    rfl
  obtain ⟨hle, hlt⟩ := exactSum_mem hlow
  obtain ⟨hdle, hdlt⟩ := h low (Nat.lt_succ_self low)
  obtain ⟨half, rfl⟩ := Nat.exists_eq_succ_of_ne_zero hwidth.ne'
  generalize hplace : (half + 1) * low = place at *
  have hpos := two_pow_pos place
  have hmid : (2 : Int) ^ half * 2 ^ place = 2 ^ 31 := by
    rw [← pow_add]
    congr 1
    omega
  rw [pow_succ] at hdlt
  rw [hsum]
  rcases lt_or_ge (digits low) (2 ^ half) with hsmall | hlarge
  · have htop : digits low * 2 ^ place ≤ (2 ^ half - 1) * 2 ^ place :=
      mul_le_mul_of_nonneg_right (by omega) hpos.le
    rw [sub_mul, one_mul, hmid] at htop
    have hnonneg := mul_nonneg hdle hpos.le
    rw [toInt32_of_fits ⟨by omega, by omega⟩]
    exact ⟨by omega, by omega⟩
  · have htop : digits low * 2 ^ place ≤ (2 ^ half * 2 - 1) * 2 ^ place :=
      mul_le_mul_of_nonneg_right (by omega) hpos.le
    have hbottom : 2 ^ half * 2 ^ place ≤ digits low * 2 ^ place :=
      mul_le_mul_of_nonneg_right hlarge hpos.le
    rw [sub_mul, one_mul, mul_right_comm, hmid] at htop
    rw [hmid] at hbottom
    have hwrap : toInt32 (digits low * 2 ^ place) = digits low * 2 ^ place - 2 ^ 32 := by
      rw [toInt32, Int.bmod_def]
      omega
    rw [hwrap]
    exact ⟨by omega, by omega⟩

/-- Reading a packed word gives back what was packed. -/
theorem field_pack (hword : width * count = 32) (h : Digits width count digits) {j : Nat}
    (hj : j < count) : field width (pack width count digits) j = digits j := by
  obtain ⟨t, ht⟩ := exists_wideSum width count digits
  obtain ⟨s, hs⟩ := exists_toInt32 (wideSum width count digits)
  have hpack : pack width count digits =
      exactSum width count digits + (t + s) * 2 ^ (width * count) := by
    rw [pack, hs, ht, hword]
    ring
  rw [hpack, field_exactSum h _ hj]

end RapidLlm.PackedWord
