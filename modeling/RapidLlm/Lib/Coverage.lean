import Mathlib.Algebra.Order.BigOperators.Group.Finset
import Mathlib.Algebra.BigOperators.Ring.Finset
import Mathlib.Algebra.Module.NatInt
import Mathlib.Order.Interval.Finset.Nat

/-!
# RapidLlm.Lib.Coverage

**When a count proves coverage.** A range is written by spans. The sum of the spans' lengths is
the number of writes, row by row (`sum_hits`), and says nothing about where they went; with spans
apart from each other no row is written twice, and then as many writes as rows leave each row
written exactly once (`hits_eq_one`).
-/

namespace RapidLlm

open Finset (range)

/-- The rows from `start` on, `count` of them. -/
structure Span where
  start : Nat
  count : Nat
  deriving DecidableEq, Repr

namespace Span

/-- The rows of a span. -/
def Has (span : Span) (row : Nat) : Prop := span.start ≤ row ∧ row < span.start + span.count

instance (span : Span) (row : Nat) : Decidable (span.Has row) := by
  unfold Has
  infer_instance

/-- Spans without a common row. -/
def Apart (span span' : Span) : Prop := ∀ row, ¬ (span.Has row ∧ span'.Has row)

/-- How many spans of a list have a row. -/
def hits (spans : List Span) (row : Nat) : Nat := spans.countP fun span => decide (span.Has row)

variable {span span' : Span} {spans : List Span} {n row : Nat}

theorem Apart.of_empty (h : span'.count = 0) : span.Apart span' := by
  intro row ⟨_, hrow⟩
  unfold Has at hrow
  omega

theorem Apart.symm (h : span.Apart span') : span'.Apart span :=
  fun row ⟨h1, h2⟩ => h row ⟨h2, h1⟩

/-- The rows below `n` that a span has. -/
theorem sum_has (h : span.start + span.count ≤ n) :
    (∑ row ∈ range n, if span.Has row then 1 else 0) = span.count := by
  rw [Finset.sum_boole, Nat.cast_id]
  have hset : (range n).filter span.Has = Finset.Ico span.start (span.start + span.count) := by
    ext row
    simp only [Finset.mem_filter, Finset.mem_range, Finset.mem_Ico, Has]
    omega
  rw [hset, Nat.card_Ico, Nat.add_sub_cancel_left]

/-- The lengths of the spans count the writes. -/
theorem sum_hits (h : ∀ span ∈ spans, span.start + span.count ≤ n) :
    ∑ row ∈ range n, hits spans row = (spans.map count).sum := by
  induction spans with
  | nil => simp [hits]
  | cons span spans ih =>
    have hcons : ∀ row, hits (span :: spans) row =
        (if span.Has row then 1 else 0) + hits spans row := by
      intro row
      rw [hits, List.countP_cons, Nat.add_comm]
      simp [hits]
    rw [Finset.sum_congr rfl fun row _ => hcons row, Finset.sum_add_distrib,
      sum_has (h span List.mem_cons_self), ih fun s hs => h s (List.mem_cons_of_mem _ hs),
      List.map_cons, List.sum_cons]

/-- Spans apart from each other write no row twice. -/
theorem hits_le_one (hapart : spans.Pairwise Apart) (row : Nat) : hits spans row ≤ 1 := by
  induction hapart with
  | nil => exact Nat.zero_le 1
  | @cons span spans hspan _ ih =>
    rw [hits, List.countP_cons]
    split
    · next hhas =>
      have hnone : hits spans row = 0 := by
        rw [hits, List.countP_eq_zero]
        intro span' hmem hhas'
        exact hspan span' hmem row ⟨of_decide_eq_true hhas, of_decide_eq_true hhas'⟩
      rw [hits] at hnone
      rw [hnone]
    · exact ih

/-- Spans inside a range, apart from each other and as many as the range has rows, have each row
once. -/
theorem hits_eq_one (hinside : ∀ span ∈ spans, span.start + span.count ≤ n)
    (hapart : spans.Pairwise Apart) (hcount : (spans.map count).sum = n) (hrow : row < n) :
    hits spans row = 1 := by
  refine le_antisymm (hits_le_one hapart row) ?_
  by_contra hmiss
  have hlt : ∑ row ∈ range n, hits spans row < ∑ _row ∈ range n, 1 :=
    Finset.sum_lt_sum (fun row _ => hits_le_one hapart row)
      ⟨row, Finset.mem_range.mpr hrow, Nat.lt_of_not_le hmiss⟩
  rw [sum_hits hinside, hcount, Finset.sum_const, Finset.card_range, smul_eq_mul, Nat.mul_one] at hlt
  omega

end Span

end RapidLlm
