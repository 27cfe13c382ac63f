import Mathlib.Data.List.TakeWhile
import Mathlib.Data.List.Infix

/-!
# RapidLlm.Lib.Continuation

**Sequences that grow by a rule until they stop**: each entry is a function of those before it, and
what counts is the part in front of the first entry that stops the sequence.

* `grow` is the sequence, `visible` the part that counts. `visible_append_of_stopped`: what comes
  behind a stop changes nothing.
* `visible_grow_eq_iff`: two rules give the same visible part if and only if they agree as long as
  the sequence has not stopped, up to the choice among entries that stop it.

The entries `α`, the rules and the stopping entries are parameters.
-/

namespace RapidLlm

universe u

variable {α : Type u}

/-- The first `n` entries of the sequence a rule makes. -/
def grow (next : List α → α) : Nat → List α
  | 0 => []
  | n + 1 => grow next n ++ [next (grow next n)]

/-- The entries in front of the first that stops the sequence. -/
def visible (stops : α → Bool) (xs : List α) : List α := xs.takeWhile fun a => !stops a

variable {next next' : List α → α} {stops : α → Bool} {xs ys : List α} {a : α} {n m : Nat}

@[simp] theorem grow_length (next : List α → α) (n : Nat) : (grow next n).length = n := by
  induction n with
  | zero => rfl
  | succ n ih => rw [grow, List.length_append, ih, List.length_singleton]

theorem grow_mono (next : List α → α) (h : n ≤ m) : grow next n <+: grow next m := by
  induction h with
  | refl => exact List.prefix_rfl
  | step _ ih => exact ih.trans (List.prefix_append _ _)

theorem visible_of_running (h : xs.any stops = false) : visible stops xs = xs := by
  rw [visible, List.takeWhile_eq_self_iff]
  intro a ha
  rw [List.any_eq_false] at h
  simpa using h a ha

/-- What is behind a stop does not count. -/
theorem visible_append_of_stopped (h : xs.any stops = true) (ys : List α) :
    visible stops (xs ++ ys) = visible stops xs := by
  induction xs with
  | nil => cases h
  | cons a xs ih =>
    rw [visible, visible, List.cons_append]
    by_cases ha : stops a = true
    · rw [List.takeWhile_cons_of_neg (by simp [ha]), List.takeWhile_cons_of_neg (by simp [ha])]
    · rw [List.takeWhile_cons_of_pos (by simp [ha]), List.takeWhile_cons_of_pos (by simp [ha])]
      rw [List.any_cons, Bool.eq_false_iff.mpr ha, Bool.false_or] at h
      exact congrArg _ (ih h)

theorem visible_append_of_running (h : xs.any stops = false) (ys : List α) :
    visible stops (xs ++ ys) = xs ++ visible stops ys := by
  induction xs with
  | nil => rfl
  | cons a xs ih =>
    rw [List.any_cons, Bool.or_eq_false_iff] at h
    rw [visible, List.cons_append, List.takeWhile_cons_of_pos (by simp [h.1])]
    exact congrArg _ (ih h.2)

/-- Two rules agree at `n`: they choose the same entry, or both stop. -/
def AgreeAt (stops : α → Bool) (next next' : List α → α) (xs : List α) : Prop :=
  next' xs = next xs ∨ stops (next xs) = true ∧ stops (next' xs) = true

/-- As long as two rules agree, the sequences are the same, or have stopped alike. -/
theorem grow_agree
    (h : ∀ k < m, (grow next k).any stops = false → AgreeAt stops next next' (grow next k))
    (hn : n ≤ m) : (grow next n).any stops = false ∧ grow next' n = grow next n ∨
      (grow next n).any stops = true ∧ (grow next' n).any stops = true ∧
        visible stops (grow next' n) = visible stops (grow next n) := by
  induction n with
  | zero => exact .inl ⟨rfl, rfl⟩
  | succ n ih =>
    rcases ih (Nat.le_of_succ_le hn) with ⟨hrun, hsame⟩ | ⟨hstop, hstop', hvisible⟩
    · rcases h n hn hrun with heq | ⟨hnext, hnext'⟩
      · have hgrow : grow next' (n + 1) = grow next (n + 1) := by rw [grow, grow, hsame, heq]
        rw [hgrow]
        cases hany : (grow next (n + 1)).any stops with
        | false => exact .inl ⟨rfl, rfl⟩
        | true => exact .inr ⟨rfl, rfl, rfl⟩
      · right
        rw [grow, grow, hsame]
        refine ⟨by simp [hnext], by simp [hnext'], ?_⟩
        rw [visible_append_of_running hrun, visible_append_of_running hrun]
        simp [visible, hnext, hnext']
    · right
      rw [grow, grow]
      refine ⟨by simp [hstop], by simp [hstop'], ?_⟩
      rw [visible_append_of_stopped hstop, visible_append_of_stopped hstop', hvisible]

/-- **What two rules show is the same** if and only if they agree until the sequence stops. -/
theorem visible_grow_eq_iff : visible stops (grow next' m) = visible stops (grow next m) ↔
    ∀ k < m, (grow next k).any stops = false → AgreeAt stops next next' (grow next k) := by
  constructor
  · intro heq k
    -- the first step on which they differ
    induction k using Nat.strong_induction_on with
    | _ k ih =>
      intro hk hrun
      have hbefore := grow_agree (n := k) (m := k)
        (fun j hj hjrun => ih j hj (Nat.lt_trans hj hk) hjrun) (Nat.le_refl k)
      obtain ⟨-, hsame⟩ := hbefore.resolve_right fun hstop => by
        rw [hrun] at hstop
        exact Bool.false_ne_true hstop.1
      obtain ⟨more, hmore⟩ := grow_mono next (Nat.succ_le_of_lt hk)
      obtain ⟨more', hmore'⟩ := grow_mono next' (Nat.succ_le_of_lt hk)
      rw [← hmore, ← hmore', grow, grow, hsame, List.append_assoc, List.append_assoc,
        visible_append_of_running hrun, visible_append_of_running hrun] at heq
      have hrest := List.append_cancel_left heq
      rw [visible, visible, List.singleton_append, List.singleton_append] at hrest
      by_cases hnext : stops (next (grow next k)) = true
      · by_cases hnext' : stops (next' (grow next k)) = true
        · exact .inr ⟨hnext, hnext'⟩
        · rw [List.takeWhile_cons_of_pos (by simp [hnext']),
            List.takeWhile_cons_of_neg (by simp [hnext])] at hrest
          cases hrest
      · by_cases hnext' : stops (next' (grow next k)) = true
        · rw [List.takeWhile_cons_of_neg (by simp [hnext']),
            List.takeWhile_cons_of_pos (by simp [hnext])] at hrest
          cases hrest
        · rw [List.takeWhile_cons_of_pos (by simp [hnext']),
            List.takeWhile_cons_of_pos (by simp [hnext])] at hrest
          exact .inl (List.cons.inj hrest).1
  · intro h
    rcases grow_agree h (Nat.le_refl m) with ⟨-, hsame⟩ | ⟨-, -, hvisible⟩
    · rw [hsame]
    · exact hvisible

/-- Rules that agree stop alike. -/
theorem any_grow_eq
    (h : ∀ k < m, (grow next k).any stops = false → AgreeAt stops next next' (grow next k)) :
    (grow next' m).any stops = (grow next m).any stops := by
  rcases grow_agree h (Nat.le_refl m) with ⟨-, hsame⟩ | ⟨hstop, hstop', -⟩
  · rw [hsame]
  · rw [hstop, hstop']

end RapidLlm
