import Mathlib.Data.List.Basic
import Mathlib.Tactic.Common

/-!
# RapidLlm.Lib.Memo

**Tables of remembered results.** `fetch` answers from a table, or computes the answer and adds
it; a computation that raises leaves nothing behind. A table is a `Memo` of a function if all it
remembers is what the function returns: then `fetch` is the function, and keeps the table one.
A table outlives a change of the function on the keys it has forgotten.
-/

namespace RapidLlm

universe u v w

variable {K : Type u} {V : Type v} {E : Type w} [BEq K]

/-- The remembered answer for a key, or the computed one, and the table after that. -/
def fetch (table : List (K × V)) (f : K → Except E V) (k : K) : Except E V × List (K × V) :=
  match table.lookup k with
  | some v => (.ok v, table)
  | none =>
    match f k with
    | .ok v => (.ok v, table ++ [(k, v)])
    | .error e => (.error e, table)

/-- All the table remembers is what the function returns. -/
def Memo (table : List (K × V)) (f : K → Except E V) : Prop :=
  ∀ k v, table.lookup k = some v → f k = .ok v

section Fetch

variable {table : List (K × V)} {f g : K → Except E V}

namespace Memo

theorem nil (f : K → Except E V) : Memo [] f := nofun

/-- **A fetch is the function.** -/
theorem fetch_fst (h : Memo table f) (k : K) : (fetch table f k).1 = f k := by
  unfold fetch
  split
  · next v hv => exact (h k v hv).symm
  · split <;> next hf => exact hf.symm

/-- A table outlives a change of the function that keeps what it remembers. -/
theorem congr (h : Memo table f) (hfg : ∀ k v, table.lookup k = some v → f k = .ok v → g k = .ok v) :
    Memo table g :=
  fun k v hv => hfg k v hv (h k v hv)

end Memo

variable [LawfulBEq K]

/-- Forgetting keys leaves the others. -/
theorem lookup_filter (table : List (K × V)) (p : K → Bool) (k : K) :
    (table.filter fun entry => p entry.1).lookup k = if p k then table.lookup k else none := by
  induction table with
  | nil => exact (ite_self none).symm
  | cons entry table ih =>
    rw [List.filter_cons, List.lookup_cons]
    by_cases hkey : k = entry.1
    · subst hkey
      rw [beq_self_eq_true]
      split
      · rw [List.lookup_cons, beq_self_eq_true]
      · next hp => rw [ih, if_neg hp]
    · rw [beq_eq_false_iff_ne.mpr hkey]
      split
      · rw [List.lookup_cons, beq_eq_false_iff_ne.mpr hkey, ih]
      · exact ih

/-- A fetch remembers at most its own key. -/
theorem lookup_fetch {k k' : K} (hne : k' ≠ k) :
    (fetch table f k).2.lookup k' = table.lookup k' := by
  unfold fetch
  split
  · rfl
  split
  · rw [List.lookup_append, List.lookup_cons, beq_eq_false_iff_ne.mpr hne]
    exact Option.or_none
  · rfl

namespace Memo

/-- A fetch keeps the table a memo. -/
theorem fetch_snd (h : Memo table f) (k : K) : Memo (fetch table f k).2 f := by
  intro k' v hv
  by_cases hkey : k' = k
  · subst hkey
    rw [← h.fetch_fst k']
    unfold fetch at hv ⊢
    split at hv
    · next u hu =>
      rw [hu] at hv
      exact congrArg Except.ok (Option.some.inj hv)
    · next hnone =>
      split at hv
      · rw [List.lookup_append, hnone, List.lookup_cons, beq_self_eq_true] at hv
        exact congrArg Except.ok (Option.some.inj hv)
      · rw [hnone] at hv
        cases hv
  · rw [lookup_fetch hkey] at hv
    exact h k' v hv

/-- A table that forgets the keys where the function changes. -/
theorem filter (h : Memo table f) {p : K → Bool} (hfg : ∀ k v, p k → f k = .ok v → g k = .ok v) :
    Memo (table.filter fun entry => p entry.1) g := by
  intro k v hv
  rw [lookup_filter] at hv
  split at hv
  · next hp => exact hfg k v hp (h k v hv)
  · cases hv

end Memo

end Fetch

end RapidLlm
