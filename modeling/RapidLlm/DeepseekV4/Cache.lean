import RapidLlm.Lib.Windows

/-!
# RapidLlm.DeepseekV4.Cache

**The sliding window of DeepSeek-V4** (`modules/deepseek_v4/cache.py`): a row keeps the
`sliding_window - 1` largest positions it has seen, padding (`-1`) below everything real. A
query of the next call finds its window in what is kept and what is fresh
(`Retains.slidingVisible_eq`).
-/

namespace RapidLlm

open Windows

variable {Key : Type}

/-- `update_sliding`: the full concatenation, and the trailing window of it in time order. -/
def updateSliding (slidingWindow : Nat) (topk : TopK) (sliding fresh : List (Int × Key)) :
    List (Int × Key) × List (Int × Key) :=
  let full := sliding ++ fresh
  let keep := min (slidingWindow - 1) full.length
  let idx := (topk.pick (full.map Prod.fst) keep).insertionSort (· ≤ ·)
  (full, gather full idx)

/-- The keys a query at `qPos` sees: causal inside the window, padding masked out. -/
def slidingVisible (slidingWindow : Nat) (full : List (Int × Key)) (qPos : Int) :
    List (Int × Key) :=
  full.filter fun key =>
    decide (0 ≤ key.1) && decide (key.1 ≤ qPos) && decide (qPos - key.1 < slidingWindow)

/-- Which slots hold a real key. -/
def real (key : Int × Key) : Bool := decide (0 ≤ key.1)

/-- Key `p` of a sequence is at position `p`. -/
def Positioned (keys : List (Int × Key)) : Prop :=
  ∀ (p : Nat) (key : Int × Key), keys[p]? = some key → key.1 = p

/-- A row that keeps, of the first `fed` keys of a sequence, those a later query can see. -/
structure Retains (slidingWindow : Nat) (keys : List (Int × Key)) (fed : Nat)
    (sliding : List (Int × Key)) : Prop where
  sublist : (sliding.filter real).Sublist (keys.take fed)
  recent : ∀ (p : Nat) (key : Int × Key),
    p < fed → fed ≤ p + (slidingWindow - 1) → keys[p]? = some key → key ∈ sliding

section Retains

variable {slidingWindow fed k t : Nat} {keys sliding fresh : List (Int × Key)} {topk : TopK}

theorem retains_nil : Retains slidingWindow keys 0 [] where
  sublist := List.nil_sublist _
  recent _ _ h := absurd h (Nat.not_lt_zero _)

variable (hkeys : Positioned keys)

include hkeys

theorem Positioned.nodup : keys.Nodup := by
  rw [List.nodup_iff_getElem?_ne_getElem?]
  intro i j hij hj heq
  rw [List.getElem?_eq_getElem hj] at heq
  have hi := hkeys i _ heq
  have hj' := hkeys j _ (List.getElem?_eq_getElem hj)
  omega

/-- A key among the first `m` is at its own position, below `m`. -/
theorem Positioned.of_mem_take {m : Nat} {key : Int × Key} (h : key ∈ keys.take m) :
    ∃ p, p < m ∧ keys[p]? = some key ∧ key.1 = p := by
  obtain ⟨p, hp⟩ := List.mem_iff_getElem?.mp h
  have hlt : p < m := by
    obtain ⟨hlt, -⟩ := List.getElem?_eq_some_iff.mp hp
    exact hlt.trans_le (List.length_take_le m keys)
  rw [List.getElem?_take_of_lt hlt] at hp
  exact ⟨p, hlt, hp, hkeys p key hp⟩

/-- A key past the first `m` is at a position from `m` on. -/
theorem Positioned.of_mem_drop {m : Nat} {key : Int × Key} (h : key ∈ keys.drop m) :
    ∃ p, m ≤ p ∧ keys[p]? = some key ∧ key.1 = p := by
  obtain ⟨i, hi⟩ := List.mem_iff_getElem?.mp h
  rw [List.getElem?_drop] at hi
  exact ⟨m + i, Nat.le_add_right m i, hi, hkeys _ key hi⟩

/-- The keys a query at `t` sees in the whole sequence are the last `slidingWindow` up to it. -/
theorem Positioned.slidingVisible_take {m : Nat} (ht : t < m) :
    slidingVisible slidingWindow (keys.take m) t =
      (keys.take (t + 1)).drop (t + 1 - slidingWindow) := by
  have hsplit : keys.take m = (keys.take (t + 1)).take (t + 1 - slidingWindow) ++
      (keys.take (t + 1)).drop (t + 1 - slidingWindow) ++
        (keys.drop (t + 1)).take (m - (t + 1)) := by
    rw [List.take_append_drop, ← List.take_add, Nat.add_sub_cancel' ht]
  rw [slidingVisible, hsplit, List.filter_append, List.filter_append]
  have hbefore : ∀ key ∈ (keys.take (t + 1)).take (t + 1 - slidingWindow),
      key.1 < t + 1 - slidingWindow := by
    intro key hmem
    rw [List.take_take] at hmem
    obtain ⟨p, hp, -, hpos⟩ := hkeys.of_mem_take hmem
    omega
  have hinside : ∀ key ∈ (keys.take (t + 1)).drop (t + 1 - slidingWindow),
      0 ≤ key.1 ∧ key.1 ≤ t ∧ t - key.1 < slidingWindow := by
    intro key hmem
    obtain ⟨p, hp, -, hpos⟩ := hkeys.of_mem_take (List.mem_of_mem_drop hmem)
    rw [List.drop_take] at hmem
    obtain ⟨p', hp', -, hpos'⟩ := hkeys.of_mem_drop (List.mem_of_mem_take hmem)
    omega
  have hafter : ∀ key ∈ (keys.drop (t + 1)).take (m - (t + 1)), (t : Int) < key.1 := by
    intro key hmem
    obtain ⟨p, hp, -, hpos⟩ := hkeys.of_mem_drop (List.mem_of_mem_take hmem)
    omega
  rw [List.filter_eq_nil_iff.mpr fun key hmem => by have := hbefore key hmem; simp; omega,
    List.filter_eq_self.mpr fun key hmem => by have := hinside key hmem; simp; omega,
    List.filter_eq_nil_iff.mpr fun key hmem => by have := hafter key hmem; simp; omega,
    List.nil_append, List.append_nil]

variable (h : Retains slidingWindow keys fed sliding)
  (hfresh : fresh.filter real = (keys.drop fed).take k)

omit hkeys in
include h hfresh in
theorem Retains.full_sublist :
    ((sliding ++ fresh).filter real).Sublist (keys.take (fed + k)) := by
  rw [List.filter_append, hfresh, List.take_add]
  exact h.sublist.append (List.Sublist.refl _)

omit hkeys in
include h hfresh in
theorem Retains.mem_full {p : Nat} {key : Int × Key} (hp : p < fed + k)
    (hrecent : fed ≤ p + (slidingWindow - 1)) (hkey : keys[p]? = some key) :
    key ∈ sliding ++ fresh := by
  rcases Nat.lt_or_ge p fed with hold | hnew
  · exact List.mem_append_left _ (h.recent p key hold hrecent hkey)
  · have hmem : key ∈ (keys.drop fed).take k := by
      refine List.mem_iff_getElem?.mpr ⟨p - fed, ?_⟩
      rw [List.getElem?_take_of_lt (by omega), List.getElem?_drop, Nat.add_sub_cancel' hnew, hkey]
    rw [← hfresh] at hmem
    exact List.mem_append_right _ (List.mem_of_mem_filter hmem)

include h hfresh

/-- **A query sees its window.** Nothing of it was dropped, and nothing appears twice. -/
theorem Retains.slidingVisible_eq (hwindow : 0 < slidingWindow) (ht : fed ≤ t)
    (htk : t < fed + k) : slidingVisible slidingWindow (sliding ++ fresh) t =
      (keys.take (t + 1)).drop (t + 1 - slidingWindow) := by
  have hreal : slidingVisible slidingWindow (sliding ++ fresh) t =
      slidingVisible slidingWindow ((sliding ++ fresh).filter real) t := by
    rw [slidingVisible, slidingVisible, List.filter_filter]
    refine List.filter_congr fun key _ => ?_
    cases hreal : real key
    · simp_all [real]
    · rw [Bool.and_true]
  have hsub : (slidingVisible slidingWindow (sliding ++ fresh) t).Sublist
      (slidingVisible slidingWindow (keys.take (fed + k)) t) := by
    rw [hreal]
    exact (h.full_sublist hfresh).filter _
  rw [← hkeys.slidingVisible_take htk]
  have hnodup := (hkeys.nodup.sublist (List.take_sublist (fed + k) keys)).filter fun key =>
    decide (0 ≤ key.1) && decide (key.1 ≤ (t : Int)) && decide ((t : Int) - key.1 < slidingWindow)
  refine eq_of_sublist hsub hnodup fun key hkey => ?_
  obtain ⟨hmem, hseen⟩ := List.mem_filter.mp hkey
  obtain ⟨p, hp, hget, hpos⟩ := hkeys.of_mem_take hmem
  refine List.mem_filter.mpr ⟨h.mem_full hfresh hp ?_ hget, hseen⟩
  simp only [Bool.and_eq_true, decide_eq_true_eq] at hseen
  omega

/-- Only the keys from `p` on are as large as key `p`. -/
theorem Retains.countP_le {p : Nat} {key : Int × Key} (hp : p < fed + k)
    (hkey : keys[p]? = some key) :
    ((sliding ++ fresh).map Prod.fst).countP (fun b => decide (key.1 ≤ b)) ≤ fed + k - p := by
  have hpos := hkeys p key hkey
  have hreal : ((sliding ++ fresh).map Prod.fst).countP (fun b => decide (key.1 ≤ b)) =
      ((sliding ++ fresh).filter real).countP fun e => decide (key.1 ≤ e.1) := by
    rw [List.countP_map, List.countP_filter]
    refine List.countP_congr fun e _ => ?_
    simp only [Function.comp_apply, real, Bool.and_eq_true, decide_eq_true_eq]
    omega
  have hbefore : (keys.take p).countP (fun e => decide (key.1 ≤ e.1)) = 0 := by
    refine List.countP_eq_zero.mpr fun e he => ?_
    obtain ⟨p', hp', -, hpos'⟩ := hkeys.of_mem_take he
    simp only [decide_eq_true_eq]
    omega
  calc ((sliding ++ fresh).map Prod.fst).countP (fun b => decide (key.1 ≤ b))
      ≤ (keys.take (p + (fed + k - p))).countP fun e => decide (key.1 ≤ e.1) := by
        rw [hreal, Nat.add_sub_cancel' hp.le]
        exact (h.full_sublist hfresh).countP_le
    _ = ((keys.drop p).take (fed + k - p)).countP fun e => decide (key.1 ≤ e.1) := by
        rw [List.take_add, List.countP_append, hbefore, Nat.zero_add]
    _ ≤ ((keys.drop p).take (fed + k - p)).length := List.countP_le_length
    _ ≤ fed + k - p := List.length_take_le _ _

/-- What is retained lets the next call see its windows. -/
theorem Retains.update : Retains slidingWindow keys (fed + k)
    (updateSliding slidingWindow topk sliding fresh).2 := by
  have htop := topk.isTopK ((sliding ++ fresh).map Prod.fst)
    (min (slidingWindow - 1) (sliding ++ fresh).length) (by rw [List.length_map]; omega)
  have hperm := List.perm_insertionSort (· ≤ ·) (topk.pick ((sliding ++ fresh).map Prod.fst)
    (min (slidingWindow - 1) (sliding ++ fresh).length))
  have hsorted : ((topk.pick ((sliding ++ fresh).map Prod.fst)
      (min (slidingWindow - 1) (sliding ++ fresh).length)).insertionSort (· ≤ ·)).Pairwise
        (· < ·) :=
    ((List.pairwise_insertionSort _ _).and (hperm.nodup_iff.mpr htop.nodup)).imp
      fun ⟨hle, hne⟩ => lt_of_le_of_ne hle hne
  constructor
  · refine ((gather_sublist hsorted fun i hi => ?_).filter _).trans (h.full_sublist hfresh)
    simpa using htop.lt_length i (hperm.mem_iff.mp hi)
  · intro p key hp hrecent hkey
    have hmem := h.mem_full hfresh hp (by omega) hkey
    obtain ⟨i, hi⟩ := List.mem_iff_getElem?.mp hmem
    refine mem_gather (hperm.mem_iff.mpr (htop.mem_of_countP (i := i) (a := key.1) ?_ ?_)) hi
    · rw [List.getElem?_map, hi]
      rfl
    · have hcount := h.countP_le hkeys hfresh hp hkey
      have hlen := List.countP_le_length (p := fun b => decide (key.1 ≤ b))
        (l := (sliding ++ fresh).map Prod.fst)
      rw [List.length_map] at hlen
      omega

end Retains

end RapidLlm
