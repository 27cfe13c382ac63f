import Mathlib.Data.List.Infix
import Mathlib.Tactic.Common

/-!
# RapidLlm.Lib.TagSearch

**Looking for a tag in text that arrives in pieces.** `find` is the first
occurrence of a tag, `partialSuffix` the longest end of the text that the tag
could still grow from. A reader that finds no tag may pass on everything but the
partial suffix: `find_append` and `partialSuffix_append` say that whatever comes
next, looking at the held-back end alone sees what looking at the whole text
would have seen.

Any alphabet with decidable equality; nothing here is about markup.
-/

namespace RapidLlm

universe u

namespace TagSearch

variable {α : Type u} [DecidableEq α]

/-- `text.find(tag)`: where the tag first occurs. -/
def find (tag : List α) : List α → Option Nat
  | [] => if tag = [] then some 0 else none
  | c :: text => if tag <+: c :: text then some 0 else (find tag text).map (· + 1)

/-- The loop of `partialSuffix`, from this length down. -/
def partialSuffixFrom (text tag : List α) : Nat → List α
  | 0 => []
  | length + 1 =>
      if tag.take (length + 1) <:+ text then text.drop (text.length - (length + 1))
      else partialSuffixFrom text tag length

/-- The longest suffix of the text that is a proper prefix of the tag. -/
def partialSuffix (text tag : List α) : List α :=
  partialSuffixFrom text tag (min text.length (tag.length - 1))

variable {tag text : List α}

/-! ### First occurrences -/

/-- The tag occurs at `k`, and not before. -/
def FirstAt (tag text : List α) (k : Nat) : Prop :=
  tag <+: text.drop k ∧ ∀ j < k, ¬ tag <+: text.drop j

omit [DecidableEq α] in
theorem FirstAt.unique {k k' : Nat} (h : FirstAt tag text k) (h' : FirstAt tag text k') : k = k' := by
  rcases Nat.lt_trichotomy k k' with hlt | rfl | hlt
  · exact absurd h.1 (h'.2 k hlt)
  · rfl
  · exact absurd h'.1 (h.2 k' hlt)

omit [DecidableEq α] in
theorem FirstAt.isInfix {k : Nat} (h : FirstAt tag text k) : tag <:+: text :=
  h.1.isInfix.trans (List.drop_suffix _ _).isInfix

omit [DecidableEq α] in
/-- A text that does not begin with the tag and is no beginning of it stays so as it grows. -/
theorem not_prefix_append (hpre : ¬ tag <+: text) (hwait : ¬ text <+: tag) (more : List α) :
    ¬ tag <+: text ++ more ∧ ¬ text ++ more <+: tag :=
  ⟨fun h => (List.prefix_or_prefix_of_prefix h (List.prefix_append text more)).elim hpre hwait,
    fun h => hwait ((List.prefix_append text more).trans h)⟩

theorem find_some : ∀ {text : List α} {k : Nat}, find tag text = some k → FirstAt tag text k
  | [], k, h => by
      unfold find at h
      split at h
      · rename_i htag
        cases h
        exact ⟨by simp [htag], fun j hj => absurd hj (Nat.not_lt_zero j)⟩
      · cases h
  | c :: text, k, h => by
      unfold find at h
      split at h
      · rename_i hpre
        cases h
        exact ⟨hpre, fun j hj => absurd hj (Nat.not_lt_zero j)⟩
      · rename_i hpre
        obtain ⟨k', hk', rfl⟩ := Option.map_eq_some_iff.mp h
        obtain ⟨hat, hbefore⟩ := find_some hk'
        refine ⟨by simpa using hat, fun j hj => ?_⟩
        cases j with
        | zero => exact hpre
        | succ j => simpa using hbefore j (Nat.lt_of_succ_lt_succ hj)

/-- A tag that is not found occurs nowhere. -/
theorem find_none : ∀ {text : List α}, find tag text = none → ∀ j, ¬ tag <+: text.drop j
  | [], h, j => by
      unfold find at h
      split at h
      · cases h
      · rename_i htag
        simpa using htag
  | c :: text, h, j => by
      unfold find at h
      split at h
      · cases h
      · rename_i hpre
        have hrest := find_none (Option.map_eq_none_iff.mp h)
        cases j with
        | zero => exact hpre
        | succ j => simpa using hrest j

theorem find_eq_some_iff {k : Nat} : find tag text = some k ↔ FirstAt tag text k := by
  constructor
  · exact find_some
  · intro h
    cases hf : find tag text with
    | none => exact absurd h.1 (find_none hf k)
    | some k' => rw [(find_some hf).unique h]

/-- The tag is found exactly if it is an infix. -/
theorem find_eq_none_iff : find tag text = none ↔ ¬ tag <:+: text := by
  constructor
  · rintro h ⟨before, after, heq⟩
    refine find_none h before.length ?_
    rw [← heq, List.append_assoc, List.drop_left]
    exact List.prefix_append _ _
  · intro h
    cases hf : find tag text with
    | none => rfl
    | some k =>
      obtain ⟨rest, hrest⟩ := (find_some hf).1
      refine absurd ⟨text.take k, rest, ?_⟩ h
      rw [List.append_assoc, hrest, List.take_append_drop]

/-- The tag found lies within the text. -/
theorem find_le {k : Nat} (h : find tag text = some k) : k + tag.length ≤ text.length := by
  obtain ⟨hat, hbefore⟩ := find_some h
  have hk : k ≤ text.length := by
    by_contra hk
    have hnil : text.drop k = [] := List.drop_eq_nil_of_le (by omega)
    rw [hnil, List.prefix_nil] at hat
    exact hbefore text.length (by omega) (by simp [hat])
  have hlen := hat.length_le
  rw [List.length_drop] at hlen
  omega

/-- What is found in a text is found in every continuation of it, at the same place. -/
theorem find_append_of_some {k : Nat} (h : find tag text = some k) (more : List α) :
    find tag (text ++ more) = some k := by
  have hlen := find_le h
  obtain ⟨hat, hbefore⟩ := find_some h
  refine find_eq_some_iff.mpr ⟨?_, fun j hj hpre => hbefore j hj ?_⟩
  · rw [List.drop_append_of_le_length (by omega)]
    exact hat.trans (List.prefix_append _ _)
  · rw [List.drop_append_of_le_length (by omega)] at hpre
    refine List.prefix_of_prefix_length_le hpre (List.prefix_append _ _) ?_
    rw [List.length_drop]
    omega

/-- A tag not found in the whole is not found in the beginning. -/
theorem find_none_of_append {more : List α} (h : find tag (text ++ more) = none) :
    find tag text = none := by
  cases hf : find tag text with
  | none => rfl
  | some k =>
    rw [find_append_of_some hf more] at h
    cases h

/-! ### Holding back -/

theorem partialSuffixFrom_spec (text tag : List α) : ∀ {bound : Nat}, bound ≤ text.length →
    bound ≤ tag.length →
    partialSuffixFrom text tag bound <:+ text ∧
      partialSuffixFrom text tag bound = tag.take (partialSuffixFrom text tag bound).length ∧
      (partialSuffixFrom text tag bound).length ≤ bound ∧
      ∀ n ≤ bound, tag.take n <:+ text → n ≤ (partialSuffixFrom text tag bound).length
  | 0, _, _ => ⟨List.nil_suffix, by simp [partialSuffixFrom], Nat.le_refl _,
      fun n hn _ => hn⟩
  | bound + 1, htext, htag => by
      unfold partialSuffixFrom
      split
      · rename_i hsuf
        have hlen : (tag.take (bound + 1)).length = bound + 1 := by
          rw [List.length_take, Nat.min_eq_left htag]
        have heq : text.drop (text.length - (bound + 1)) = tag.take (bound + 1) := by
          rw [List.suffix_iff_eq_drop.mp hsuf, hlen]
        rw [heq]
        refine ⟨hsuf, by rw [hlen], hlen.le, fun n hn _ => hn.trans hlen.ge⟩
      · rename_i hsuf
        obtain ⟨h₁, h₂, h₃, h₄⟩ := partialSuffixFrom_spec text tag
          (Nat.le_of_succ_le htext) (Nat.le_of_succ_le htag)
        refine ⟨h₁, h₂, h₃.trans (Nat.le_succ _), fun n hn htake => ?_⟩
        rcases Nat.lt_or_eq_of_le hn with hlt | rfl
        · exact h₄ n (Nat.le_of_lt_succ hlt) htake
        · exact absurd htake hsuf

variable (tag text)

theorem partialSuffix_suffix : partialSuffix text tag <:+ text :=
  (partialSuffixFrom_spec text tag (Nat.min_le_left _ _)
    ((Nat.min_le_right _ _).trans (Nat.sub_le _ _))).1

theorem partialSuffix_eq_take :
    partialSuffix text tag = tag.take (partialSuffix text tag).length :=
  (partialSuffixFrom_spec text tag (Nat.min_le_left _ _)
    ((Nat.min_le_right _ _).trans (Nat.sub_le _ _))).2.1

theorem partialSuffix_length_le : (partialSuffix text tag).length ≤ tag.length - 1 :=
  (partialSuffixFrom_spec text tag (Nat.min_le_left _ _)
    ((Nat.min_le_right _ _).trans (Nat.sub_le _ _))).2.2.1.trans (Nat.min_le_right _ _)

variable {tag text}

/-- No longer end of the text is a proper prefix of the tag. -/
theorem le_partialSuffix {n : Nat} (htext : n ≤ text.length) (htag : n < tag.length)
    (h : tag.take n <:+ text) : n ≤ (partialSuffix text tag).length :=
  (partialSuffixFrom_spec text tag (Nat.min_le_left _ _)
    ((Nat.min_le_right _ _).trans (Nat.sub_le _ _))).2.2.2 n
    (Nat.le_min.mpr ⟨htext, Nat.le_sub_one_of_lt htag⟩) h

/-- What may be passed on: the text without its partial suffix. -/
def safePart (text tag : List α) : List α :=
  text.take (text.length - (partialSuffix text tag).length)

/-- The text is what is passed on and what is held back. -/
theorem safePart_append (text tag : List α) :
    safePart text tag ++ partialSuffix text tag = text := by
  have hdrop := List.suffix_iff_eq_drop.mp (partialSuffix_suffix tag text)
  unfold safePart
  generalize (partialSuffix text tag).length = n at hdrop ⊢
  rw [hdrop, List.take_append_drop]

theorem safePart_length (text tag : List α) :
    (safePart text tag).length + (partialSuffix text tag).length = text.length := by
  rw [← List.length_append, safePart_append]

/-- An end of the text longer than what is held back is no beginning of the tag. -/
theorem not_prefix_of_lt_safePart (hnone : find tag text = none) {j : Nat}
    (hj : j < (safePart text tag).length) (more : List α) : ¬ tag <+: (text ++ more).drop j := by
  intro hpre
  have hlen := safePart_length text tag
  rw [List.drop_append_of_le_length (by omega)] at hpre
  rcases Nat.lt_or_ge (text.drop j).length tag.length with hlt | hge
  · -- the tag reaches over the end: the end from `j` on is a proper prefix of it
    have htake : tag.take (text.drop j).length = text.drop j := by
      obtain ⟨rest, hrest⟩ := hpre
      have hcut := congrArg (List.take (text.drop j).length) hrest
      rwa [List.take_append_of_le_length hlt.le, List.take_left] at hcut
    have hle : (text.drop j).length ≤ (partialSuffix text tag).length :=
      le_partialSuffix (by rw [List.length_drop]; omega) hlt
        (by rw [htake]; exact List.drop_suffix _ _)
    rw [List.length_drop] at hle
    omega
  · exact find_none hnone j (List.prefix_of_prefix_length_le hpre (List.prefix_append _ _) hge)

theorem drop_safePart (text tag more : List α) (m : Nat) :
    (text ++ more).drop ((safePart text tag).length + m) =
      (partialSuffix text tag ++ more).drop m := by
  have happ : text ++ more = safePart text tag ++ (partialSuffix text tag ++ more) := by
    rw [← List.append_assoc, safePart_append]
  rw [happ, ← List.drop_drop, List.drop_left]

/-- **Searching on.** A tag not found so far is found where the held-back end first shows it. -/
theorem find_append (hnone : find tag text = none) (more : List α) :
    find tag (text ++ more) =
      (find tag (partialSuffix text tag ++ more)).map ((safePart text tag).length + ·) := by
  cases hf : find tag (partialSuffix text tag ++ more) with
  | some k =>
    obtain ⟨hat, hbefore⟩ := find_some hf
    refine find_eq_some_iff.mpr ⟨by rw [drop_safePart]; exact hat, fun j hj => ?_⟩
    rcases Nat.lt_or_ge j (safePart text tag).length with hlt | hge
    · exact not_prefix_of_lt_safePart hnone hlt more
    · obtain ⟨m, rfl⟩ := Nat.exists_eq_add_of_le hge
      rw [drop_safePart]
      exact hbefore m (Nat.lt_of_add_lt_add_left hj)
  | none =>
    cases hall : find tag (text ++ more) with
    | none => rfl
    | some k =>
      have hat := (find_some hall).1
      rcases Nat.lt_or_ge k (safePart text tag).length with hlt | hge
      · exact absurd hat (not_prefix_of_lt_safePart hnone hlt more)
      · obtain ⟨m, rfl⟩ := Nat.exists_eq_add_of_le hge
        rw [drop_safePart] at hat
        exact absurd hat (find_none hf m)

/-- **Holding on.** What is held back of the whole text is what is held back of the held-back end
and what follows it. -/
theorem partialSuffix_append (hnone : find tag text = none) (more : List α) :
    partialSuffix (text ++ more) tag = partialSuffix (partialSuffix text tag ++ more) tag := by
  have htag : tag ≠ [] := by
    rintro rfl
    exact find_none hnone 0 List.nil_prefix
  have hpos : 0 < tag.length := List.length_pos_iff.mpr htag
  have happ : safePart text tag ++ (partialSuffix text tag ++ more) = text ++ more := by
    rw [← List.append_assoc, safePart_append]
  -- both are the longest of one family of ends
  have hle : (partialSuffix (partialSuffix text tag ++ more) tag).length ≤
      (partialSuffix (text ++ more) tag).length := by
    refine le_partialSuffix ?_ ?_ ?_
    · rw [← happ, List.length_append]
      exact (partialSuffix_suffix tag _).length_le.trans (Nat.le_add_left _ _)
    · have := partialSuffix_length_le tag (partialSuffix text tag ++ more)
      omega
    · rw [← partialSuffix_eq_take, ← happ]
      exact (partialSuffix_suffix tag _).trans (List.suffix_append _ _)
  have hge : (partialSuffix (text ++ more) tag).length ≤
      (partialSuffix (partialSuffix text tag ++ more) tag).length := by
    have hsuf := partialSuffix_suffix tag (text ++ more)
    have hbound := partialSuffix_length_le tag (text ++ more)
    -- an end that starts before the held-back one would be a longer one to hold back
    have hshort : (partialSuffix (text ++ more) tag).length ≤
        (partialSuffix text tag ++ more).length := by
      by_contra hlt
      have hlen := safePart_length text tag
      have htotal := hsuf.length_le
      simp only [List.length_append] at hlt htotal
      have hdrop := List.suffix_iff_eq_drop.mp hsuf
      generalize hn : (partialSuffix (text ++ more) tag).length = n at hdrop hlt htotal hbound
      have hj : (text ++ more).length - n < (safePart text tag).length := by
        rw [List.length_append]
        omega
      have htake : tag.take (n - more.length) = text.drop ((text ++ more).length - n) := by
        have heq := partialSuffix_eq_take tag (text ++ more)
        rw [hn, hdrop, List.drop_append_of_le_length (by omega)] at heq
        have hcut := congrArg (List.take (n - more.length)) heq
        rw [List.take_take, Nat.min_eq_left (by omega)] at hcut
        rw [← hcut, List.take_append_of_le_length (by simp only [List.length_drop, List.length_append]; omega),
          List.take_of_length_le (by simp only [List.length_drop, List.length_append]; omega)]
      have hmax : n - more.length ≤ (partialSuffix text tag).length :=
        le_partialSuffix (by omega) (by omega) (by rw [htake]; exact List.drop_suffix _ _)
      omega
    refine le_partialSuffix hshort (by omega) ?_
    rw [← partialSuffix_eq_take]
    refine List.suffix_of_suffix_length_le hsuf ?_ hshort
    rw [← happ]
    exact List.suffix_append _ _
  rw [partialSuffix_eq_take tag (text ++ more),
    partialSuffix_eq_take tag (partialSuffix text tag ++ more), Nat.le_antisymm hge hle]

/-- What may be passed on of the whole is what was passed on before and what may be now. -/
theorem safePart_append_more (hnone : find tag text = none) (more : List α) :
    safePart (text ++ more) tag =
      safePart text tag ++ safePart (partialSuffix text tag ++ more) tag := by
  have hall := safePart_append (text ++ more) tag
  have hrest := safePart_append (partialSuffix text tag ++ more) tag
  rw [partialSuffix_append hnone] at hall
  refine List.append_cancel_right (hall.trans ?_)
  rw [List.append_assoc, hrest, ← List.append_assoc, safePart_append]

/-- Up to the tag, the whole text is what was passed on and what comes before the tag now. -/
theorem take_safePart (text tag more : List α) (k : Nat) :
    (text ++ more).take ((safePart text tag).length + k) =
      safePart text tag ++ (partialSuffix text tag ++ more).take k := by
  have happ : text ++ more = safePart text tag ++ (partialSuffix text tag ++ more) := by
    rw [← List.append_assoc, safePart_append]
  rw [happ, List.take_length_add_append]

/-- One character more: the tag is found if it ends there. -/
theorem find_concat_of_suffix (hnone : find tag text = none) {c : α} (h : tag <:+ text ++ [c]) :
    find tag (text ++ [c]) = some (text.length + 1 - tag.length) := by
  obtain ⟨before, hbefore⟩ := h
  have hlen := congrArg List.length hbefore
  rw [List.length_append, List.length_append, List.length_singleton] at hlen
  refine find_eq_some_iff.mpr ⟨?_, fun j hj hpre => ?_⟩
  · rw [show text.length + 1 - tag.length = before.length by omega, ← hbefore, List.drop_left]
  · rw [List.drop_append_of_le_length (by omega)] at hpre
    refine find_none hnone j (List.prefix_of_prefix_length_le hpre (List.prefix_append _ _) ?_)
    rw [List.length_drop]
    omega

/-- And not if it does not. -/
theorem find_concat_of_not_suffix (hnone : find tag text = none) {c : α} (h : ¬ tag <:+ text ++ [c]) :
    find tag (text ++ [c]) = none := by
  refine find_eq_none_iff.mpr fun hin => ?_
  obtain ⟨before, after, hafter⟩ := hin
  rcases List.eq_nil_or_concat after with rfl | ⟨after, last, rfl⟩
  · exact h ⟨before, by rw [← hafter, List.append_nil]⟩
  · rw [List.concat_eq_append, ← List.append_assoc] at hafter
    exact find_eq_none_iff.mp hnone ⟨before, after, (List.append_inj' hafter rfl).1⟩

end TagSearch

end RapidLlm
