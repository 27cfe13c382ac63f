import Mathlib.Data.Nat.Find
import Mathlib.Tactic.Common

/-!
# RapidLlm.Engine.NgramProposer

**Drafts by looking a phrase up in its own history.** `propose` takes the last
few tokens, looks for the same tokens earlier in the list, and offers what came
after them. It tries long phrases before short ones and late places before early
ones, so two backward loops compute one maximum: over the lengths first, then
over the places (`Best`).

`Repeats` says what an earlier occurrence is; it may overlap the phrase itself.
An occurrence of a phrase holds one of every shorter phrase (`Repeats.shorter`),
which is why the bigram alone decides whether anything is proposed.
-/

namespace RapidLlm

universe u

/-- What `NgramProposer.__init__` stores. -/
structure NgramProposer where
  maxNgramSize : Nat
  maxDraft : Nat
  deriving Repr, DecidableEq

namespace NgramProposer

variable {α : Type u}

/-- `token_ids[start : start + gram_size]`. -/
def gramAt (tokenIds : List α) (gramSize start : Nat) : List α :=
  (tokenIds.drop start).take gramSize

/-- `token_ids[match_end : match_end + max_draft]`. -/
def remaining (p : NgramProposer) (tokenIds : List α) (matchEnd : Nat) : List α :=
  (tokenIds.drop matchEnd).take p.maxDraft

/-- The inner loop, over the starts below `bound`. Nothing found and a match
without followers both go on with the next size. -/
def searchFrom [DecidableEq α] (p : NgramProposer) (tokenIds : List α) (gramSize : Nat) :
    Nat → List α
  | 0 => []
  | start + 1 =>
      if gramAt tokenIds gramSize start = tokenIds.drop (tokenIds.length - gramSize) then
        p.remaining tokenIds (start + gramSize)
      else p.searchFrom tokenIds gramSize start

/-- The outer loop, over the sizes from `gramSize` down to the bigram. -/
def proposeFrom [DecidableEq α] (p : NgramProposer) (tokenIds : List α) : Nat → List α
  | 0 => []
  | gramSize + 1 =>
      if 1 < gramSize + 1 then
        if p.searchFrom tokenIds (gramSize + 1) (tokenIds.length - (gramSize + 1)) ≠ [] then
          p.searchFrom tokenIds (gramSize + 1) (tokenIds.length - (gramSize + 1))
        else p.proposeFrom tokenIds gramSize
      else []

/-- `NgramProposer.propose`. -/
def propose [DecidableEq α] (p : NgramProposer) (tokenIds : List α) : List α :=
  if tokenIds.length < 2 then []
  else p.proposeFrom tokenIds (min p.maxNgramSize (tokenIds.length - 1))

/-! ### Earlier occurrences -/

/-- The last `gramSize` tokens also stand at `start`, somewhere before the end. -/
structure Repeats (tokenIds : List α) (gramSize start : Nat) : Prop where
  earlier : start + gramSize < tokenIds.length
  same : gramAt tokenIds gramSize start = tokenIds.drop (tokenIds.length - gramSize)

/-- The occurrence to continue from: of the longest phrase that occurs earlier,
the latest place. -/
structure Best (p : NgramProposer) (tokenIds : List α) (gramSize start : Nat) : Prop where
  bigram : 2 ≤ gramSize
  bounded : gramSize ≤ p.maxNgramSize
  repeats : Repeats tokenIds gramSize start
  longest : ∀ size, gramSize < size → size ≤ p.maxNgramSize → ∀ at', ¬ Repeats tokenIds size at'
  latest : ∀ later, start < later → ¬ Repeats tokenIds gramSize later

variable {p : NgramProposer} {tokenIds : List α} {gramSize start : Nat}

/-- Where a phrase stands, its own ending stands too. -/
theorem Repeats.shorter (h : Repeats tokenIds gramSize start) {size : Nat} (hsize : size ≤ gramSize) :
    Repeats tokenIds size (start + (gramSize - size)) := by
  have hearlier := h.earlier
  refine ⟨by omega, ?_⟩
  have hdrop : (gramAt tokenIds gramSize start).drop (gramSize - size) =
      (tokenIds.drop (tokenIds.length - gramSize)).drop (gramSize - size) := by rw [h.same]
  rw [gramAt, List.drop_take, List.drop_drop, List.drop_drop] at hdrop
  rw [gramAt]
  have hleft : gramSize - (gramSize - size) = size := by omega
  have hright : tokenIds.length - gramSize + (gramSize - size) = tokenIds.length - size := by omega
  rwa [hleft, hright] at hdrop

/-- The places the inner loop looks at are the places before the phrase itself. -/
theorem repeats_iff : Repeats tokenIds gramSize start ↔
    start < tokenIds.length - gramSize ∧
      gramAt tokenIds gramSize start = tokenIds.drop (tokenIds.length - gramSize) := by
  constructor
  · intro h
    exact ⟨Nat.lt_sub_of_add_lt h.earlier, h.same⟩
  · intro h
    exact ⟨Nat.add_lt_of_lt_sub h.1, h.2⟩

theorem remaining_ne_nil (hdraft : 1 ≤ p.maxDraft) {matchEnd : Nat}
    (hend : matchEnd < tokenIds.length) : p.remaining tokenIds matchEnd ≠ [] := by
  intro hnil
  have hlen := congrArg List.length hnil
  rw [remaining, List.length_take, List.length_drop, List.length_nil] at hlen
  omega

/-! ### The two loops -/

section Loops

variable [DecidableEq α]

/-- The inner loop stops at the latest match below its bound. -/
theorem searchFrom_latest {bound : Nat} (hstart : start < bound)
    (hsame : gramAt tokenIds gramSize start = tokenIds.drop (tokenIds.length - gramSize))
    (hlatest : ∀ later, start < later → later < bound →
      gramAt tokenIds gramSize later ≠ tokenIds.drop (tokenIds.length - gramSize)) :
    p.searchFrom tokenIds gramSize bound = p.remaining tokenIds (start + gramSize) := by
  induction bound with
  | zero => exact absurd hstart (Nat.not_lt_zero start)
  | succ bound ih =>
    rw [searchFrom]
    rcases Nat.lt_succ_iff_lt_or_eq.mp hstart with hlt | rfl
    · rw [if_neg (hlatest bound hlt (Nat.lt_succ_self bound))]
      exact ih hlt fun later h hb => hlatest later h (Nat.lt_succ_of_lt hb)
    · rw [if_pos hsame]

theorem searchFrom_eq_nil {bound : Nat}
    (hnone : ∀ later, later < bound →
      gramAt tokenIds gramSize later ≠ tokenIds.drop (tokenIds.length - gramSize)) :
    p.searchFrom tokenIds gramSize bound = [] := by
  induction bound with
  | zero => rfl
  | succ bound ih =>
    rw [searchFrom, if_neg (hnone bound (Nat.lt_succ_self bound))]
    exact ih fun later hb => hnone later (Nat.lt_succ_of_lt hb)

/-- The inner loop over all the earlier places. -/
theorem searchFrom_repeats (h : Repeats tokenIds gramSize start)
    (hlatest : ∀ later, start < later → ¬ Repeats tokenIds gramSize later) :
    p.searchFrom tokenIds gramSize (tokenIds.length - gramSize) =
      p.remaining tokenIds (start + gramSize) := by
  obtain ⟨hstart, hsame⟩ := repeats_iff.mp h
  refine searchFrom_latest hstart hsame ?_
  intro later hlater hbound heq
  exact hlatest later hlater (repeats_iff.mpr ⟨hbound, heq⟩)

theorem searchFrom_fresh (hnone : ∀ at', ¬ Repeats tokenIds gramSize at') :
    p.searchFrom tokenIds gramSize (tokenIds.length - gramSize) = [] :=
  searchFrom_eq_nil fun later hbound heq => hnone later (repeats_iff.mpr ⟨hbound, heq⟩)

/-- The outer loop passes over the sizes that occur nowhere earlier. -/
theorem proposeFrom_best (hdraft : 1 ≤ p.maxDraft) (hbigram : 2 ≤ gramSize)
    (h : Repeats tokenIds gramSize start)
    (hlatest : ∀ later, start < later → ¬ Repeats tokenIds gramSize later) {top : Nat}
    (htop : gramSize ≤ top)
    (hlongest : ∀ size, gramSize < size → size ≤ top → ∀ at', ¬ Repeats tokenIds size at') :
    p.proposeFrom tokenIds top = p.remaining tokenIds (start + gramSize) := by
  induction top with
  | zero => omega
  | succ top ih =>
    rw [proposeFrom, if_pos (by omega)]
    rcases Nat.le_succ_iff.mp htop with hle | rfl
    · have hfresh := searchFrom_fresh (p := p)
        (hlongest (top + 1) (Nat.lt_succ_of_le hle) (Nat.le_refl _))
      rw [hfresh, if_neg (by simp)]
      exact ih hle fun size hlt hb => hlongest size hlt (Nat.le_succ_of_le hb)
    · rw [searchFrom_repeats h hlatest, if_pos (remaining_ne_nil hdraft h.earlier)]

theorem proposeFrom_eq_nil {top : Nat}
    (hnone : ∀ size, 2 ≤ size → ∀ at', ¬ Repeats tokenIds size at') :
    p.proposeFrom tokenIds top = [] := by
  induction top with
  | zero => rfl
  | succ top ih =>
    rw [proposeFrom]
    by_cases hsize : 1 < top + 1
    · rw [if_pos hsize, searchFrom_fresh (hnone (top + 1) hsize), if_neg (by simp), ih]
    · rw [if_neg hsize]

end Loops

/-! ### What is proposed -/

/-- A number below a bound that has a property has a last one. -/
theorem exists_latest {P : Nat → Prop} {k : Nat} (bound : Nat) (hbound : ∀ j, P j → j < bound)
    (hk : P k) :
    ∃ j, P j ∧ ∀ later, j < later → ¬ P later := by
  classical
  refine ⟨Nat.findGreatest P bound, Nat.findGreatest_spec (Nat.le_of_lt (hbound k hk)) hk, ?_⟩
  intro later hlater hP
  exact absurd (Nat.le_findGreatest (Nat.le_of_lt (hbound later hP)) hP) (Nat.not_le.mpr hlater)

/-- Whenever the bigram occurs earlier there is a best occurrence. -/
theorem exists_best (hngram : 2 ≤ p.maxNgramSize) (h : Repeats tokenIds 2 start) :
    ∃ gramSize start, p.Best tokenIds gramSize start := by
  obtain ⟨gramSize, ⟨⟨hbigram, hmax, place, hplace⟩, hlongest⟩⟩ :=
    exists_latest (P := fun size => 2 ≤ size ∧ size ≤ p.maxNgramSize ∧ ∃ at', Repeats tokenIds size at')
      (p.maxNgramSize + 1) (fun size hsize => Nat.lt_succ_of_le hsize.2.1)
      ⟨Nat.le_refl 2, hngram, start, h⟩
  obtain ⟨last, hlast, hlatest⟩ :=
    exists_latest (P := Repeats tokenIds gramSize) tokenIds.length
      (fun at' hat => by have := hat.earlier; omega) hplace
  refine ⟨gramSize, last, hbigram, hmax, hlast, ?_, hlatest⟩
  intro size hlt hle at' hat
  exact hlongest size hlt ⟨by omega, hle, at', hat⟩

section Propose

variable [DecidableEq α]

theorem propose_best (hdraft : 1 ≤ p.maxDraft) (h : p.Best tokenIds gramSize start) :
    p.propose tokenIds = p.remaining tokenIds (start + gramSize) := by
  have hearlier := h.repeats.earlier
  have hbigram := h.bigram
  have hbounded := h.bounded
  rw [propose, if_neg (by omega)]
  refine proposeFrom_best hdraft h.bigram h.repeats h.latest (by omega) ?_
  intro size hlt hle
  exact h.longest size hlt (Nat.le_trans hle (Nat.min_le_left _ _))

theorem propose_eq_nil (hnone : ∀ at', ¬ Repeats tokenIds 2 at') : p.propose tokenIds = [] := by
  rw [propose]
  split
  · rfl
  · refine proposeFrom_eq_nil ?_
    intro size hsize at' hat
    exact hnone _ (hat.shorter hsize)

/-- The draft is what followed the best earlier occurrence, cut at `max_draft`; it
is empty exactly when the last two tokens stand nowhere earlier. -/
theorem propose_continues (p : NgramProposer) (hngram : 2 ≤ p.maxNgramSize)
    (hdraft : 1 ≤ p.maxDraft) (tokenIds : List α) :
    (∀ gramSize start, p.Best tokenIds gramSize start →
      start + gramSize < tokenIds.length ∧
        p.propose tokenIds = (tokenIds.drop (start + gramSize)).take p.maxDraft ∧
        (p.propose tokenIds).length = min p.maxDraft (tokenIds.length - (start + gramSize)) ∧
        p.propose tokenIds ≠ []) ∧
      (p.propose tokenIds = [] ↔ ∀ start, ¬ Repeats tokenIds 2 start) ∧
      (p.propose tokenIds ≠ [] → ∃ gramSize start, p.Best tokenIds gramSize start) := by
  refine ⟨?_, ⟨?_, propose_eq_nil⟩, ?_⟩
  · intro gramSize start hbest
    have heq := propose_best hdraft hbest
    refine ⟨hbest.repeats.earlier, heq, ?_, ?_⟩
    · rw [heq, remaining, List.length_take, List.length_drop]
    · rw [heq]
      exact remaining_ne_nil hdraft hbest.repeats.earlier
  · intro hnil start hrepeats
    obtain ⟨gramSize, start, hbest⟩ := exists_best hngram hrepeats
    rw [propose_best hdraft hbest] at hnil
    exact remaining_ne_nil hdraft hbest.repeats.earlier hnil
  · intro hne
    by_contra hnone
    refine hne (propose_eq_nil ?_)
    intro start hrepeats
    exact hnone (exists_best hngram hrepeats)

/-- A phrase that overlaps its own earlier occurrence: `1 1 1 1` continues with `1`. -/
theorem propose_continues_overlapping :
    (2 ≤ (NgramProposer.mk 5 6).maxNgramSize ∧ 1 ≤ (NgramProposer.mk 5 6).maxDraft) ∧
      (NgramProposer.mk 5 6).propose [1, 1, 1, 1] = [1] ∧
      ((NgramProposer.mk 5 6).propose [1, 1, 1, 1] = [] ↔ ∀ start, ¬ Repeats [1, 1, 1, 1] 2 start) := by
  refine ⟨⟨by decide, by decide⟩, by decide, ?_⟩
  exact (propose_continues (NgramProposer.mk 5 6) (by decide) (by decide) [1, 1, 1, 1]).2.1

end Propose

end NgramProposer

end RapidLlm
