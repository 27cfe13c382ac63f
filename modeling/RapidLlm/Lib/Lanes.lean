import Mathlib.Data.List.MinMax
import Mathlib.Order.BoundedOrder.Basic
import RapidLlm.Lib.TopPicks

/-!
# RapidLlm.Lib.Lanes

**Selection by masking.** A vector of `block` lanes has a value in each, `⊥` where a lane is out.
`pickRounds` takes the lane of the largest value and puts it out, a number of times.
`pickRounds_isTop`: as long as there are lanes left, these are the best of the lanes that were
in, best first. Of lanes with different values, only one list is (`IsTop.unique`).
-/

namespace RapidLlm

universe u v

variable {V : Type u} [LinearOrder V]

/-- The first of the lanes with the largest value. -/
def argmaxLane (block : Nat) (v : Nat → V) : Nat := ((List.range block).argmax v).getD 0

section Mask

variable [OrderBot V]

/-- The largest value of the lanes. -/
def maxLane (block : Nat) (v : Nat → V) : V := ((List.range block).map v).foldr max ⊥

/-- The lanes without one. -/
def maskLane (i : Nat) (v : Nat → V) : Nat → V := fun j => if j = i then ⊥ else v j

/-- The lanes picked in a number of rounds, and what they leave. -/
def pickRounds (block : Nat) (v : Nat → V) : Nat → List Nat × (Nat → V)
  | 0 => ([], v)
  | m + 1 =>
    let before := pickRounds block v m
    let i := argmaxLane block before.2
    (before.1 ++ [i], maskLane i before.2)

/-- The lanes that are in. -/
def liveLanes (block : Nat) (v : Nat → V) : List Nat := (List.range block).filter (v · ≠ ⊥)

variable {block : Nat} {v : Nat → V}

theorem mem_liveLanes {i : Nat} : i ∈ liveLanes block v ↔ i < block ∧ v i ≠ ⊥ := by
  rw [liveLanes, List.mem_filter, List.mem_range, decide_eq_true_iff]

theorem nodup_liveLanes : (liveLanes block v).Nodup := List.nodup_range.filter _

omit [OrderBot V] in
/-- With a lane at all, the argmax is one, and no lane has a larger value. -/
theorem argmaxLane_spec (hblock : 0 < block) :
    argmaxLane block v < block ∧ ∀ i < block, v i ≤ v (argmaxLane block v) := by
  unfold argmaxLane
  cases hmax : (List.range block).argmax v with
  | none =>
    have hnil := List.argmax_eq_none.mp hmax
    rw [List.range_eq_nil] at hnil
    omega
  | some m =>
    refine ⟨List.mem_range.mp (List.argmax_mem hmax), fun i hi => ?_⟩
    exact List.le_of_mem_argmax (List.mem_range.mpr hi) hmax

theorem le_maxLane {i : Nat} (hi : i < block) : v i ≤ maxLane block v := by
  have hle : ∀ (values : List V), ∀ a ∈ values, a ≤ values.foldr max ⊥ := by
    intro values
    induction values with
    | nil => exact nofun
    | cons b values ih =>
      intro a ha
      rcases List.mem_cons.mp ha with rfl | ha
      · exact le_max_left _ _
      · exact (ih a ha).trans (le_max_right _ _)
  exact hle _ _ (List.mem_map_of_mem (List.mem_range.mpr hi))

theorem maxLane_le {a : V} (h : ∀ i < block, v i ≤ a) : maxLane block v ≤ a := by
  have hle : ∀ (values : List V), (∀ b ∈ values, b ≤ a) → values.foldr max ⊥ ≤ a := by
    intro values hvalues
    induction values with
    | nil => exact bot_le
    | cons b values ih =>
      obtain ⟨hb, hrest⟩ := List.forall_mem_cons.mp hvalues
      exact max_le hb (ih hrest)
  refine hle _ fun b hb => ?_
  obtain ⟨i, hi, rfl⟩ := List.mem_map.mp hb
  exact h i (List.mem_range.mp hi)

/-- The largest value is the one of the argmax. -/
theorem maxLane_eq (hblock : 0 < block) : maxLane block v = v (argmaxLane block v) :=
  le_antisymm (maxLane_le (argmaxLane_spec hblock).2) (le_maxLane (argmaxLane_spec hblock).1)

/-- **Rounds pick the best lanes**, best first, and leave the others as they were. -/
theorem pickRounds_isTop {m : Nat} (hm : m ≤ (liveLanes block v).length) :
    IsTop v (liveLanes block v) (pickRounds block v m).1 ∧ (pickRounds block v m).1.length = m ∧
    ∀ j, (pickRounds block v m).2 j = if j ∈ (pickRounds block v m).1 then ⊥ else v j := by
  induction m with
  | zero => exact ⟨⟨List.nodup_nil, List.nil_subset _, .nil, fun _ _ _ _ h => nomatch h⟩, rfl,
      fun j => (if_neg List.not_mem_nil).symm⟩
  | succ m ih =>
    obtain ⟨htop, hlen, hleft⟩ := ih (Nat.le_of_succ_le hm)
    rw [pickRounds]
    dsimp only
    generalize pickRounds block v m = before at htop hlen hleft ⊢
    -- A lane is left, so the round picks one that was in and not picked before.
    obtain ⟨spare, hspare, hnot⟩ : ∃ i ∈ liveLanes block v, i ∉ before.1 := by
      by_contra hall
      push Not at hall
      have hfew := nodup_liveLanes.length_le_of_subset hall
      omega
    obtain ⟨hblock, hlive⟩ := mem_liveLanes.mp hspare
    obtain ⟨hlane, hmax⟩ := argmaxLane_spec (v := before.2) (Nat.zero_lt_of_lt hblock)
    set i := argmaxLane block before.2
    have hpos : before.2 i ≠ ⊥ := by
      intro hbot
      have hle := hmax spare hblock
      rw [hbot, hleft, if_neg hnot, le_bot_iff] at hle
      exact hlive hle
    have hnew : i ∉ before.1 := fun hmem => hpos (by rw [hleft, if_pos hmem])
    have hvalue : before.2 i = v i := by rw [hleft, if_neg hnew]
    have hmem : i ∈ liveLanes block v := mem_liveLanes.mpr ⟨hlane, hvalue ▸ hpos⟩
    refine ⟨⟨?_, ?_, ?_, ?_⟩, by rw [List.length_append, hlen]; rfl, fun j => ?_⟩
    · refine List.Nodup.append htop.nodup (List.nodup_singleton _) fun j hj hj' => ?_
      exact hnew (List.mem_singleton.mp hj' ▸ hj)
    · exact List.append_subset.mpr ⟨htop.subset, fun j hj => List.mem_singleton.mp hj ▸ hmem⟩
    · refine List.pairwise_append.mpr ⟨htop.sorted, List.pairwise_singleton _ _, ?_⟩
      intro j hj j' hj'
      rw [List.mem_singleton.mp hj']
      exact htop.rest i hmem hnew j hj
    · intro j hj hout j' hj'
      rw [List.mem_append, List.mem_singleton, not_or] at hout
      rcases List.mem_append.mp hj' with hj' | hj'
      · exact htop.rest j hj hout.1 j' hj'
      · have hle := hmax j (mem_liveLanes.mp hj).1
        rwa [hleft, if_neg hout.1, hvalue, ← List.mem_singleton.mp hj'] at hle
    · rw [maskLane, hleft]
      by_cases hj : j = i
      · rw [if_pos hj, if_pos (List.mem_append_right _ (List.mem_singleton.mpr hj))]
      · rw [if_neg hj]
        simp only [List.mem_append, List.mem_singleton, hj, or_false]

end Mask

/-- Of members with different values, only one list of a length is the best of the pool. -/
theorem IsTop.unique {ι : Type v} {value : ι → V} {pool picks picks' : List ι}
    (h : IsTop value pool picks) (h' : IsTop value pool picks') (hpool : pool.Nodup)
    (hlen : picks.length = picks'.length)
    (hinj : ∀ i ∈ pool, ∀ j ∈ pool, value i = value j → i = j) : picks = picks' := by
  have hvalues : picks.map value = picks'.map value := by
    rw [h.map_eq_take hpool, h'.map_eq_take hpool, hlen]
  refine List.ext_getElem hlen fun n hn hn' => ?_
  refine hinj _ (h.subset (List.getElem_mem hn)) _ (h'.subset (List.getElem_mem hn')) ?_
  have hget := List.getElem_of_eq hvalues (by rwa [List.length_map])
  rwa [List.getElem_map, List.getElem_map] at hget

end RapidLlm
