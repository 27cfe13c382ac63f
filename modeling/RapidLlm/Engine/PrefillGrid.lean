import RapidLlm.Engine.OffloadRun
import RapidLlm.Engine.SchedulerWork

/-!
# RapidLlm.Engine.PrefillGrid

**Whether the columns of a prefill grid are positions of the block table.** A grid is as wide as
the widest chunk of its pass, and each of its rows begins where its own request's cached rows end.

* `Chunked st`: every chunk granted is the next one of its request;
* `GridFits s chunks`: what any two chunks of a pass must satisfy together;
* `run_grid_iff`: the grids of a step stay inside the table exactly where the resumed chunks fit.
-/

namespace RapidLlm

/-- Every column of the grid, counted from where its row begins, is a position of the table. -/
def ModelInput.InBounds (maxSeqLen : Nat) (input : ModelInput) : Prop :=
  ∀ entry ∈ input.entries, ∀ column < input.width, entry.seqStart + column < maxSeqLen

theorem lt_foldl_max {n : Nat} : ∀ {xs : List Nat} {init : Nat}, n < xs.foldl max init →
    n < init ∨ ∃ x ∈ xs, n < x
  | [], init, h => .inl h
  | x :: xs, init, h => by
      rw [List.foldl_cons] at h
      rcases lt_foldl_max h with h | ⟨y, hy, h⟩
      · rcases lt_max_iff.mp h with h | h
        · exact .inl h
        · exact .inr ⟨x, List.mem_cons_self, h⟩
      · exact .inr ⟨y, List.mem_cons_of_mem _ hy, h⟩

/-- A grid is in bounds when any two of its rows fit together. -/
theorem ModelInput.inBounds_iff {maxSeqLen : Nat} {input : ModelInput}
    (hstarts : ∀ entry ∈ input.entries, entry.seqStart ≤ maxSeqLen) :
    input.InBounds maxSeqLen ↔ ∀ a ∈ input.entries, ∀ b ∈ input.entries,
      a.seqStart + b.chunkLen ≤ maxSeqLen := by
  constructor
  · intro h a ha b hb
    rcases Nat.eq_zero_or_pos b.chunkLen with hzero | hpos
    · rw [hzero]
      exact hstarts a ha
    · have := h a ha (b.chunkLen - 1) (by have := chunkLen_le_width hb; omega)
      omega
  · intro h a ha column hcolumn
    rcases lt_foldl_max hcolumn with hzero | ⟨n, hn, hlt⟩
    · exact absurd hzero (Nat.not_lt_zero _)
    · obtain ⟨b, hb, rfl⟩ := List.mem_map.mp hn
      have := h a ha b hb
      omega

namespace BatchPlanner

variable {s t : BatchPlanner} {r : RequestRef} {st st' : PlanState}

/-- What a request of a plan had cached before the step. -/
def cachedBefore (s : BatchPlanner) (chunk : RequestRef × Nat) : Nat :=
  (s.objects chunk.1).numComputedTokens - chunk.2

/-- Any two of these requests fit one grid: what the one had cached, and behind it the next chunk
of the other. -/
def GridFits (s : BatchPlanner) (chunks : List (RequestRef × Nat)) : Prop :=
  ∀ a ∈ chunks, ∀ b ∈ chunks,
    s.cachedBefore a + s.chunkOf (s.objects b.1) (s.cachedBefore b) ≤ s.config.maxSeqLen

/-! ### Granted chunks -/

/-- `chunk` is the one its request had to run next, and its counter is past it. -/
def IsChunk (s : BatchPlanner) (chunk : RequestRef × Nat) : Prop :=
  chunk.2 ≤ (s.objects chunk.1).numComputedTokens ∧
    chunk.2 = s.chunkOf (s.objects chunk.1) (s.cachedBefore chunk)

/-- Every chunk granted is the next one of its request. -/
def Chunked (st : PlanState) : Prop := ∀ chunk ∈ st.prefill, IsChunk st.planner chunk

theorem isChunk_congr {chunk : RequestRef × Nat} (hconfig : t.config = s.config)
    (hobj : dropPlan (t.objects chunk.1) = dropPlan (s.objects chunk.1)) (h : IsChunk s chunk) :
    IsChunk t chunk := by
  simp only [IsChunk, cachedBefore, chunkOf, dropPlan_computed hobj, dropPlan_promptLen hobj,
    hconfig]
  exact h

/-- A counter that has just been advanced over its next chunk. -/
theorem isChunk_advanced {computed : Nat} (hconfig : t.config = s.config)
    (hlen : (t.objects r).promptLen = (s.objects r).promptLen)
    (hcomputed : (t.objects r).numComputedTokens = computed + s.chunkOf (s.objects r) computed) :
    IsChunk t (r, s.chunkOf (s.objects r) computed) := by
  have hchunk : t.chunkOf (t.objects r) computed = s.chunkOf (s.objects r) computed := by
    simp only [chunkOf, hlen, hconfig]
  refine ⟨?_, ?_⟩
  · simp only [hcomputed]
    omega
  · simp only [cachedBefore, hcomputed, Nat.add_sub_cancel, hchunk]

theorem Turn.chunked (h : Turn st st') (hs : Roster st.planner) (hst : Granted st)
    (hc : Chunked st) : Chunked st' := by
  have hmem : ∀ {chunk}, chunk ∈ st.prefill → chunk.1 ∈ st.granted := fun hchunk =>
    List.mem_append_left _ (List.mem_map_of_mem hchunk)
  intro chunk hchunk
  cases h with
  | idle hidle => exact isChunk_congr hidle.kept.config (hidle.kept.objects _) (hc chunk hchunk)
  | evict hr hfree _ hevicted =>
    refine isChunk_congr hevicted.moved.config (hevicted.moved.others _ ?_) (hc chunk hchunk)
    exact fun heq => hfree (heq ▸ hmem hchunk)
  | @resume r t hr hfree _ hmoved =>
    rcases List.mem_append.mp hchunk with hchunk | hchunk
    · refine isChunk_congr hmoved.config (hmoved.others _ ?_) (hc chunk hchunk)
      exact fun heq => hfree (heq ▸ hmem hchunk)
    · rw [List.mem_singleton.mp hchunk]
      have hcomputed := dropPlan_computed hmoved.self
      have hlen := dropPlan_promptLen hmoved.self
      exact isChunk_advanced hmoved.config hlen hcomputed
  | refuse _ hkept => exact isChunk_congr hkept.config (hkept.objects _) (hc chunk hchunk)
  | @seat r t hit slot n hw _ _ hn hmoved =>
    rcases List.mem_append.mp hchunk with hchunk | hchunk
    · refine isChunk_congr hmoved.config (hmoved.others _ ?_) (hc chunk hchunk)
      exact fun heq => hs.not_running hw (heq ▸ hst _ (hmem hchunk))
    · rw [List.mem_singleton.mp hchunk, hn]
      have hcomputed := dropPlan_computed hmoved.self
      have hlen := dropPlan_promptLen hmoved.self
      rw [hn] at hcomputed
      exact isChunk_advanced hmoved.config hlen hcomputed
  | park hw _ hmoved =>
    refine isChunk_congr hmoved.config (hmoved.others _ ?_) (hc chunk hchunk)
    exact fun heq => hs.not_running hw (heq ▸ hst _ (hmem hchunk))
  | grow _ _ _ hkept => exact isChunk_congr hkept.config (hkept.objects _) (hc chunk hchunk)

theorem Turns.chunked (h : Turns st st') (hs : Roster st.planner) (hst : Granted st)
    (hc : Chunked st) : Chunked st' := by
  induction h with
  | refl => exact hc
  | tail hrest hlast ih =>
    exact hlast.chunked (Turns.roster hrest hs) (Turns.granted_running hrest hs hst) ih

/-! ### Passes -/

theorem chunkEntry_eff {chunk : RequestRef × Nat} {entry : PassEntry}
    (h : s.chunkEntry chunk = .ok entry) : entry.seqStart = s.cachedBefore chunk ∧
      entry.seqLen = (s.objects chunk.1).numComputedTokens := by
  unfold chunkEntry at h
  obtain ⟨slot, -, h⟩ := bind_eq_ok.mp h
  cases h
  exact ⟨rfl, rfl⟩

/-- A pass of prompt chunks is in bounds exactly where its chunks fit. -/
theorem chunkWork_inBounds {kind : PassKind} {chunks : List (RequestRef × Nat)} {input : ModelInput}
    (hfits : ∀ chunk ∈ chunks, (s.objects chunk.1).numComputedTokens ≤ s.config.maxSeqLen)
    (hchunks : ∀ chunk ∈ chunks, IsChunk s chunk) (h : s.chunkWork kind chunks = .ok input) :
    input.kind = kind ∧ (input.InBounds s.config.maxSeqLen ↔ GridFits s chunks) := by
  unfold chunkWork at h
  obtain ⟨entries, hentries, h⟩ := bind_eq_ok.mp h
  obtain rfl := ModelInput.create_eq h
  obtain ⟨hto, hfrom⟩ := mapM_mem hentries
  refine ⟨rfl, ?_⟩
  have hlen : ∀ {chunk entry}, chunk ∈ chunks → s.chunkEntry chunk = .ok entry →
      entry.chunkLen = s.chunkOf (s.objects chunk.1) (s.cachedBefore chunk) := by
    intro chunk entry hchunk hentry
    obtain ⟨hstart, hstop⟩ := chunkEntry_eff hentry
    obtain ⟨hle, hnext⟩ := hchunks chunk hchunk
    rw [← hnext, PassEntry.chunkLen, hstart, hstop, cachedBefore]
    omega
  rw [ModelInput.inBounds_iff fun entry hentry => ?_]
  · constructor
    · intro hbounds a ha b hb
      obtain ⟨ea, hea, hea'⟩ := hto a ha
      obtain ⟨eb, heb, heb'⟩ := hto b hb
      rw [← hlen hb heb', ← (chunkEntry_eff hea').1]
      exact hbounds ea hea eb heb
    · intro hgrid ea hea eb heb
      obtain ⟨a, ha, hea'⟩ := hfrom ea hea
      obtain ⟨b, hb, heb'⟩ := hfrom eb heb
      rw [hlen hb heb', (chunkEntry_eff hea').1]
      exact hgrid a ha b hb
  · obtain ⟨chunk, hchunk, hentry⟩ := hfrom entry hentry
    rw [(chunkEntry_eff hentry).1]
    exact (Nat.sub_le _ _).trans (hfits chunk hchunk)

/-- First chunks always fit: nothing is cached. -/
theorem gridFits_fresh {chunks : List (RequestRef × Nat)}
    (hfits : ∀ chunk ∈ chunks, (s.objects chunk.1).promptLen ≤ s.config.maxSeqLen) :
    GridFits s (s.freshChunks chunks) := by
  intro a ha b hb
  rw [freshChunks, List.mem_filter, decide_eq_true_eq] at ha hb
  have hle : s.chunkOf (s.objects b.1) (s.cachedBefore b) ≤ (s.objects b.1).promptLen := by
    unfold chunkOf
    simp only
    split <;> omega
  have hzero : s.cachedBefore a = 0 := by
    rw [cachedBefore, ha.2, Nat.sub_self]
  have := hfits b hb.1
  omega

/-- The pass of a list of chunks, if there are any. -/
theorem pass_eff {kind : PassKind} {chunks : List (RequestRef × Nat)} {pass : List ModelInput}
    (h : (if chunks.isEmpty then pure [] else List.singleton <$> s.chunkWork kind chunks :
      Except Raised (List ModelInput)) = .ok pass) :
    (chunks = [] ∧ pass = []) ∨ ∃ input, s.chunkWork kind chunks = .ok input ∧ pass = [input] := by
  split at h
  · rename_i hnone
    cases h
    exact .inl ⟨List.isEmpty_iff.mp hnone, rfl⟩
  · cases hwork : s.chunkWork kind chunks with
    | error e =>
      rw [hwork] at h
      cases h
    | ok input =>
      rw [hwork] at h
      cases h
      exact .inr ⟨input, rfl, rfl⟩

theorem prefillWork_eff {rows : Option Nat} {chunks : List (RequestRef × Nat)}
    {works : List ModelInput} (h : s.prefillWork rows chunks = .ok works) :
    ∃ first second, works = first ++ second ∧
      ((s.freshChunks chunks = [] ∧ first = []) ∨
        ∃ input, s.chunkWork .prefill (s.freshChunks chunks) = .ok input ∧ first = [input]) ∧
      ((s.resumedChunks chunks = [] ∧ second = []) ∨
        ∃ input, s.chunkWork (resumedKind rows (s.resumedChunks chunks)) (s.resumedChunks chunks) =
          .ok input ∧ second = [input]) := by
  have heq : s.prefillWork rows chunks = (do
      let first ← (if (s.freshChunks chunks).isEmpty then pure []
        else List.singleton <$> s.chunkWork .prefill (s.freshChunks chunks) :
          Except Raised (List ModelInput))
      let second ← (if (s.resumedChunks chunks).isEmpty then pure []
        else List.singleton <$> s.chunkWork (resumedKind rows (s.resumedChunks chunks))
          (s.resumedChunks chunks) : Except Raised (List ModelInput))
      return first ++ second) := by
    unfold prefillWork
    simp only
    split <;> split <;> rfl
  rw [heq] at h
  obtain ⟨first, hfirst, h⟩ := bind_eq_ok.mp h
  obtain ⟨second, hsecond, h⟩ := bind_eq_ok.mp h
  cases h
  exact ⟨first, second, rfl, pass_eff hfirst, pass_eff hsecond⟩

/-- The grids of a step. -/
theorem prefillWork_inBounds {rows : Option Nat} {chunks : List (RequestRef × Nat)}
    {works : List ModelInput}
    (hfits : ∀ chunk ∈ chunks, (s.objects chunk.1).numComputedTokens ≤ (s.objects chunk.1).promptLen ∧
      (s.objects chunk.1).promptLen ≤ s.config.maxSeqLen)
    (hchunks : ∀ chunk ∈ chunks, IsChunk s chunk) (h : s.prefillWork rows chunks = .ok works) :
    (∀ input ∈ works, input.kind = .prefill → input.InBounds s.config.maxSeqLen) ↔
      (resumedKind rows (s.resumedChunks chunks) = .prefill → GridFits s (s.resumedChunks chunks)) := by
  have hpass : ∀ {kind some input}, some ⊆ chunks → s.chunkWork kind some = .ok input →
      input.kind = kind ∧ (input.InBounds s.config.maxSeqLen ↔ GridFits s some) :=
    fun hsub hwork => chunkWork_inBounds (fun chunk hchunk =>
      (hfits chunk (hsub hchunk)).1.trans (hfits chunk (hsub hchunk)).2)
      (fun chunk hchunk => hchunks chunk (hsub hchunk)) hwork
  obtain ⟨first, second, rfl, hfirst, hsecond⟩ := prefillWork_eff h
  -- the pass of first chunks is in bounds whatever they are
  have hfresh : ∀ input ∈ first, input.InBounds s.config.maxSeqLen := by
    intro input hinput
    rcases hfirst with ⟨-, rfl⟩ | ⟨work, hwork, rfl⟩
    · cases hinput
    · rw [List.mem_singleton.mp hinput]
      exact (hpass (List.filter_subset_self _) hwork).2.mpr
        (gridFits_fresh fun chunk hchunk => (hfits chunk hchunk).2)
  rcases hsecond with ⟨hnone, rfl⟩ | ⟨work, hwork, rfl⟩
  · rw [hnone, List.append_nil]
    exact iff_of_true (fun input hinput _ => hfresh input hinput) fun _ a ha => by cases ha
  · obtain ⟨hkind, hbounds⟩ := hpass (List.filter_subset_self _) hwork
    constructor
    · intro hall hgrid
      exact hbounds.mp (hall work (List.mem_append_right _ (List.mem_singleton_self _))
        (hkind.trans hgrid))
    · intro hgrid input hinput hprefill
      rcases List.mem_append.mp hinput with hinput | hinput
      · exact hfresh input hinput
      · rw [List.mem_singleton.mp hinput] at hprefill ⊢
        exact hbounds.mpr (hgrid (hkind.symm.trans hprefill))

end BatchPlanner

namespace OffloadPlanner

open BatchPlanner

variable {σ : Type} {p p₀ p' : OffloadPlanner σ}

section

variable [OffloadingManager σ] [BlockDigest]

/-- What `plan` grants are next chunks. -/
theorem plan_isChunk {plan : StepPlan} (hp : Placed p) (h : p.plan = .ok (plan, p')) :
    ∀ chunk ∈ plan.prefill, chunk.1 ∈ p'.running ∧ IsChunk p'.toBatchPlanner chunk := by
  obtain ⟨q, hbefore, hends⟩ := plan_eff h
  have hq := (hp.changes (beforeStages_changes hp hbefore)).roster
  obtain ⟨st₁, st₂, st, hends⟩ := hends hq
  have hturns := (hends.turns hq).turned
  intro chunk hchunk
  rw [hends.prefill] at hchunk
  rw [hends.planner]
  exact ⟨hturns.granted_running hq (granted_start _) _
      (List.mem_append_left _ (List.mem_map_of_mem hchunk)),
    hturns.chunked hq (granted_start _) (fun _ hc => (List.not_mem_nil hc).elim) chunk hchunk⟩

end

/-- A context of 40 positions, prefilled in chunks of 16. -/
def gridConfig : SchedulerConfig :=
  { smallConfig with
    maxSeqLen := 40
    prefixCacheBlocks := none
    two_le_maxSeqLen := by decide
    whole_prompt_fits := Bool.noConfusion
    two_le_blocks := by simp }

/-- A prompt that leaves one position of the context. -/
def longPrompt : List Token := List.replicate 39 7

end OffloadPlanner

end RapidLlm
