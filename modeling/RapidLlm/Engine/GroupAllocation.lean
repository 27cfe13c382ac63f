import RapidLlm.Engine.GroupIndexing

/-!
# RapidLlm.Engine.GroupAllocation

Runs of the coordinator, and what `allocate` does in any state they reach.

* `allocate_cases`: it raises, or refuses, or grants.
* `step_sound`: every call keeps the accounts, `run_sound` over runs.
* `run_allocate`: `allocate` is all or nothing. `Untouched` is what `false` leaves, `Covered` what
  `true` does.
-/

namespace RapidLlm

/-! ### What `allocate` does -/

theorem numBlocksFor_zero (spec : GroupSpec) : spec.numBlocksFor 0 = 0 := by
  have := spec.one_le_blockSize
  rw [GroupSpec.numBlocksFor, cdiv, Nat.zero_add]
  exact Nat.div_eq_of_lt (by omega)

theorem one_le_numBlocksFor (spec : GroupSpec) {numTokens : Nat} (h : numTokens ≠ 0) :
    1 ≤ spec.numBlocksFor numTokens := by
  have := spec.one_le_blockSize
  rw [GroupSpec.numBlocksFor, cdiv]
  exact Nat.div_pos (by omega) this

namespace GroupCoordinator

variable {coord coord' : GroupCoordinator} {rid : RequestId} {others : Multiset BlockId}
  {numTokens : Nat} {adopted : List (List BlockId)} {fresh : List BlockId}

/-- The blocks of a request that was given what it lacked. -/
def grantedState (coord : GroupCoordinator) (rid : RequestId) (numTokens : Nat)
    (adopted : List (List BlockId)) (fresh : List BlockId) : GroupBlocks :=
  { coord.adoptedState rid adopted with
    perGroup := dealBlocks (coord.adoptedState rid adopted).perGroup
      (coord.lacking rid numTokens adopted) fresh }

theorem lacking_length (hshaped : Shaped coord.config (coord.adoptedState rid adopted)) :
    (coord.lacking rid numTokens adopted).length = (coord.adoptedState rid adopted).perGroup.length :=
  blocksNeeded_length hshaped.perGroup

/-- Every list is the one it was, and its share of the draw. -/
theorem grantedState_getElem? (hshaped : Shaped coord.config (coord.adoptedState rid adopted))
    (hfresh : fresh.length = totalNeeded (coord.lacking rid numTokens adopted)) {i : Nat}
    {group : GroupSpec} {own : List BlockId} (hgroup : coord.config.groups[i]? = some group)
    (hown : (coord.adoptedState rid adopted).perGroup[i]? = some own) :
    ∃ share, (coord.grantedState rid numTokens adopted fresh).perGroup[i]? = some (own ++ share) ∧
      share.Sublist fresh ∧ share.length = group.numBlocksFor numTokens - own.length := by
  obtain ⟨share, hshare, hlen⟩ := shares_getElem? hfresh (blocksNeeded_getElem? hgroup hown)
  refine ⟨share, ?_, ?_, hlen⟩
  swap
  · rw [← shares_flatten hfresh]
    exact List.sublist_flatten_of_mem (List.mem_of_getElem? hshare)
  simp only [grantedState, dealBlocks_eq fresh (lacking_length hshaped), List.getElem?_zipWith, hown,
    hshare]

theorem grantedState_shaped (hshaped : Shaped coord.config (coord.adoptedState rid adopted))
    (hfresh : fresh.length = totalNeeded (coord.lacking rid numTokens adopted)) :
    Shaped coord.config (coord.grantedState rid numTokens adopted fresh) := by
  have hneeded := @lacking_length coord rid numTokens adopted hshaped
  have hlength : (coord.grantedState rid numTokens adopted fresh).perGroup.length =
      coord.config.groups.length := by
    rw [grantedState, dealBlocks_eq fresh hneeded, List.length_zipWith, shares_length, hneeded,
      Nat.min_self]
    exact hshaped.perGroup
  -- every list is an old one with its share
  have hlist : ∀ blocks ∈ (coord.grantedState rid numTokens adopted fresh).perGroup,
      ∃ group, ∃ own ∈ (coord.adoptedState rid adopted).perGroup, ∃ share : List BlockId,
        blocks = own ++ share ∧ share.length = GroupSpec.numBlocksFor group numTokens - own.length := by
    intro blocks hblocks
    obtain ⟨i, hi⟩ := List.mem_iff_getElem?.mp hblocks
    have hlt : i < coord.config.groups.length := hlength ▸ (List.getElem?_eq_some_iff.mp hi).1
    have hgroup := List.getElem?_eq_getElem hlt
    have hown := List.getElem?_eq_getElem (hshaped.perGroup.symm ▸ hlt)
    obtain ⟨share, hshare, -, hlen⟩ := grantedState_getElem? hshaped hfresh hgroup hown
    exact ⟨_, _, List.mem_of_getElem? hown, share, Option.some.inj (hi.symm.trans hshare), hlen⟩
  refine { perGroup := hlength, numCached := hshaped.numCached, even := ?_ }
  rcases hshaped.even with hempty | hfull
  · by_cases hzero : numTokens = 0
    · left
      intro blocks hblocks
      obtain ⟨group, own, hown, share, rfl, hlen⟩ := hlist blocks hblocks
      rw [hzero, numBlocksFor_zero, Nat.zero_sub] at hlen
      rw [hempty own hown, List.length_eq_zero_iff.mp hlen, List.append_nil]
    · right
      intro blocks hblocks hnil
      obtain ⟨group, own, hown, share, rfl, hlen⟩ := hlist blocks hblocks
      obtain ⟨-, rfl⟩ := List.append_eq_nil_iff.mp hnil
      have := one_le_numBlocksFor group hzero
      rw [hempty own hown] at hlen
      simp only [List.length_nil] at hlen
      omega
  · right
    intro blocks hblocks hnil
    obtain ⟨group, own, hown, share, rfl, -⟩ := hlist blocks hblocks
    exact hfull own hown (List.append_eq_nil_iff.mp hnil).1

/-- The references of a request that was given a draw. -/
theorem grantedState_references (hshaped : Shaped coord.config (coord.adoptedState rid adopted))
    (hfresh : fresh.length = totalNeeded (coord.lacking rid numTokens adopted))
    (hreal : ∀ b ∈ fresh, b ≠ nullBlockId) :
    (coord.grantedState rid numTokens adopted fresh).references.Perm
      ((coord.adoptedState rid adopted).references ++ fresh) := by
  have hperm := dealBlocks_flatten (blocksNeeded_length hshaped.perGroup) hfresh
  have hfilter : (coord.grantedState rid numTokens adopted fresh).references.Perm
      (realBlocks ((coord.adoptedState rid adopted).perGroup.flatten ++ fresh)) := hperm.filter _
  rw [realBlocks_append, realBlocks_eq_self hreal] at hfilter
  exact hfilter

/-- A lookup hands over one list per group, so at least one. -/
theorem hit_ne_nil {held : Multiset BlockId} (h : coord.pool.Holds held)
    (blockHashes : List BlockHash) (maxLength : Nat) : coord.hit blockHashes maxLength ≠ [] := by
  intro hnil
  have hlen := (hit_adoptable h blockHashes maxLength).length
  rw [hnil, List.length_nil] at hlen
  exact coord.config.groups_ne (List.length_eq_zero_iff.mp hlen.symm)

/-- The lists of hit blocks that `allocate` sees: none without a lookup. -/
def adoptedNow (coord : GroupCoordinator) (matched : Option (List BlockHash × Nat)) :
    List (List BlockId) := (coord.matchNow matched).getD []

theorem adoptedNow_adoptable {held : Multiset BlockId} (h : coord.pool.Holds held)
    {matched : Option (List BlockHash × Nat)} (hne : coord.adoptedNow matched ≠ []) :
    coord.Adoptable (coord.adoptedNow matched) := by
  cases matched with
  | none => exact absurd rfl hne
  | some lookup => exact hit_adoptable h lookup.1 lookup.2

/-- A match for a request that holds blocks is refused at its first group, with nothing touched. -/
theorem allocate_error {held : Multiset BlockId} (h : coord.pool.Holds held)
    (hshaped : Shaped coord.config (coord.stateOf rid)) {lookup : List BlockHash × Nat}
    {blocks : List BlockId} (hblocks : blocks ∈ coord.blockIds rid) (hne : blocks ≠ []) :
    coord.allocate rid numTokens (coord.matchNow (some lookup)) =
      .error (.valueError s!"request {rid} already holds blocks in group {0}") := by
  have hadoptable := hit_adoptable h lookup.1 lookup.2
  have hnil := hit_ne_nil h lookup.1 lookup.2
  have hall : ∀ blocks ∈ coord.blockIds rid, blocks ≠ [] :=
    hshaped.even.resolve_left fun hempty => hne (hempty blocks hblocks)
  obtain ⟨own, perGroup, hlists⟩ := List.exists_cons_of_ne_nil (List.ne_nil_of_mem hblocks)
  have hadopt : coord.adopt rid (coord.hit lookup.1 lookup.2) =
      .error (.valueError s!"request {rid} already holds blocks in group {0}") := by
    rw [adopt, if_neg hnil, if_neg (not_not_intro hadoptable.length), hlists,
      adoptGroups_error coord.pool hnil (hall own (hlists ▸ List.mem_cons_self))]
    rfl
  have hmatch : (coord.matchNow (some lookup)).getD [] = coord.hit lookup.1 lookup.2 := rfl
  rw [allocate, hmatch, hadopt]
  rfl

/-- **The three ways `allocate` goes.** -/
theorem allocate_cases (h : coord.Sound)
    (hholds : coord.pool.Holds ((coord.references rid : Multiset BlockId) + others))
    (numTokens : Nat) (matched : Option (List BlockHash × Nat)) :
    (matched.isSome ∧ (∃ blocks ∈ coord.blockIds rid, blocks ≠ []) ∧
      ∃ message, coord.allocate rid numTokens (coord.matchNow matched) =
        .error (.valueError message)) ∨
    (∃ pool' state, coord.allocate rid numTokens (coord.matchNow matched) =
        .ok (false, coord.withRequest pool' rid state) ∧
      (state = none ∨ state = some (coord.stateOf rid)) ∧
      pool'.Holds ((coord.references rid : Multiset BlockId) + others) ∧
      coord.Untouched (coord.withRequest pool' rid state) ∧
      Shaped coord.config ((coord.withRequest pool' rid state).stateOf rid)) ∨
    ∃ pool' fresh, coord.allocate rid numTokens (coord.matchNow matched) = .ok (true,
        coord.withRequest pool' rid
          (some (coord.grantedState rid numTokens (coord.adoptedNow matched) fresh))) ∧
      (coord.adoptedNow matched ≠ [] → ∀ blocks ∈ coord.blockIds rid, blocks = []) ∧
      Shaped coord.config (coord.adoptedState rid (coord.adoptedNow matched)) ∧
      fresh.length = totalNeeded (coord.lacking rid numTokens (coord.adoptedNow matched)) ∧
      BlockPool.Grew coord.pool pool' (((coord.adoptedState rid (coord.adoptedNow matched)).references :
        Multiset BlockId) + others) fresh := by
  have hshaped := h.shaped rid
  by_cases hraise : matched.isSome ∧ ∃ blocks ∈ coord.blockIds rid, blocks ≠ []
  · obtain ⟨hsome, blocks, hblocks, hne⟩ := hraise
    obtain ⟨lookup, rfl⟩ := Option.isSome_iff_exists.mp hsome
    exact .inl ⟨hsome, ⟨blocks, hblocks, hne⟩, _, allocate_error hholds hshaped hblocks hne⟩
  have hadopt : coord.adoptedNow matched ≠ [] → coord.Adoptable (coord.adoptedNow matched) ∧
      ∀ blocks ∈ coord.blockIds rid, blocks = [] := by
    intro hne
    refine ⟨adoptedNow_adoptable hholds hne, fun blocks hblocks => ?_⟩
    by_contra hfull
    cases matched with
    | none => exact hne rfl
    | some lookup => exact hraise ⟨rfl, blocks, hblocks, hfull⟩
  obtain ⟨pool₁, hpool₁, -⟩ := adopt_ok hholds hshaped.perGroup hadopt
  rcases Nat.lt_or_ge pool₁.numFreeBlocks
      (totalNeeded (coord.lacking rid numTokens (coord.adoptedNow matched))) with hshort | hroom
  · exact .inr (.inl (allocate_refused hholds hshaped rfl hadopt hpool₁ hshort))
  · obtain ⟨pool', fresh, hrun, hfresh, hgrew⟩ :=
      allocate_granted hholds hshaped rfl hadopt hpool₁ hroom
    exact .inr (.inr ⟨pool', fresh, hrun, fun hne => (hadopt hne).2,
      adoptedState_shaped hshaped fun hne => (hadopt hne).1,
      hfresh, hgrew⟩)

/-! ### Runs -/

/-- What a pool that grew holds, with the draw dealt out. -/
theorem granted_holds {pool' : BlockPool}
    (hshaped : Shaped coord.config (coord.adoptedState rid adopted))
    (hfresh : fresh.length = totalNeeded (coord.lacking rid numTokens adopted))
    (hgrew : BlockPool.Grew coord.pool pool'
      (((coord.adoptedState rid adopted).references : Multiset BlockId) + others) fresh) :
    pool'.Holds (((coord.grantedState rid numTokens adopted fresh).references : Multiset BlockId) +
      others) := by
  have hreal : ∀ b ∈ fresh, b ≠ nullBlockId := fun b hb =>
    (hgrew.holds.held_bound b (Multiset.mem_add.mpr (.inr (Multiset.mem_coe.mpr hb)))).1
  have hholds := hgrew.holds
  rwa [add_right_comm, Multiset.coe_add,
    ← Multiset.coe_eq_coe.mpr (grantedState_references hshaped hfresh hreal)] at hholds

theorem references_withRequest (pool : BlockPool) (state : GroupBlocks) :
    (coord.withRequest pool rid (some state)).references rid = state.references := by
  rw [references, stateOf_withRequest]

theorem blockIds_withRequest (pool : BlockPool) (state : GroupBlocks) :
    (coord.withRequest pool rid (some state)).blockIds rid = state.perGroup := by
  rw [blockIds, stateOf_withRequest]

/-- What one call of `cache_blocks` offers for indexing. -/
def due (coord : GroupCoordinator) (rid : RequestId) (blockHashes : List BlockHash)
    (numComputedTokens : Nat) : List (Nat × BlockId × BlockHash) :=
  dueGroups coord.config blockHashes numComputedTokens 0 coord.config.groups (coord.blockIds rid)
    (coord.stateOf rid).numCached

/-- What `cache_blocks` leaves: the lists and the references are the same, the cursors have moved
on, and the blocks carry the hashes they were offered. -/
structure Indexed (coord coord' : GroupCoordinator) (rid : RequestId) (blockHashes : List BlockHash)
    (numComputedTokens : Nat) (fresh : List (Nat × BlockId × BlockHash)) : Prop where
  frame : coord.Frame coord' rid
  lives : coord'.requests rid = none ↔ coord.requests rid = none
  lists : coord'.blockIds rid = coord.blockIds rid
  cursors : (coord'.stateOf rid).numCached = cursorsAfter coord.config blockHashes numComputedTokens
    coord.config.groups (coord.blockIds rid) (coord.stateOf rid).numCached
  geometry : coord'.pool.geometry = coord.pool.geometry
  hashes : ∀ b, coord'.pool.hashOf b =
    coord.pool.hashAfter ((coord.due rid blockHashes numComputedTokens).map Prod.snd) b
  fresh : (∀ b, coord.pool.hashOf b = none → (coord.references rid).count b ≤ 1) →
    fresh = (coord.due rid blockHashes numComputedTokens).filter fun t =>
      (coord.pool.hashOf t.2.1).isNone

/-- A request without blocks has nothing to index. -/
theorem due_none (h : coord.requests rid = none) (blockHashes : List BlockHash)
    (numComputedTokens : Nat) : coord.due rid blockHashes numComputedTokens = [] ∧
      cursorsAfter coord.config blockHashes numComputedTokens coord.config.groups (coord.blockIds rid)
        (coord.stateOf rid).numCached = (coord.stateOf rid).numCached := by
  have hstate : coord.stateOf rid = { perGroup := coord.config.groups.map fun _ => []
                                      numCached := coord.config.groups.map fun _ => 0 } := by
    rw [stateOf, h, Option.getD_none]
  rw [due, blockIds, hstate]
  dsimp only
  generalize coord.config.groups = groups
  suffices hall : ∀ index, dueGroups coord.config blockHashes numComputedTokens index groups
      (groups.map fun _ => []) (groups.map fun _ => 0) = [] ∧
      cursorsAfter coord.config blockHashes numComputedTokens groups (groups.map fun _ => [])
        (groups.map fun _ => 0) = groups.map fun _ => 0 from hall 0
  induction groups with
  | nil => exact fun _ => ⟨rfl, rfl⟩
  | cons spec groups ih =>
    intro index
    obtain ⟨hdue, hcursors⟩ := ih (index + 1)
    simp only [List.map_cons, dueGroups, cursorsAfter, hdue, hcursors, List.append_nil]
    refine ⟨by simp [dueBlocks], ?_⟩
    rw [cursorAfter, if_neg fun hlt => absurd hlt.2 (Nat.not_le.mpr hlt.1)]

/-- **`cache_blocks`** returns in every sound state. -/
theorem cacheBlocks_ok (h : coord.Sound) (rid : RequestId) (blockHashes : List BlockHash)
    (numComputedTokens : Nat) :
    ∃ fresh coord', coord.cacheBlocks rid blockHashes numComputedTokens = .ok (fresh, coord') ∧
      coord'.Sound ∧ coord.Indexed coord' rid blockHashes numComputedTokens fresh ∧
      ∀ b, (coord'.pool.blocks b).refCnt = (coord.pool.blocks b).refCnt := by
  unfold cacheBlocks
  cases hstate : coord.requests rid with
  | none =>
    obtain ⟨hdue, hcursors⟩ := due_none hstate blockHashes numComputedTokens
    refine ⟨[], coord, rfl, h, ⟨⟨rfl, fun _ _ => rfl⟩, Iff.rfl, rfl, hcursors.symm, rfl, fun b => ?_,
      fun _ => by rw [hdue]; rfl⟩, fun _ => rfl⟩
    rw [hdue]
    exact (BlockPool.hashAfter_nil _ b).symm
  | some state =>
    have hstateOf : coord.stateOf rid = state := by rw [stateOf, hstate, Option.getD_some]
    obtain ⟨others, hholds, -, hrebuild⟩ := h.split rid
    have hrefs : coord.references rid = state.references := by rw [references, hstateOf]
    have hlists : coord.blockIds rid = state.perGroup := by rw [blockIds, hstateOf]
    have hshaped := h.shaped rid
    rw [hstateOf] at hshaped
    have hheld : ∀ b ∈ state.perGroup.flatten, b ≠ nullBlockId →
        b ∈ (coord.references rid : Multiset BlockId) + others := fun b hb hreal =>
      Multiset.mem_add.mpr (.inl (hrefs ▸ mem_realBlocks.mpr ⟨hb, hreal⟩))
    obtain ⟨fresh, pool', hrun, hholds', hgeo, hhash, hfresh⟩ := @cacheGroups_ok coord.config
      blockHashes numComputedTokens _ 0 coord.config.groups state.perGroup state.numCached _ hholds
      (fun _ hspec => hspec) hheld
    have hdue : coord.due rid blockHashes numComputedTokens = dueGroups coord.config blockHashes
        numComputedTokens 0 coord.config.groups state.perGroup state.numCached := by
      rw [due, hlists, hstateOf]
    refine ⟨fresh, coord.withRequest pool' rid (some { state with
      numCached := cursorsAfter coord.config blockHashes numComputedTokens coord.config.groups
        state.perGroup state.numCached }), by simp only [hrun, ok_bind, pure_eq_ok]; rfl, ?_,
      ⟨withRequest_frame coord pool' rid _, ?_, ?_, ?_, hgeo, ?_, ?_⟩, fun b => ?_⟩
    · refine hrebuild _ (withRequest_frame coord pool' rid _) ?_ ?_
      · rw [references_withRequest]
        exact hrefs ▸ hholds'
      · rw [stateOf_withRequest]
        exact ⟨hshaped.perGroup, (cursorsAfter_length _ _ _).trans hshaped.numCached, hshaped.even⟩
    · simp [withRequest, hstate]
    · rw [blockIds_withRequest, hlists]
    · rw [stateOf_withRequest, hlists, hstateOf]
    · rw [hdue]
      exact hhash
    · rw [hdue, hrefs]
      exact hfresh
    · by_cases hb : b = nullBlockId
      · rw [hb, hholds.null_ref]
        exact hholds'.null_ref
      · rw [hholds.ref b hb]
        exact hholds'.ref b hb

/-- What `remove_skipped_blocks` leaves: the lists with their dead blocks nulled, and each of these
given back. -/
structure Skipped (coord coord' : GroupCoordinator) (rid : RequestId) (numComputedTokens : Nat) :
    Prop where
  frame : coord.Frame coord' rid
  lives : coord'.requests rid = none ↔ coord.requests rid = none
  lists : coord'.blockIds rid =
    skippedGroups numComputedTokens coord.config.groups (coord.blockIds rid)
  cursors : (coord'.stateOf rid).numCached = (coord.stateOf rid).numCached
  hashes : ∀ b, coord'.pool.hashOf b = coord.pool.hashOf b
  refCnt : ∀ b ≠ nullBlockId, (coord'.pool.blocks b).refCnt + (coord.references rid).count b =
    (coord.pool.blocks b).refCnt + (coord'.references rid).count b

/-- **`remove_skipped_blocks`** returns in every sound state. -/
theorem removeSkippedBlocks_ok (h : coord.Sound) (rid : RequestId) (numComputedTokens : Nat) :
    ∃ coord', coord.removeSkippedBlocks rid numComputedTokens = .ok coord' ∧ coord'.Sound ∧
      coord.Skipped coord' rid numComputedTokens := by
  unfold removeSkippedBlocks
  cases hstate : coord.requests rid with
  | none =>
    refine ⟨coord, rfl, h, ⟨⟨rfl, fun _ _ => rfl⟩, Iff.rfl, ?_, rfl, fun _ => rfl, fun _ _ => rfl⟩⟩
    have hstateOf : coord.blockIds rid = coord.config.groups.map fun _ => [] := by
      rw [blockIds, stateOf, hstate, Option.getD_none]
    rw [hstateOf]
    generalize coord.config.groups = groups
    induction groups with
    | nil => rfl
    | cons spec groups ih =>
      rw [List.map_cons, skippedGroups, ← ih]
      congr 1
      simp [skipped]
  | some state =>
    have hstateOf : coord.stateOf rid = state := by rw [stateOf, hstate, Option.getD_some]
    obtain ⟨others, hholds, -, hrebuild⟩ := h.split rid
    have hrefs : coord.references rid = state.references := by rw [references, hstateOf]
    have hlists : coord.blockIds rid = state.perGroup := by rw [blockIds, hstateOf]
    have hshaped := h.shaped rid
    rw [hstateOf] at hshaped
    rw [hrefs] at hholds
    obtain ⟨pool', hrun, hholds', -, hhash⟩ := @skipGroups_ok numComputedTokens coord.config.groups
      state.perGroup _ _ hholds
    refine ⟨coord.withRequest pool' rid (some { state with
      perGroup := skippedGroups numComputedTokens coord.config.groups state.perGroup }),
      by simp only [hrun, ok_bind, pure_eq_ok]; rfl, ?_,
      ⟨withRequest_frame coord pool' rid _, ?_, ?_, ?_, hhash, fun b hb => ?_⟩⟩
    · refine hrebuild _ (withRequest_frame coord pool' rid _) ?_ ?_
      · rw [references_withRequest]
        exact hholds'
      · rw [stateOf_withRequest]
        exact ⟨(skippedGroups_length _ _ _).trans hshaped.perGroup, hshaped.numCached,
          skippedGroups_even numComputedTokens hshaped.perGroup hshaped.even⟩
    · simp [withRequest, hstate]
    · rw [blockIds_withRequest, hlists]
    · rw [stateOf_withRequest, hstateOf]
    · have hafter : (pool'.blocks b).refCnt = _ := hholds'.ref b hb
      rw [references_withRequest, hrefs, hholds.ref b hb, Multiset.count_add, Multiset.coe_count]
      show (pool'.blocks b).refCnt + _ = _
      rw [hafter, Multiset.count_add, Multiset.coe_count]
      simp only [GroupBlocks.references]
      omega

/-- **`free`** returns in every sound state, and gives back all references of the request. -/
theorem free_ok (h : coord.Sound) (rid : RequestId) :
    ∃ coord', coord.free rid = .ok coord' ∧ coord'.Sound ∧ coord.Frame coord' rid ∧
      coord'.requests rid = none ∧ (∀ b, coord'.pool.hashOf b = coord.pool.hashOf b) ∧
      ∀ b, (coord'.pool.blocks b).refCnt ≤ (coord.pool.blocks b).refCnt := by
  unfold free
  cases hstate : coord.requests rid with
  | none =>
    exact ⟨coord, rfl, h, ⟨rfl, fun _ _ => rfl⟩, hstate, fun _ => rfl, fun _ => Nat.le_refl _⟩
  | some state =>
    have hstateOf : coord.stateOf rid = state := by rw [stateOf, hstate, Option.getD_some]
    obtain ⟨others, hholds, -, hrebuild⟩ := h.split rid
    rw [references, hstateOf] at hholds
    obtain ⟨pool', hrun, hholds', -, -, hhash⟩ := freeGroups_ok hholds
    have hgone : (coord.withRequest pool' rid none).stateOf rid =
        { perGroup := coord.config.groups.map fun _ => []
          numCached := coord.config.groups.map fun _ => 0 } := by
      simp [stateOf, withRequest]
    refine ⟨coord.withRequest pool' rid none, by simp only [hrun, ok_bind, pure_eq_ok]; rfl, ?_,
      withRequest_frame coord pool' rid none, by simp [withRequest], hhash, fun b => ?_⟩
    · refine hrebuild _ (withRequest_frame coord pool' rid none) ?_ ?_
      · rw [references_none (by simp [withRequest]), Multiset.coe_nil, zero_add]
        exact hholds'
      · rw [hgone]
        exact {
          perGroup := List.length_map ..
          numCached := List.length_map ..
          even := .inl fun blocks hblocks => by
            obtain ⟨_, -, rfl⟩ := List.mem_map.mp hblocks
            rfl }
    · show (pool'.blocks b).refCnt ≤ _
      by_cases hb : b = nullBlockId
      · rw [hb, hholds'.null_ref, hholds.null_ref]
      · rw [hholds'.ref b hb, hholds.ref b hb, Multiset.count_add]
        exact Nat.le_add_left _ _

theorem resetPrefixCache_holds {pool : BlockPool} {held : Multiset BlockId} (h : pool.Holds held) :
    pool.resetPrefixCache.2.Holds held := by
  unfold BlockPool.resetPrefixCache
  split
  · exact h
  · exact ⟨h.two_le, h.null_ref, rfl, h.ref, h.held_bound, h.queue_nodup, h.queue_iff, by simp,
      by simp, by simp, fun _ _ => rfl⟩

/-- **Every call keeps the accounts.** -/
theorem step_sound {call : Call} (h : coord.Sound) (hstep : coord.step call = .ok coord') :
    coord'.Sound := by
  cases call with
  | allocate rid numTokens matched =>
    obtain ⟨⟨done, after⟩, hrun, heq⟩ := bind_eq_ok.mp hstep
    cases heq
    obtain ⟨others, hholds, -, hrebuild⟩ := h.split rid
    rcases allocate_cases h hholds numTokens matched with
      ⟨-, -, message, herror⟩ | ⟨pool', state, hok, -, hholds', huntouched, hshaped⟩ |
        ⟨pool', fresh, hok, -, hshaped, hfresh, hgrew⟩
    · cases herror.symm.trans hrun
    · cases hok.symm.trans hrun
      refine hrebuild _ (withRequest_frame coord pool' rid state) ?_ hshaped
      rw [references_congr (huntouched.lists rid)]
      exact hholds'
    · cases hok.symm.trans hrun
      refine hrebuild _ (withRequest_frame coord pool' rid _) ?_ ?_
      · rw [references_withRequest]
        exact granted_holds hshaped hfresh hgrew
      · rw [stateOf_withRequest]
        exact grantedState_shaped hshaped hfresh
  | cacheBlocks rid blockHashes numComputedTokens =>
    obtain ⟨⟨fresh, after⟩, hrun, heq⟩ := bind_eq_ok.mp hstep
    cases heq
    obtain ⟨fresh', after', hok, hsound, -⟩ := cacheBlocks_ok h rid blockHashes numComputedTokens
    cases hok.symm.trans hrun
    exact hsound
  | removeSkippedBlocks rid numComputedTokens =>
    obtain ⟨after, hok, hsound, -⟩ := removeSkippedBlocks_ok h rid numComputedTokens
    cases hok.symm.trans hstep
    exact hsound
  | free rid =>
    obtain ⟨after, hok, hsound, -⟩ := free_ok h rid
    cases hok.symm.trans hstep
    exact hsound
  | resetPrefixCache =>
    cases hstep
    obtain ⟨ids, hnodup, hnone, hholds⟩ := h.holds
    exact { holds := ⟨ids, hnodup, hnone, resetPrefixCache_holds hholds⟩, shaped := h.shaped }

/-- A call that returned. -/
def Step (coord : GroupCoordinator) (call : Call) (coord' : GroupCoordinator) : Prop :=
  coord.step call = .ok coord'

theorem run_sound {numBlocks blockSize : Nat} {caching : Bool} {pool : BlockPool}
    (hcreate : BlockPool.create numBlocks blockSize caching = .ok pool) {config : KVCacheConfig}
    {calls : List Call} (hrun : Run Step (create config pool) calls coord) : coord.Sound :=
  hrun.invariant (fun _ _ _ h hstep => step_sound h hstep)
    (create_sound (BlockPool.create_holds hcreate).1)

/-- The lists an allocation extends: those of the hit where one is adopted, else the request's
own. -/
def baseLists (coord : GroupCoordinator) (rid : RequestId)
    (matched : Option (List BlockHash × Nat)) : List (List BlockId) :=
  (coord.matchNow matched).getD (coord.blockIds rid)

/-- What a call that succeeded leaves: the request's lists are `base` with a share of fresh blocks
each, long enough for the tokens; a fresh block is neither null nor handed out twice nor
anybody's. -/
structure Covered (coord coord' : GroupCoordinator) (rid : RequestId) (numTokens : Nat)
    (base : List (List BlockId)) : Prop where
  extends_base : ∃ drawn : List (List BlockId), drawn.length = base.length ∧
    coord'.blockIds rid = base.zipWith (fun own share => own ++ share) drawn ∧ drawn.flatten.Nodup ∧
    ∀ b ∈ drawn.flatten, b ≠ nullBlockId ∧ b ∉ base.flatten ∧
      ∀ rid', ∀ blocks ∈ coord.blockIds rid', b ∉ blocks
  length : (coord'.blockIds rid).length = coord.config.groups.length
  enough : ∀ (i : Nat) (group : GroupSpec) (blocks : List BlockId), coord.config.groups[i]? = some group →
    (coord'.blockIds rid)[i]? = some blocks → group.numBlocksFor numTokens ≤ blocks.length
  others : ∀ rid' ≠ rid, coord'.blockIds rid' = coord.blockIds rid'

/-- **`allocate` is all or nothing.** In every reachable state it raises, with nothing touched, if
it is given a match for a request that holds blocks; else it returns, and leaves `Untouched` behind
when it returns `false`, `Covered` when it returns `true`. -/
theorem run_allocate {numBlocks blockSize : Nat} {caching : Bool} {pool : BlockPool}
    (hcreate : BlockPool.create numBlocks blockSize caching = .ok pool) {config : KVCacheConfig}
    {calls : List Call} (hrun : Run Step (create config pool) calls coord) (rid : RequestId)
    (numTokens : Nat) (matched : Option (List BlockHash × Nat)) :
    (matched.isSome ∧ (∃ blocks ∈ coord.blockIds rid, blocks ≠ []) ∧
      ∃ message, coord.allocate rid numTokens (coord.matchNow matched) =
        .error (.valueError message)) ∨
    ∃ done coord', coord.allocate rid numTokens (coord.matchNow matched) = .ok (done, coord') ∧
      (done = false → coord.Untouched coord') ∧
      (done = true → coord.Covered coord' rid numTokens (coord.baseLists rid matched)) := by
  have hsound := run_sound hcreate hrun
  obtain ⟨others, hholds, hothers, -⟩ := hsound.split rid
  rcases allocate_cases hsound hholds numTokens matched with
    herror | ⟨pool', state, hok, -, -, huntouched, -⟩ | ⟨pool', fresh, hok, hempty, hshaped, hfresh, hgrew⟩
  · exact .inl herror
  · exact .inr ⟨false, _, hok, fun _ => huntouched, fun h => Bool.noConfusion h⟩
  refine .inr ⟨true, _, hok, fun h => Bool.noConfusion h, fun _ => ?_⟩
  have hbase : coord.baseLists rid matched =
      (coord.adoptedState rid (coord.adoptedNow matched)).perGroup := by
    cases matched with
    | none => exact (congrArg GroupBlocks.perGroup (if_pos rfl)).symm
    | some lookup =>
        have hne : coord.adoptedNow (some lookup) ≠ [] := hit_ne_nil hholds lookup.1 lookup.2
        rw [adoptedState, if_neg hne]
        rfl
  have hneeded := @lacking_length coord rid numTokens _ hshaped
  have hlists : (coord.withRequest pool' rid (some (coord.grantedState rid numTokens
      (coord.adoptedNow matched) fresh))).blockIds rid =
      (coord.grantedState rid numTokens (coord.adoptedNow matched) fresh).perGroup := by
    rw [blockIds, stateOf_withRequest]
  refine { extends_base := ⟨shares (coord.lacking rid numTokens (coord.adoptedNow matched)) fresh,
             ?_, ?_, ?_, fun b hb => ?_⟩
           length := ?_, enough := fun i group blocks hgroup hblocks => ?_, others := fun rid' hne => ?_ }
  · rw [shares_length, hneeded, hbase]
  · rw [hlists, hbase]
    exact dealBlocks_eq fresh hneeded
  · rw [shares_flatten hfresh]
    exact hgrew.nodup
  · rw [shares_flatten hfresh] at hb
    have hreal : b ≠ nullBlockId :=
      (hgrew.holds.held_bound b (Multiset.mem_add.mpr (.inr (Multiset.mem_coe.mpr hb)))).1
    have hzero := hgrew.unheld b hb
    rw [Multiset.count_add, Nat.add_eq_zero_iff, Multiset.count_eq_zero, Multiset.count_eq_zero,
      Multiset.mem_coe] at hzero
    refine ⟨hreal, fun hmem => hzero.1 ?_, fun rid' blocks hblocks hmem => ?_⟩
    · rw [hbase] at hmem
      exact mem_realBlocks.mpr ⟨hmem, hreal⟩
    · have href : b ∈ coord.references rid' := mem_references.mpr ⟨hreal, blocks, hblocks, hmem⟩
      by_cases hrid : rid' = rid
      · rw [hrid] at hblocks
        by_cases hnil : coord.adoptedNow matched = []
        · refine hzero.1 ?_
          rw [adoptedState, if_pos hnil]
          exact hrid ▸ href
        · rw [hempty hnil blocks hblocks] at hmem
          cases hmem
      · exact hzero.2 (hothers rid' hrid b href)
  · rw [hlists]
    exact (grantedState_shaped hshaped hfresh).perGroup
  · have hlt : i < coord.config.groups.length := (List.getElem?_eq_some_iff.mp hgroup).1
    have hown := List.getElem?_eq_getElem (hshaped.perGroup.symm ▸ hlt)
    obtain ⟨share, hshare, -, hlen⟩ := grantedState_getElem? hshaped hfresh hgroup hown
    rw [hlists, hshare] at hblocks
    rw [← Option.some.inj hblocks, List.length_append, hlen]
    omega
  · unfold blockIds
    rw [(withRequest_frame coord pool' rid _).stateOf hne]

/-- A request is given blocks and indexes them; another is admitted with the hit. -/
def sharingCalls : List Call :=
  [.allocate "a" 32 none, .cacheBlocks "a" [11, 12] 32, .free "a",
    .allocate "b" 40 (some ([11, 12], 39))]

/-- A third request, with the same hit. -/
theorem run_allocate_sharing : ∃ pool coord, BlockPool.create 8 16 true = .ok pool ∧
    Run Step (create KVCacheConfig.denseAndWindowed pool) sharingCalls coord ∧
    (((some ([11, 12], 31)).isSome ∧ (∃ blocks ∈ coord.blockIds "c", blocks ≠ []) ∧
      ∃ message, coord.allocate "c" 64 (coord.matchNow (some ([11, 12], 31))) =
        .error (.valueError message)) ∨
    ∃ done coord', coord.allocate "c" 64 (coord.matchNow (some ([11, 12], 31))) = .ok (done, coord') ∧
      (done = false → coord.Untouched coord') ∧
      (done = true → coord.Covered coord' "c" 64 (coord.baseLists "c" (some ([11, 12], 31))))) := by
  have hok : (BlockPool.create 8 16 true >>= fun pool =>
      sharingCalls.foldlM step (create KVCacheConfig.denseAndWindowed pool)).isOk = true := by
    decide +kernel
  obtain ⟨coord, hcoord⟩ := ok_of_isOk hok
  obtain ⟨pool, hcreate, hfold⟩ := bind_eq_ok.mp hcoord
  have hrun : Run Step (create KVCacheConfig.denseAndWindowed pool) sharingCalls coord :=
    .of_foldlM hfold
  exact ⟨pool, coord, hcreate, hrun, run_allocate hcreate hrun "c" 64 (some ([11, 12], 31))⟩

end GroupCoordinator

end RapidLlm
