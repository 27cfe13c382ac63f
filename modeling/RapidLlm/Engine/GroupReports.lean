import RapidLlm.Engine.GroupAllocation

/-!
# RapidLlm.Engine.GroupReports

What `cache_blocks` reports and what `remove_skipped_blocks` gives back, over the life of a request.

* `Entered` are the blocks that entered the index, `Exact` says that a report is those, `Clean` when
  it is: caching is on, and no slot between a cursor and the last whole block holds the null block.
* `Released` is what `remove_skipped_blocks` owes: only entries that no later query reads are given
  up.
* `Tidy` is the invariant of the coordinator: a block without a hash is held once, and no list holds
  a block twice. `Tracked` adds the records of a request's life.
* `run_reports` puts them together; `windowed_reports_null` is a report of blocks that did not enter
  the index.
-/

namespace RapidLlm

/-! ### Positions -/

/-- An entry counted once stands at one position. -/
theorem getElem?_unique {α : Type} [DecidableEq α] {a : α} : ∀ {xs : List α} {i j : Nat},
    xs.count a ≤ 1 → xs[i]? = some a → xs[j]? = some a → i = j
  | [], _, _, _, hi, _ => by simp at hi
  | x :: xs, 0, 0, _, _, _ => rfl
  | x :: xs, 0, j + 1, h, hi, hj => by
      have hx : x = a := by simpa using hi
      have hpos : 0 < xs.count a := List.count_pos_iff.mpr (List.mem_of_getElem? hj)
      rw [hx, List.count_cons_self] at h
      omega
  | x :: xs, i + 1, 0, h, hi, hj => by
      have hx : x = a := by simpa using hj
      have hpos : 0 < xs.count a := List.count_pos_iff.mpr (List.mem_of_getElem? hi)
      rw [hx, List.count_cons_self] at h
      omega
  | x :: xs, i + 1, j + 1, h, hi, hj =>
    congrArg _ (getElem?_unique (Nat.le_trans List.count_le_count_cons h) hi hj)

theorem count_realBlocks {b : BlockId} (hb : b ≠ nullBlockId) (blocks : List BlockId) :
    (realBlocks blocks).count b = blocks.count b := List.count_filter (by simpa using hb)

/-- A block that a request holds once stands in one list, at one position. -/
theorem unique_position {b : BlockId} : ∀ {perGroup : List (List BlockId)} {i i' j j' : Nat}
    {blocks blocks' : List BlockId}, perGroup.flatten.count b ≤ 1 → perGroup[i]? = some blocks →
    perGroup[i']? = some blocks' → blocks[j]? = some b → blocks'[j']? = some b → i = i' ∧ j = j'
  | [], _, _, _, _, _, _, _, hi, _, _, _ => by simp at hi
  | own :: perGroup, i, i', j, j', blocks, blocks', h, hi, hi', hj, hj' => by
      have hsum : own.count b + perGroup.flatten.count b ≤ 1 := by
        rwa [List.flatten_cons, List.count_append] at h
      have hown : ∀ {k : Nat}, own[k]? = some b → 0 < own.count b := fun hk =>
        List.count_pos_iff.mpr (List.mem_of_getElem? hk)
      have hrest : ∀ {i k : Nat} {blocks : List BlockId}, perGroup[i]? = some blocks →
          blocks[k]? = some b → 0 < perGroup.flatten.count b := fun hi hk =>
        List.count_pos_iff.mpr (List.mem_flatten.mpr
          ⟨_, List.mem_of_getElem? hi, List.mem_of_getElem? hk⟩)
      cases i with
      | zero =>
        cases hi
        have := hown hj
        cases i' with
        | zero =>
          cases hi'
          exact ⟨rfl, getElem?_unique (by omega) hj hj'⟩
        | succ i' =>
          have := hrest hi' hj'
          omega
      | succ i =>
        have := hrest hi hj
        cases i' with
        | zero =>
          cases hi'
          have := hown hj'
          omega
        | succ i' =>
          rw [List.getElem?_cons_succ] at hi hi'
          obtain ⟨hii, hjj⟩ := unique_position (by omega) hi hi' hj hj'
          exact ⟨congrArg Nat.succ hii, hjj⟩

/-- The entries due in a group are those from the cursor up to the last whole block. -/
theorem mem_dueBlocks_iff {spec : GroupSpec} {hashes : List BlockHash} {numComputedTokens : Nat}
    {blocks : List BlockId} {start : Nat} {entry : BlockId × BlockHash} :
    entry ∈ dueBlocks spec hashes numComputedTokens blocks start ↔
      wholeBlocks spec hashes numComputedTokens ≤ blocks.length ∧
        ∃ j, start ≤ j ∧ j < wholeBlocks spec hashes numComputedTokens ∧
          blocks[j]? = some entry.1 ∧ hashes[j]? = some entry.2 := by
  unfold dueBlocks
  dsimp only
  split
  · rename_i hle
    rw [List.mem_iff_getElem?]
    constructor
    · rintro ⟨i, hi⟩
      rw [List.getElem?_zip_eq_some] at hi
      obtain ⟨hblock, hhash⟩ := hi
      rw [List.getElem?_drop, List.getElem?_take] at hblock hhash
      split at hblock
      · rename_i hlt
        rw [if_pos hlt] at hhash
        exact ⟨hle, start + i, Nat.le_add_right _ _, hlt, hblock, hhash⟩
      · cases hblock
    · rintro ⟨-, j, hstart, hlt, hblock, hhash⟩
      refine ⟨j - start, List.getElem?_zip_eq_some.mpr ?_⟩
      rw [List.getElem?_drop, List.getElem?_drop, Nat.add_sub_cancel' hstart,
        List.getElem?_take_of_lt hlt, List.getElem?_take_of_lt hlt]
      exact ⟨hblock, hhash⟩
  · rename_i hle
    exact ⟨fun h => absurd h List.not_mem_nil, fun h => absurd h.1 hle⟩

namespace KVCacheConfig

variable {config : KVCacheConfig} {spec : GroupSpec}

/-- The hashes of a group are those at the ends of its blocks. -/
theorem hashesOf_getElem? (hspec : spec ∈ config.groups) (blockHashes : List BlockHash) (j : Nat) :
    (config.hashesOf spec blockHashes)[j]? =
      blockHashes[spec.blockSize / config.hashBlockSize - 1 +
        j * (spec.blockSize / config.hashBlockSize)]? := by
  have hratio : 1 ≤ spec.blockSize / config.hashBlockSize :=
    Nat.div_pos (Nat.le_of_dvd spec.one_le_blockSize (config.divides spec hspec))
      (Nat.pos_of_dvd_of_pos (config.divides spec hspec) spec.one_le_blockSize)
  unfold hashesOf
  dsimp only
  split
  · rename_i hone
    rw [hone]
    congr 1
    omega
  · exact everyNth_getElem? hratio _ _ _

/-- A chain that grows keeps the hashes it has. -/
theorem hashesOf_grow (hspec : spec ∈ config.groups) {chain blockHashes : List BlockHash}
    (hgrow : chain <+: blockHashes) {j : Nat} {hash : BlockHash}
    (h : (config.hashesOf spec chain)[j]? = some hash) :
    (config.hashesOf spec blockHashes)[j]? = some hash := by
  rw [hashesOf_getElem? hspec] at h ⊢
  obtain ⟨more, rfl⟩ := hgrow
  rwa [List.getElem?_append_left (List.getElem?_eq_some_iff.mp h).1]

/-- Different positions have different hashes. -/
theorem hashesOf_unique (hspec : spec ∈ config.groups) {blockHashes : List BlockHash}
    (hnodup : blockHashes.Nodup) {i j : Nat} {hash : BlockHash}
    (hi : (config.hashesOf spec blockHashes)[i]? = some hash)
    (hj : (config.hashesOf spec blockHashes)[j]? = some hash) : i = j := by
  have hratio : 1 ≤ spec.blockSize / config.hashBlockSize :=
    Nat.div_pos (Nat.le_of_dvd spec.one_le_blockSize (config.divides spec hspec))
      (Nat.pos_of_dvd_of_pos (config.divides spec hspec) spec.one_le_blockSize)
  rw [hashesOf_getElem? hspec] at hi hj
  have hsame := getElem?_unique (List.nodup_iff_count_le_one.mp hnodup hash) hi hj
  exact Nat.eq_of_mul_eq_mul_right hratio (Nat.add_left_cancel hsame)

end KVCacheConfig

/-- A list whose real entries are different. -/
theorem realBlocks_nodup {blocks : List BlockId} (h : ∀ (i j : Nat) (b : BlockId), blocks[i]? = some b →
    blocks[j]? = some b → b ≠ nullBlockId → i = j) : (realBlocks blocks).Nodup := by
  rw [realBlocks, List.Nodup, List.pairwise_filter, List.pairwise_iff_getElem]
  intro i j hi hj hlt hreal _ heq
  have := h i j blocks[i] (List.getElem?_eq_getElem hi) (heq ▸ List.getElem?_eq_getElem hj)
    (by simpa using hreal)
  omega

namespace GroupCoordinator

variable {coord coord' : GroupCoordinator} {rid : RequestId} {blockHashes : List BlockHash}
  {numComputedTokens : Nat} {fresh : List (Nat × BlockId × BlockHash)}

/-! ### What the calls owe -/

/-- A block of the request that entered the pool's index under this hash. -/
def Entered (coord coord' : GroupCoordinator) (rid : RequestId) (t : Nat × BlockId × BlockHash) : Prop :=
  t.2.1 ≠ nullBlockId ∧ (∃ blocks, (coord.blockIds rid)[t.1]? = some blocks ∧ t.2.1 ∈ blocks) ∧
    t.2.1 ∉ coord.pool.cachedBlockHashToBlock t.2.2 ∧ t.2.1 ∈ coord'.pool.cachedBlockHashToBlock t.2.2

/-- A report of exactly the blocks that entered the index. -/
def Exact (coord coord' : GroupCoordinator) (rid : RequestId)
    (fresh : List (Nat × BlockId × BlockHash)) : Prop := ∀ t, t ∈ fresh ↔ coord.Entered coord' rid t

/-- Every slot from a cursor up to the last whole block, in a list that reaches this far, holds a
block that a pool with caching on can index. -/
def Clean (coord : GroupCoordinator) (rid : RequestId) (blockHashes : List BlockHash)
    (numComputedTokens : Nat) : Prop :=
  ∀ (i : Nat) (spec : GroupSpec) (blocks : List BlockId) (start j : Nat),
    coord.config.groups[i]? = some spec → (coord.blockIds rid)[i]? = some blocks →
    (coord.stateOf rid).numCached[i]? = some start →
    wholeBlocks spec (coord.config.hashesOf spec blockHashes) numComputedTokens ≤ blocks.length →
    start ≤ j → j < wholeBlocks spec (coord.config.hashesOf spec blockHashes) numComputedTokens →
    coord.pool.enableCaching = true ∧ blocks[j]? ≠ some nullBlockId

/-- What giving back dead blocks leaves: an entry is kept, or it is null and no query from
`numComputedTokens` on reads a position of it; a list has no block twice, and the references dropped
are those of the entries nulled. -/
structure Released (coord coord' : GroupCoordinator) (rid : RequestId) (numComputedTokens : Nat) :
    Prop where
  others : ∀ rid' ≠ rid, coord'.blockIds rid' = coord.blockIds rid'
  distinct : ∀ blocks ∈ coord.blockIds rid, (realBlocks blocks).Nodup
  kept : ∀ (i : Nat) (spec : GroupSpec) (blocks : List BlockId), coord.config.groups[i]? = some spec →
    (coord.blockIds rid)[i]? = some blocks → ∃ blocks', (coord'.blockIds rid)[i]? = some blocks' ∧
      blocks'.length = blocks.length ∧ ∀ (j : Nat) (b : BlockId), blocks[j]? = some b →
        blocks'[j]? = some b ∨ blocks'[j]? = some nullBlockId ∧
          ∀ length ≥ numComputedTokens, ∀ position, position / spec.blockSize = j →
            ¬ spec.Reads length position
  refCnt : ∀ b ≠ nullBlockId, (coord'.pool.blocks b).refCnt + (coord.blockIds rid).flatten.count b =
    (coord.pool.blocks b).refCnt + (coord'.blockIds rid).flatten.count b

/-! ### The invariant of the coordinator -/

/-- A block without a hash is held once, a list holds no block twice, and no cursor is past its
list. -/
structure Tidy (coord : GroupCoordinator) : Prop where
  sound : coord.Sound
  single : ∀ b ≠ nullBlockId, coord.pool.hashOf b = none → (coord.pool.blocks b).refCnt ≤ 1
  distinct : ∀ rid, ∀ blocks ∈ coord.blockIds rid, (realBlocks blocks).Nodup
  bounded : ∀ (rid : RequestId) (i : Nat) (blocks : List BlockId) (start : Nat),
    (coord.blockIds rid)[i]? = some blocks → (coord.stateOf rid).numCached[i]? = some start →
    start ≤ blocks.length

/-- A call that moves one request owes the invariant for this one. -/
theorem Tidy.of_frame (h : coord.Tidy) (hframe : coord.Frame coord' rid) (hsound : coord'.Sound)
    (hsingle : ∀ b ≠ nullBlockId, coord'.pool.hashOf b = none → (coord'.pool.blocks b).refCnt ≤ 1)
    (hdistinct : ∀ blocks ∈ coord'.blockIds rid, (realBlocks blocks).Nodup)
    (hbounded : ∀ (i : Nat) (blocks : List BlockId) (start : Nat),
      (coord'.blockIds rid)[i]? = some blocks → (coord'.stateOf rid).numCached[i]? = some start →
      start ≤ blocks.length) : coord'.Tidy where
  sound := hsound
  single := hsingle
  distinct rid' := by
    by_cases hrid : rid' = rid
    · exact hrid ▸ hdistinct
    · rw [blockIds, hframe.stateOf hrid]
      exact h.distinct rid'
  bounded rid' := by
    by_cases hrid : rid' = rid
    · exact hrid ▸ hbounded
    · rw [blockIds, hframe.stateOf hrid]
      exact h.bounded rid'

theorem stateOf_none (h : coord.requests rid = none) :
    coord.stateOf rid = { perGroup := coord.config.groups.map fun _ => []
                          numCached := coord.config.groups.map fun _ => 0 } := by
  rw [stateOf, h, Option.getD_none]

/-- A request that is gone has empty lists. -/
theorem blockIds_of_none (h : coord.requests rid = none) {blocks : List BlockId}
    (hblocks : blocks ∈ coord.blockIds rid) : blocks = [] := by
  rw [blockIds, stateOf_none h] at hblocks
  obtain ⟨_, -, rfl⟩ := List.mem_map.mp hblocks
  rfl

theorem bounded_of_none (h : coord.requests rid = none) (i : Nat) (blocks : List BlockId) (start : Nat)
    (hstart : (coord.stateOf rid).numCached[i]? = some start) : start ≤ blocks.length := by
  rw [stateOf_none h, List.getElem?_map] at hstart
  obtain ⟨_, -, rfl⟩ := Option.map_eq_some_iff.mp hstart
  exact Nat.zero_le _

/-- A request holds a block without a hash once. -/
theorem Tidy.count_le_one (h : coord.Tidy) (rid : RequestId) {b : BlockId} (hb : b ≠ nullBlockId)
    (hnone : coord.pool.hashOf b = none) : (coord.blockIds rid).flatten.count b ≤ 1 := by
  obtain ⟨others, hholds, -, -⟩ := h.sound.split rid
  have hle := h.single b hb hnone
  rw [hholds.ref b hb, Multiset.count_add, Multiset.coe_count, references, GroupBlocks.references,
    count_realBlocks hb] at hle
  exact Nat.le_trans (Nat.le_add_right _ _) hle

/-- The blocks of a hit on a chain without repeats are different. -/
theorem hit_distinct {held : Multiset BlockId} (h : coord.pool.Holds held)
    (hnodup : blockHashes.Nodup) (maxLength : Nat) :
    ∀ blocks ∈ coord.hit blockHashes maxLength, (realBlocks blocks).Nodup := by
  have hnull : coord.pool.NullUnindexed := fun hash hmem => h.indexed_ne_null hmem rfl
  intro blocks hblocks
  rw [hit, KVCacheConfig.findLongestCacheHit_eq rfl] at hblocks
  split at hblocks
  · obtain ⟨_, -, rfl⟩ := List.mem_map.mp hblocks
    exact List.nodup_nil
  · obtain ⟨group, hgroup, rfl⟩ := List.mem_map.mp hblocks
    have hentry : ∀ {j : Nat} {b : BlockId} {n : Nat},
        ((coord.config.hitOf coord.pool blockHashes maxLength group).take n)[j]? = some b →
        b ≠ nullBlockId → ∃ hash, (coord.config.hashesOf group blockHashes)[j]? = some hash ∧
          coord.pool.hashOf b = some hash := by
      intro j b n hj hb
      rw [List.getElem?_take] at hj
      split at hj
      · rcases KVCacheConfig.hitOf_entry hnull hj with ⟨⟨hash, -, hget, hmem⟩, -⟩ | ⟨heq, -⟩
        · exact ⟨hash, hget, (h.index_iff hash b).mp hmem⟩
        · exact absurd heq hb
      · cases hj
    refine realBlocks_nodup fun i j b hi hj hb => ?_
    obtain ⟨hash, hget, hhash⟩ := hentry hi hb
    obtain ⟨hash', hget', hhash'⟩ := hentry hj hb
    cases hhash.symm.trans hhash'
    exact KVCacheConfig.hashesOf_unique hgroup hnodup hget hget'

/-- What `allocate` does to a request that goes on: it had no block, or its lists grow at their
ends. -/
def Grown (coord coord' : GroupCoordinator) (rid : RequestId) : Prop :=
  (∀ blocks ∈ coord.blockIds rid, blocks = []) ∨
    (coord'.stateOf rid).numCached = (coord.stateOf rid).numCached ∧
      ∀ (i : Nat) (blocks : List BlockId), (coord.blockIds rid)[i]? = some blocks →
        ∃ more, (coord'.blockIds rid)[i]? = some (blocks ++ more)

/-- The lists a draw is added to: different blocks, each with a hash if it comes from a hit. -/
theorem adoptedState_tidy (h : coord.Tidy) {matched : Option (List BlockHash × Nat)}
    (hmatched : ∀ lookup, matched = some lookup → lookup.1.Nodup) :
    (∀ blocks ∈ (coord.adoptedState rid (coord.adoptedNow matched)).perGroup,
      (realBlocks blocks).Nodup) ∧
    ∀ (i : Nat) (blocks : List BlockId) (start : Nat),
      (coord.adoptedState rid (coord.adoptedNow matched)).perGroup[i]? = some blocks →
      (coord.adoptedState rid (coord.adoptedNow matched)).numCached[i]? = some start →
      start ≤ blocks.length := by
  unfold adoptedState
  split
  · exact ⟨h.distinct rid, h.bounded rid⟩
  · rename_i hne
    cases hlookup : matched with
    | none =>
      rw [hlookup] at hne
      exact absurd rfl hne
    | some lookup =>
      obtain ⟨_, hholds, -⟩ := h.sound.split rid
      refine ⟨hit_distinct hholds (hmatched lookup hlookup) lookup.2, fun i blocks start hi hs => ?_⟩
      rw [List.getElem?_map, hi, Option.map_some] at hs
      cases hs
      exact Nat.le_refl _

/-- **`allocate`** keeps the invariant, and only adds blocks. -/
theorem allocate_tidy (h : coord.Tidy) {numTokens : Nat} {matched : Option (List BlockHash × Nat)}
    (hmatched : ∀ lookup, matched = some lookup → lookup.1.Nodup) {done : Bool}
    (hrun : coord.allocate rid numTokens (coord.matchNow matched) = .ok (done, coord')) :
    coord'.Tidy ∧ coord.Frame coord' rid ∧ (coord'.requests rid = none ∨ coord.Grown coord' rid) := by
  have hsound : coord'.Sound := by
    refine @step_sound coord coord' (.allocate rid numTokens matched) h.sound ?_
    simp only [step, hrun, ok_bind]
    rfl
  obtain ⟨others, hholds, -, -⟩ := h.sound.split rid
  rcases allocate_cases h.sound hholds numTokens matched with
    ⟨-, -, message, herror⟩ | ⟨pool', state, hok, hstate, -, huntouched, -⟩ |
      ⟨pool', draw, hok, hempty, hshaped, hdraw, hgrew⟩
  · cases herror.symm.trans hrun
  · cases hok.symm.trans hrun
    have hframe := withRequest_frame coord pool' rid state
    have hsingle : ∀ b ≠ nullBlockId, pool'.hashOf b = none → (pool'.blocks b).refCnt ≤ 1 := by
      intro b hb hnone
      have hsame : pool'.blocks = coord.pool.blocks := huntouched.blocks
      rw [BlockPool.hashOf, hsame] at hnone
      rw [hsame]
      exact h.single b hb hnone
    have hlists := huntouched.lists rid
    refine ⟨h.of_frame hframe hsound hsingle (hlists.symm ▸ h.distinct rid)
      (fun i blocks start hi hs => ?_), hframe, ?_⟩
    · rcases hstate with hgone | hsome
      · exact bounded_of_none (by simp [withRequest, hgone]) i blocks start hs
      · rw [hsome, stateOf_withRequest] at hs
        exact h.bounded rid i blocks start (hlists ▸ hi) hs
    · rcases hstate with hgone | hsome
      · exact .inl (by simp [withRequest, hgone])
      · refine .inr (.inr ⟨?_, fun i blocks hi => ⟨[], ?_⟩⟩)
        · rw [hsome, stateOf_withRequest]
        · rw [hlists, hi, List.append_nil]
  · cases hok.symm.trans hrun
    have hframe := withRequest_frame coord pool' rid
      (some (coord.grantedState rid numTokens (coord.adoptedNow matched) draw))
    obtain ⟨hdistinct, hbounded⟩ := @adoptedState_tidy coord rid h matched hmatched
    -- a list is an old one, or one of the hit, and its share of the draw
    have hlist : ∀ (i : Nat) (blocks : List BlockId),
        (coord.grantedState rid numTokens (coord.adoptedNow matched) draw).perGroup[i]? = some blocks →
        ∃ own share, (coord.adoptedState rid (coord.adoptedNow matched)).perGroup[i]? = some own ∧
          share.Sublist draw ∧ blocks = own ++ share := by
      intro i blocks hi
      have hlt : i < coord.config.groups.length :=
        (grantedState_shaped hshaped hdraw).perGroup ▸ (List.getElem?_eq_some_iff.mp hi).1
      have hown := List.getElem?_eq_getElem (hshaped.perGroup.symm ▸ hlt)
      obtain ⟨share, hshare, hsub, -⟩ :=
        grantedState_getElem? hshaped hdraw (List.getElem?_eq_getElem hlt) hown
      exact ⟨_, share, hown, hsub, Option.some.inj (hi.symm.trans hshare)⟩
    refine ⟨h.of_frame hframe hsound (fun b hb hnone => ?_) (fun blocks hblocks => ?_)
      (fun i blocks start hi hs => ?_), hframe, .inr ?_⟩
    · have hcount : (pool'.blocks b).refCnt = _ := hgrew.holds.ref b hb
      have hnone : pool'.hashOf b = none := hnone
      show (pool'.blocks b).refCnt ≤ 1
      rw [hcount, Multiset.count_add]
      by_cases hmem : b ∈ draw
      · rw [hgrew.unheld b hmem, zero_add, Multiset.coe_count]
        exact List.nodup_iff_count_le_one.mp hgrew.nodup b
      · rw [Multiset.coe_count, List.count_eq_zero_of_not_mem hmem, add_zero]
        have hbefore : coord.pool.hashOf b = none := (hgrew.others b hmem).symm.trans hnone
        by_cases hnil : coord.adoptedNow matched = []
        · have hold := h.single b hb hbefore
          rw [hholds.ref b hb] at hold
          rw [adoptedState, if_pos hnil]
          exact hold
        · -- the blocks of the hit carry hashes
          have hzero : (coord.adoptedState rid (coord.adoptedNow matched)).references.count b = 0 := by
            refine List.count_eq_zero_of_not_mem fun hmem => ?_
            rw [adoptedState, if_neg hnil] at hmem
            cases matched with
            | none => exact hnil rfl
            | some lookup =>
              obtain ⟨hash, hindexed⟩ := hit_indexed hholds lookup.1 lookup.2 b hmem
              rw [BlockPool.hashOf, (hholds.index_iff hash b).mp hindexed] at hbefore
              cases hbefore
          have hold := h.single b hb hbefore
          rw [hholds.ref b hb, Multiset.count_add] at hold
          rw [Multiset.count_add, Multiset.coe_count, hzero, zero_add]
          exact Nat.le_trans (Nat.le_add_left _ _) hold
    · rw [blockIds_withRequest] at hblocks
      obtain ⟨i, hi⟩ := List.mem_iff_getElem?.mp hblocks
      obtain ⟨own, share, hown, hsub, rfl⟩ := hlist i blocks hi
      rw [realBlocks_append]
      refine List.Nodup.append (hdistinct own (List.mem_of_getElem? hown))
        ((hgrew.nodup.sublist hsub).filter _) fun b hbown hbshare => ?_
      obtain ⟨hb, hreal⟩ := mem_realBlocks.mp hbown
      have hzero := hgrew.unheld b (hsub.subset (mem_realBlocks.mp hbshare).1)
      rw [Multiset.count_add, Nat.add_eq_zero_iff, Multiset.count_eq_zero, Multiset.mem_coe] at hzero
      exact hzero.1 (mem_realBlocks.mpr ⟨List.mem_flatten.mpr ⟨own, List.mem_of_getElem? hown, hb⟩, hreal⟩)
    · rw [blockIds_withRequest] at hi
      rw [stateOf_withRequest] at hs
      obtain ⟨own, share, hown, -, rfl⟩ := hlist i blocks hi
      rw [List.length_append]
      exact Nat.le_trans (hbounded i own start hown hs) (Nat.le_add_right _ _)
    · by_cases hnil : coord.adoptedNow matched = []
      · right
        have hadopted : coord.adoptedState rid (coord.adoptedNow matched) = coord.stateOf rid := by
          rw [adoptedState, if_pos hnil]
        refine ⟨?_, fun i blocks hi => ?_⟩
        · rw [stateOf_withRequest, grantedState, hadopted]
        · have hlt : i < coord.config.groups.length :=
            (h.sound.shaped rid).perGroup ▸ (List.getElem?_eq_some_iff.mp hi).1
          have hown : (coord.adoptedState rid (coord.adoptedNow matched)).perGroup[i]? = some blocks := by
            rw [hadopted]
            exact hi
          obtain ⟨share, hshare, -, -⟩ := grantedState_getElem? hshaped hdraw
            (List.getElem?_eq_getElem hlt) hown
          exact ⟨share, by rw [blockIds_withRequest]; exact hshare⟩
      · exact .inl (hempty hnil)

/-! ### What is reported -/

/-- What is due, by positions. -/
theorem mem_due {t : Nat × BlockId × BlockHash} :
    t ∈ coord.due rid blockHashes numComputedTokens ↔ ∃ spec blocks start,
      coord.config.groups[t.1]? = some spec ∧ (coord.blockIds rid)[t.1]? = some blocks ∧
      (coord.stateOf rid).numCached[t.1]? = some start ∧
      wholeBlocks spec (coord.config.hashesOf spec blockHashes) numComputedTokens ≤ blocks.length ∧
      ∃ j, start ≤ j ∧
        j < wholeBlocks spec (coord.config.hashesOf spec blockHashes) numComputedTokens ∧
        blocks[j]? = some t.2.1 ∧ (coord.config.hashesOf spec blockHashes)[j]? = some t.2.2 := by
  rw [due, mem_dueGroups]
  constructor
  · rintro ⟨i, spec, blocks, start, hindex, hg, hb, hn, hdue⟩
    rw [Nat.zero_add] at hindex
    subst hindex
    exact ⟨spec, blocks, start, hg, hb, hn, mem_dueBlocks_iff.mp hdue⟩
  · rintro ⟨spec, blocks, start, hg, hb, hn, hdue⟩
    exact ⟨t.1, spec, blocks, start, (Nat.zero_add _).symm, hg, hb, hn, mem_dueBlocks_iff.mpr hdue⟩

/-- An entry that is due is the only one for a block the request holds once. -/
theorem due_unique {t t' : Nat × BlockId × BlockHash}
    (hone : (coord.blockIds rid).flatten.count t.2.1 ≤ 1)
    (ht : t ∈ coord.due rid blockHashes numComputedTokens)
    (ht' : t' ∈ coord.due rid blockHashes numComputedTokens) (hsame : t'.2.1 = t.2.1) : t' = t := by
  obtain ⟨spec, blocks, start, hg, hb, -, -, j, -, -, hj, hhash⟩ := mem_due.mp ht
  obtain ⟨spec', blocks', start', hg', hb', -, -, j', -, -, hj', hhash'⟩ := mem_due.mp ht'
  rw [hsame] at hj'
  obtain ⟨hi, rfl⟩ := unique_position hone hb' hb hj' hj
  rw [hi, hg] at hg'
  cases hg'
  rw [hhash] at hhash'
  exact Prod.ext hi (Prod.ext hsame (Option.some.inj hhash').symm)

/-- What the calls report. -/
theorem Indexed.fresh_eq (h : coord.Tidy)
    (hindexed : coord.Indexed coord' rid blockHashes numComputedTokens fresh) :
    fresh = (coord.due rid blockHashes numComputedTokens).filter fun t =>
      (coord.pool.hashOf t.2.1).isNone := by
  refine hindexed.fresh fun b hnone => ?_
  by_cases hb : b = nullBlockId
  · have hzero : (coord.references rid).count b = 0 :=
      List.count_eq_zero_of_not_mem fun hmem => (mem_references.mp hmem).1 hb
    omega
  · rw [references, GroupBlocks.references, count_realBlocks hb]
    exact h.count_le_one rid hb hnone

/-- **A report is exact if and only if the call is clean.** -/
theorem Indexed.exact_iff (h : coord.Tidy) (hsound : coord'.Sound)
    (hindexed : coord.Indexed coord' rid blockHashes numComputedTokens fresh) :
    coord.Exact coord' rid fresh ↔ coord.Clean rid blockHashes numComputedTokens := by
  obtain ⟨_, hholds, -⟩ := h.sound.split rid
  obtain ⟨_, hholds', -⟩ := hsound.split rid
  have hfresh : ∀ {t : Nat × BlockId × BlockHash}, t ∈ fresh ↔
      t ∈ coord.due rid blockHashes numComputedTokens ∧ coord.pool.hashOf t.2.1 = none := by
    intro t
    rw [hindexed.fresh_eq h, List.mem_filter, Option.isNone_iff_eq_none]
  have hcaching : coord'.pool.enableCaching = coord.pool.enableCaching :=
    congrArg (·.2.2) hindexed.geometry
  constructor
  · intro hexact i spec blocks start j hg hb hn hreach hstart hlt
    obtain ⟨b, hj⟩ : ∃ b, blocks[j]? = some b :=
      ⟨_, List.getElem?_eq_getElem (Nat.lt_of_lt_of_le hlt hreach)⟩
    obtain ⟨hash, hhash⟩ : ∃ hash, (coord.config.hashesOf spec blockHashes)[j]? = some hash :=
      ⟨_, List.getElem?_eq_getElem (Nat.lt_of_lt_of_le hlt (Nat.min_le_right _ _))⟩
    have hdue : (i, b, hash) ∈ coord.due rid blockHashes numComputedTokens :=
      mem_due.mpr ⟨spec, blocks, start, hg, hb, hn, hreach, j, hstart, hlt, hj, hhash⟩
    -- a block without a hash is reported, so it must have entered the index
    have hentered : coord.pool.hashOf b = none → coord.Entered coord' rid (i, b, hash) := fun hnone =>
      (hexact _).mp (hfresh.mpr ⟨hdue, hnone⟩)
    constructor
    · by_contra hoff
      have hoff : coord.pool.enableCaching = false := by simpa using hoff
      obtain ⟨-, -, -, hmem⟩ := hentered (hholds.index_off hoff b)
      have hnone := hholds'.index_off (hcaching.trans hoff) b
      rw [(hholds'.index_iff hash b).mp hmem] at hnone
      cases hnone
    · intro hnull
      cases hj.symm.trans hnull
      exact (hentered hholds.null_hash).1 rfl
  · intro hclean t
    rw [hfresh]
    constructor
    · rintro ⟨hdue, hnone⟩
      obtain ⟨spec, blocks, start, hg, hb, hn, hreach, j, hstart, hlt, hj, hhash⟩ := mem_due.mp hdue
      obtain ⟨hon, hreal⟩ := hclean t.1 spec blocks start j hg hb hn hreach hstart hlt
      have hne : t.2.1 ≠ nullBlockId := fun heq => hreal (heq ▸ hj)
      refine ⟨hne, ⟨blocks, hb, List.mem_of_getElem? hj⟩, fun hmem => ?_, ?_⟩
      · rw [BlockPool.hashOf, (hholds.index_iff _ _).mp hmem] at hnone
        cases hnone
      · have hhashes := hindexed.hashes t.2.1
        rw [BlockPool.hashAfter_of_none hnone, if_pos ⟨hon, hne⟩] at hhashes
        rw [hholds'.index_iff]
        refine hhashes.trans ?_
        cases hfind : ((coord.due rid blockHashes numComputedTokens).map Prod.snd).find? fun entry =>
            decide (entry.1 = t.2.1) with
        | none =>
          have := List.find?_eq_none.mp hfind t.2 (List.mem_map_of_mem hdue)
          simp at this
        | some entry =>
          have heq : entry.1 = t.2.1 := by simpa using List.find?_some hfind
          obtain ⟨t', ht', rfl⟩ := List.mem_map.mp (List.mem_of_find?_eq_some hfind)
          rw [due_unique (h.count_le_one rid hne hnone) hdue ht' heq]
          rfl
    · rintro ⟨hne, ⟨blocks, hb, hmem⟩, hout, hin⟩
      have hafter := hindexed.hashes t.2.1
      rw [BlockPool.hashOf, (hholds'.index_iff _ _).mp hin] at hafter
      cases hnone : coord.pool.hashOf t.2.1 with
      | some hash =>
        rw [BlockPool.hashAfter_of_some hnone] at hafter
        cases hafter
        exact absurd ((hholds.index_iff _ _).mpr hnone) hout
      | none =>
        refine ⟨?_, rfl⟩
        rw [BlockPool.hashAfter_of_none hnone] at hafter
        split at hafter
        · obtain ⟨entry, hfind, hhash⟩ := Option.map_eq_some_iff.mp hafter.symm
          have heq : entry.1 = t.2.1 := by simpa using List.find?_some hfind
          obtain ⟨t', ht', rfl⟩ := List.mem_map.mp (List.mem_of_find?_eq_some hfind)
          -- the entry it was offered with is of the group that holds it
          obtain ⟨-, blocks', -, -, hb', -, -, j', -, -, hj', -⟩ := mem_due.mp ht'
          obtain ⟨j, hj⟩ := List.mem_iff_getElem?.mp hmem
          rw [heq] at hj'
          obtain ⟨hi, -⟩ := unique_position (h.count_le_one rid hne hnone) hb' hb hj' hj
          have ht : t' = t := Prod.ext hi (Prod.ext heq hhash)
          exact ht ▸ ht'
        · cases hafter

/-- Indexing keeps the invariant. -/
theorem Indexed.tidy (h : coord.Tidy) (hsound : coord'.Sound)
    (hindexed : coord.Indexed coord' rid blockHashes numComputedTokens fresh)
    (href : ∀ b, (coord'.pool.blocks b).refCnt = (coord.pool.blocks b).refCnt) : coord'.Tidy := by
  refine h.of_frame hindexed.frame hsound (fun b hb hnone => ?_) (hindexed.lists ▸ h.distinct rid)
    fun i blocks start hi hs => ?_
  · rw [href]
    refine h.single b hb ?_
    cases hbefore : coord.pool.hashOf b with
    | none => rfl
    | some hash =>
      rw [hindexed.hashes, BlockPool.hashAfter_of_some hbefore] at hnone
      cases hnone
  · rw [hindexed.lists] at hi
    rw [hindexed.cursors] at hs
    have hshaped := h.sound.shaped rid
    have hlt : i < coord.config.groups.length := hshaped.perGroup ▸ (List.getElem?_eq_some_iff.mp hi).1
    have hstart := List.getElem?_eq_getElem (hshaped.numCached.symm ▸ hlt)
    rw [cursorsAfter_getElem? (List.getElem?_eq_getElem hlt) hi hstart] at hs
    cases hs
    unfold cursorAfter
    dsimp only
    split
    · rename_i hreach
      exact hreach.2
    · exact h.bounded rid i blocks _ hi hstart

/-! ### What is given back -/

/-- An entry is kept, or it is nulled because the window has passed it. -/
theorem skipped_getElem? {spec : GroupSpec} {blocks : List BlockId} {j : Nat} {b : BlockId}
    (hj : blocks[j]? = some b) : (skipped spec numComputedTokens blocks)[j]? = some b ∨
      (skipped spec numComputedTokens blocks)[j]? = some nullBlockId ∧
        ∀ length ≥ numComputedTokens, ∀ position, position / spec.blockSize = j →
          ¬ spec.Reads length position := by
  unfold skipped
  split
  · exact .inl hj
  · rename_i hwindow
    have hlt : j < blocks.length := (List.getElem?_eq_some_iff.mp hj).1
    dsimp only
    by_cases hdead : j < (numComputedTokens - spec.window) / spec.blockSize
    · right
      have hkeep : j < min ((numComputedTokens - spec.window) / spec.blockSize) blocks.length :=
        Nat.lt_min.mpr ⟨hdead, hlt⟩
      refine ⟨?_, fun length hlength position hposition hreads => ?_⟩
      · rw [List.getElem?_append_left (by rwa [List.length_replicate]),
          List.getElem?_replicate_of_lt hkeep]
      · -- the whole block lies below the window of the oldest query
        have hpos : position < (j + 1) * spec.blockSize := by
          rw [← hposition, Nat.mul_comm]
          exact Nat.lt_mul_div_succ position spec.one_le_blockSize
        have hend : (j + 1) * spec.blockSize ≤ numComputedTokens - spec.window :=
          (Nat.le_div_iff_mul_le spec.one_le_blockSize).mp hdead
        obtain ⟨-, hrange⟩ := hreads
        cases hkind : spec.kind with
        | full => exact hwindow (by rw [GroupSpec.window, hkind])
        | mla => exact hwindow (by rw [GroupSpec.window, hkind])
        | slidingWindow window =>
          have hw : spec.window = window := by rw [GroupSpec.window, hkind]
          rw [hkind] at hrange
          dsimp only at hrange
          omega
    · left
      have hkeep : ¬ j < min ((numComputedTokens - spec.window) / spec.blockSize) blocks.length :=
        fun h => hdead (Nat.lt_min.mp h).1
      generalize hfrom : min ((numComputedTokens - spec.window) / spec.blockSize) blocks.length =
        keepFrom at hkeep
      rw [List.getElem?_append_right (by rw [List.length_replicate]; omega), List.length_replicate,
        List.getElem?_drop, Nat.add_sub_cancel' (Nat.not_lt.mp hkeep)]
      exact hj

/-- The lists of a request after the call, by groups. -/
theorem Skipped.lists_getElem? (h : coord.Sound) (hskipped : coord.Skipped coord' rid numComputedTokens)
    {i : Nat} {blocks' : List BlockId} (hi : (coord'.blockIds rid)[i]? = some blocks') :
    ∃ spec blocks, coord.config.groups[i]? = some spec ∧ (coord.blockIds rid)[i]? = some blocks ∧
      blocks' = skipped spec numComputedTokens blocks := by
  rw [hskipped.lists] at hi
  have hlt : i < (coord.blockIds rid).length := by
    have := (List.getElem?_eq_some_iff.mp hi).1
    rwa [skippedGroups_length] at this
  have hspec := List.getElem?_eq_getElem ((h.shaped rid).perGroup ▸ hlt)
  have hblocks := List.getElem?_eq_getElem hlt
  rw [skippedGroups_getElem? hspec hblocks] at hi
  exact ⟨_, _, hspec, hblocks, (Option.some.inj hi).symm⟩

theorem realBlocks_skipped (spec : GroupSpec) (numComputedTokens : Nat) (blocks : List BlockId) :
    (realBlocks (skipped spec numComputedTokens blocks)).Sublist (realBlocks blocks) := by
  unfold skipped
  split
  · exact List.Sublist.refl _
  · dsimp only
    rw [realBlocks_append, realBlocks_replicate, List.nil_append]
    exact (List.drop_sublist _ _).filter _

theorem flatten_skipped : ∀ (numComputedTokens : Nat) (groups : List GroupSpec)
    (perGroup : List (List BlockId)),
    (realBlocks (skippedGroups numComputedTokens groups perGroup).flatten).Sublist
      (realBlocks perGroup.flatten)
  | _, [], _ => List.Sublist.refl _
  | _, _ :: _, [] => List.Sublist.refl _
  | n, spec :: groups, blocks :: perGroup => by
      rw [skippedGroups, List.flatten_cons, List.flatten_cons, realBlocks_append, realBlocks_append]
      exact (realBlocks_skipped spec n blocks).append (flatten_skipped n groups perGroup)

/-- Giving dead blocks back keeps the invariant. -/
theorem Skipped.tidy (h : coord.Tidy) (hsound : coord'.Sound)
    (hskipped : coord.Skipped coord' rid numComputedTokens) : coord'.Tidy := by
  refine h.of_frame hskipped.frame hsound (fun b hb hnone => ?_) (fun blocks' hblocks' => ?_)
    fun i blocks' start hi hs => ?_
  · have hcount := hskipped.refCnt b hb
    have hsub : (coord'.references rid).count b ≤ (coord.references rid).count b := by
      have hlists : (coord'.stateOf rid).perGroup = skippedGroups numComputedTokens coord.config.groups
          (coord.stateOf rid).perGroup := hskipped.lists
      rw [references, references, GroupBlocks.references, GroupBlocks.references, hlists]
      exact (flatten_skipped numComputedTokens _ _).count_le b
    have hold := h.single b hb ((hskipped.hashes b).symm.trans hnone)
    omega
  · obtain ⟨i, hi⟩ := List.mem_iff_getElem?.mp hblocks'
    obtain ⟨spec, blocks, -, hblocks, rfl⟩ := hskipped.lists_getElem? h.sound hi
    exact (h.distinct rid blocks (List.mem_of_getElem? hblocks)).sublist
      (realBlocks_skipped spec numComputedTokens blocks)
  · obtain ⟨spec, blocks, -, hblocks, rfl⟩ := hskipped.lists_getElem? h.sound hi
    rw [skipped_length]
    exact h.bounded rid i blocks start hblocks (hskipped.cursors ▸ hs)

/-- **`remove_skipped_blocks`** gives back what no later query reads. -/
theorem Skipped.released (h : coord.Tidy) (hskipped : coord.Skipped coord' rid numComputedTokens) :
    coord.Released coord' rid numComputedTokens where
  others rid' hne := by rw [blockIds, hskipped.frame.stateOf hne, blockIds]
  distinct := h.distinct rid
  kept i spec blocks hspec hblocks := by
    refine ⟨skipped spec numComputedTokens blocks, ?_, skipped_length _ _ _, fun j b hj =>
      skipped_getElem? hj⟩
    rw [hskipped.lists]
    exact skippedGroups_getElem? hspec hblocks
  refCnt b hb := by
    have hcount := hskipped.refCnt b hb
    rwa [references, references, GroupBlocks.references, GroupBlocks.references,
      count_realBlocks hb, count_realBlocks hb] at hcount

/-- Freeing a request keeps the invariant. -/
theorem free_tidy (h : coord.Tidy) (hrun : coord.free rid = .ok coord') :
    coord'.Tidy ∧ coord.Frame coord' rid ∧ coord'.requests rid = none := by
  obtain ⟨after, hok, hsound, hframe, hgone, hhash, href⟩ := free_ok h.sound rid
  cases hok.symm.trans hrun
  refine ⟨h.of_frame hframe hsound (fun b hb hnone => ?_) (fun blocks hblocks => ?_)
    fun i blocks start _ hs => bounded_of_none hgone i blocks start hs, hframe, hgone⟩
  · exact Nat.le_trans (href b) (h.single b hb ((hhash b).symm.trans hnone))
  · rw [blockIds_of_none hgone hblocks]
    exact List.nodup_nil

/-- A pool forgets its hashes only when nobody holds a block. -/
theorem resetPrefixCache_tidy (h : coord.Tidy) :
    ({ coord with pool := coord.pool.resetPrefixCache.2 } : GroupCoordinator).Tidy := by
  obtain ⟨ids, hnodup, hnone, hholds⟩ := h.sound.holds
  have hsound : ({ coord with pool := coord.pool.resetPrefixCache.2 } : GroupCoordinator).Sound :=
    { holds := ⟨ids, hnodup, hnone, resetPrefixCache_holds hholds⟩, shaped := h.sound.shaped }
  refine { sound := hsound, single := fun b hb hhash => ?_, distinct := h.distinct, bounded := h.bounded }
  have hhash : coord.pool.resetPrefixCache.2.hashOf b = none := hhash
  show (coord.pool.resetPrefixCache.2.blocks b).refCnt ≤ 1
  unfold BlockPool.resetPrefixCache at hhash ⊢
  split at hhash
  · rename_i hused
    rw [if_pos hused]
    exact h.single b hb hhash
  · rename_i hfree
    rw [if_neg hfree]
    have hone : coord.pool.numBlocks - coord.pool.numFreeBlocks = 1 := not_not.mp hfree
    show (coord.pool.blocks b).refCnt ≤ 1
    rw [hholds.ref b hb]
    -- every block but the null block is in the queue
    have hall : ∀ b ≠ nullBlockId, b < coord.pool.numBlocks → b ∈ coord.pool.freeBlockQueue := by
      have hrange : ∀ b : Nat, b ∈ List.range' 1 (coord.pool.numBlocks - 1) ↔
          b ≠ 0 ∧ b < coord.pool.numBlocks := fun b => by
        rw [List.mem_range'_1]
        omega
      have hsub : ∀ b ∈ coord.pool.freeBlockQueue, b ∈ List.range' 1 (coord.pool.numBlocks - 1) := by
        intro b hb
        obtain ⟨hreal, hlt, -⟩ := (hholds.queue_iff b).mp hb
        exact (hrange b).mpr ⟨hreal, hlt⟩
      have hlen : (List.range' 1 (coord.pool.numBlocks - 1)).length ≤ coord.pool.freeBlockQueue.length := by
        have hqueue : coord.pool.numFreeBlocks = coord.pool.freeBlockQueue.length := rfl
        rw [List.length_range', ← hqueue]
        omega
      intro b hreal hlt
      exact ((hholds.queue_nodup.subperm hsub).perm_of_length_le hlen).mem_iff.mpr
        ((hrange b).mpr ⟨hreal, hlt⟩)
    by_cases hlt : b < coord.pool.numBlocks
    · rw [((hholds.queue_iff b).mp (hall b hb hlt)).2.2]
      exact Nat.zero_le 1
    · rw [Multiset.count_eq_zero.mpr fun hmem => hlt (hholds.held_bound b hmem).2]
      exact Nat.zero_le 1

end GroupCoordinator

/-! ### The life of a request -/

/-- The hashes of a group are as different as those of the chain. -/
theorem hashesOf_nodup {config : KVCacheConfig} {spec : GroupSpec} (hspec : spec ∈ config.groups)
    {blockHashes : List BlockHash} (hnodup : blockHashes.Nodup) :
    (config.hashesOf spec blockHashes).Nodup := by
  rw [List.Nodup, List.pairwise_iff_getElem]
  intro i j hi hj hlt heq
  have := KVCacheConfig.hashesOf_unique hspec hnodup (List.getElem?_eq_getElem hi)
    (heq ▸ List.getElem?_eq_getElem hj)
  omega

/-- Nothing is due twice. -/
theorem dueGroups_nodup {config : KVCacheConfig} {blockHashes : List BlockHash}
    (hnodup : blockHashes.Nodup) (numComputedTokens : Nat) : ∀ (index : Nat) {groups : List GroupSpec}
    (perGroup : List (List BlockId)) (numCached : List Nat), (∀ spec ∈ groups, spec ∈ config.groups) →
    (dueGroups config blockHashes numComputedTokens index groups perGroup numCached).Nodup
  | _, [], _, _, _ => List.nodup_nil
  | _, _ :: _, [], _, _ => List.nodup_nil
  | _, _ :: _, _ :: _, [], _ => List.nodup_nil
  | index, spec :: groups, blocks :: perGroup, start :: numCached, hgroups => by
      rw [dueGroups]
      refine List.Nodup.append (List.Nodup.map (fun entry entry' heq => ?_) ?_)
        (dueGroups_nodup hnodup numComputedTokens (index + 1) perGroup numCached fun spec hspec =>
          hgroups spec (List.mem_cons_of_mem _ hspec)) fun t ht ht' => ?_
      · exact Prod.ext (congrArg (·.2.1) heq) (congrArg (·.2.2) heq)
      · have hhashes := hashesOf_nodup (hgroups spec List.mem_cons_self) hnodup
        unfold dueBlocks
        dsimp only
        split
        · refine List.Nodup.of_map Prod.snd ?_
          rw [List.map_snd_zip (by simp only [List.length_drop, List.length_take]; omega)]
          exact (hhashes.sublist (List.take_sublist _ _)).sublist (List.drop_sublist _ _)
        · exact List.nodup_nil
      · obtain ⟨entry, -, rfl⟩ := List.mem_map.mp ht
        obtain ⟨i, -, -, -, hindex, -⟩ := mem_dueGroups.mp ht'
        omega

/-- The coordinator, and what happened to each request since it is alive: the chain it was last
indexed with, what was reported of it, and how often each of its entries was given back. -/
structure ReportWorld where
  coord : GroupCoordinator
  chain : RequestId → List BlockHash
  reports : RequestId → List (Nat × BlockId × BlockHash)
  released : RequestId → Nat → Nat → Nat

/-- Entry `position` of a request's list in a group. -/
def GroupCoordinator.entryAt (coord : GroupCoordinator) (rid : RequestId) (group position : Nat) :
    Option BlockId := (coord.blockIds rid)[group]?.bind fun blocks => blocks[position]?

namespace ReportWorld

open GroupCoordinator (Call)

def create (config : KVCacheConfig) (pool : BlockPool) : ReportWorld :=
  { coord := GroupCoordinator.create config pool, chain := fun _ => [], reports := fun _ => []
    released := fun _ _ _ => 0 }

/-- The world after a call. A request that is gone has no record; an entry was given back when it
held a block and is null now. -/
def after (world : ReportWorld) (coord : GroupCoordinator) (chain : RequestId → List BlockHash)
    (reports : RequestId → List (Nat × BlockId × BlockHash)) : ReportWorld where
  coord
  chain rid := if (coord.requests rid).isNone then [] else chain rid
  reports rid := if (coord.requests rid).isNone then [] else reports rid
  released rid group position :=
    if (coord.requests rid).isNone then 0
    else if (world.coord.entryAt rid group position).isSome ∧
        world.coord.entryAt rid group position ≠ some nullBlockId ∧
        coord.entryAt rid group position = some nullBlockId then
      world.released rid group position + 1
    else world.released rid group position

def step (world : ReportWorld) : Call → Except Raised ReportWorld
  | .cacheBlocks rid blockHashes numComputedTokens => do
    let (fresh, coord) ← world.coord.cacheBlocks rid blockHashes numComputedTokens
    return world.after coord (Function.update world.chain rid blockHashes)
      (Function.update world.reports rid (world.reports rid ++ fresh))
  | call => do return world.after (← world.coord.step call) world.chain world.reports

/-- A call that returned. -/
def Step (world : ReportWorld) (call : Call) (world' : ReportWorld) : Prop := world.step call = .ok world'

/-- The chains of a request grow while it lives, and no two prefixes have one hash. -/
def Chained (world : ReportWorld) : Call → Prop
  | .cacheBlocks rid blockHashes _ => world.chain rid <+: blockHashes ∧ blockHashes.Nodup
  | .allocate _ _ (some lookup) => lookup.1.Nodup
  | _ => True

/-- Every report was of a block below its cursor, under the hash of its place. -/
def Recorded (coord : GroupCoordinator) (rid : RequestId) (chain : List BlockHash)
    (reports : List (Nat × BlockId × BlockHash)) : Prop :=
  ∀ t ∈ reports, ∃ spec start j, coord.config.groups[t.1]? = some spec ∧
    (coord.stateOf rid).numCached[t.1]? = some start ∧ j < start ∧
    (coord.config.hashesOf spec chain)[j]? = some t.2.2

/-- What the records of a request say in every state. -/
structure Tracked (world : ReportWorld) : Prop where
  tidy : world.coord.Tidy
  recorded : ∀ rid, Recorded world.coord rid (world.chain rid) (world.reports rid)
  nodup : ∀ rid, (world.reports rid).Nodup
  once : ∀ rid group position, world.released rid group position ≤ 1 ∧
    (world.released rid group position = 1 →
      world.coord.entryAt rid group position = some nullBlockId)

variable {world world' : ReportWorld} {coord' : GroupCoordinator} {rid : RequestId}
  {chain : RequestId → List BlockHash} {reports : RequestId → List (Nat × BlockId × BlockHash)}

theorem entryAt_frame (hframe : world.coord.Frame coord' rid) {rid' : RequestId} (hne : rid' ≠ rid)
    (group position : Nat) :
    coord'.entryAt rid' group position = world.coord.entryAt rid' group position := by
  rw [GroupCoordinator.entryAt, GroupCoordinator.entryAt, GroupCoordinator.blockIds,
    GroupCoordinator.blockIds, hframe.stateOf hne]

/-- A call that moves one request owes the records of this one. -/
theorem Tracked.after (h : world.Tracked) (hframe : world.coord.Frame coord' rid) (htidy : coord'.Tidy)
    (hchain : ∀ rid' ≠ rid, chain rid' = world.chain rid')
    (hreports : ∀ rid' ≠ rid, reports rid' = world.reports rid')
    (hself : coord'.requests rid = none ∨
      Recorded coord' rid (chain rid) (reports rid) ∧ (reports rid).Nodup ∧
        ∀ group position, world.coord.entryAt rid group position = some nullBlockId →
          coord'.entryAt rid group position = some nullBlockId) :
    (world.after coord' chain reports).Tracked := by
  -- the records of a request that goes on
  have hgo : ∀ rid', coord'.requests rid' ≠ none →
      Recorded coord' rid' (chain rid') (reports rid') ∧ (reports rid').Nodup ∧
        ∀ group position, world.coord.entryAt rid' group position = some nullBlockId →
          coord'.entryAt rid' group position = some nullBlockId := by
    intro rid' hlives
    by_cases hrid : rid' = rid
    · subst hrid
      exact hself.resolve_left hlives
    · refine ⟨?_, ?_, fun group position hnull => ?_⟩
      · rw [hchain rid' hrid, hreports rid' hrid, Recorded, hframe.config, hframe.stateOf hrid]
        exact h.recorded rid'
      · rw [hreports rid' hrid]
        exact h.nodup rid'
      · rw [entryAt_frame hframe hrid]
        exact hnull
  refine { tidy := htidy, recorded := fun rid' => ?_, nodup := fun rid' => ?_,
           once := fun rid' group position => ?_ }
  · show Recorded coord' rid' (if (coord'.requests rid').isNone then [] else chain rid')
      (if (coord'.requests rid').isNone then [] else reports rid')
    split
    · exact fun t ht => absurd ht List.not_mem_nil
    · rename_i hlives
      exact (hgo rid' (by simpa using hlives)).1
  · show (if (coord'.requests rid').isNone then [] else reports rid').Nodup
    split
    · exact List.nodup_nil
    · rename_i hlives
      exact (hgo rid' (by simpa using hlives)).2.1
  · obtain ⟨hle, hnull⟩ := h.once rid' group position
    simp only [ReportWorld.after]
    split
    · exact ⟨Nat.zero_le 1, fun heq => by cases heq⟩
    · rename_i hlives
      obtain ⟨-, -, hstays⟩ := hgo rid' (by simpa using hlives)
      split
      · rename_i hturned
        have hzero : world.released rid' group position = 0 := by
          by_contra hne
          exact hturned.2.1 (hnull (by omega))
        rw [hzero]
        exact ⟨Nat.le_refl 1, fun _ => hturned.2.2⟩
      · exact ⟨hle, fun hone => hstays group position (hnull hone)⟩

/-- What a request recorded, it keeps when its lists and its cursors stay. -/
theorem Recorded.congr {coord : GroupCoordinator} {chain : List BlockHash}
    {reports : List (Nat × BlockId × BlockHash)} (h : Recorded coord rid chain reports)
    (hconfig : coord'.config = coord.config)
    (hcursors : (coord'.stateOf rid).numCached = (coord.stateOf rid).numCached) :
    Recorded coord' rid chain reports := by
  rw [Recorded, hconfig, hcursors]
  exact h

/-- A request without blocks has no record. -/
theorem Tracked.reports_nil (h : world.Tracked)
    (hempty : ∀ blocks ∈ world.coord.blockIds rid, blocks = []) : world.reports rid = [] := by
  refine List.eq_nil_iff_forall_not_mem.mpr fun t ht => ?_
  obtain ⟨spec, start, j, hspec, hstart, hlt, -⟩ := h.recorded rid t ht
  have hgroup : t.1 < world.coord.config.groups.length := (List.getElem?_eq_some_iff.mp hspec).1
  have hblocks := List.getElem?_eq_getElem ((h.tidy.sound.shaped rid).perGroup.symm ▸ hgroup)
  have hbound := h.tidy.bounded rid t.1 _ start hblocks hstart
  rw [hempty _ (List.mem_of_getElem? hblocks), List.length_nil] at hbound
  omega

theorem entryAt_some {coord : GroupCoordinator} {group position : Nat} {b : BlockId} :
    coord.entryAt rid group position = some b ↔
      ∃ blocks, (coord.blockIds rid)[group]? = some blocks ∧ blocks[position]? = some b :=
  Option.bind_eq_some_iff

/-- The records of a request that `allocate` extends. -/
theorem Tracked.grown (h : world.Tracked) (hconfig : coord'.config = world.coord.config)
    (hgrown : world.coord.Grown coord' rid) :
    Recorded coord' rid (world.chain rid) (world.reports rid) ∧ (world.reports rid).Nodup ∧
      ∀ group position, world.coord.entryAt rid group position = some nullBlockId →
        coord'.entryAt rid group position = some nullBlockId := by
  refine ⟨?_, h.nodup rid, fun group position hnull => ?_⟩
  · rcases hgrown with hempty | ⟨hcursors, -⟩
    · rw [h.reports_nil hempty]
      exact fun t ht => absurd ht List.not_mem_nil
    · exact (h.recorded rid).congr hconfig hcursors
  · obtain ⟨blocks, hblocks, hentry⟩ := entryAt_some.mp hnull
    rcases hgrown with hempty | ⟨-, hlists⟩
    · rw [hempty blocks (List.mem_of_getElem? hblocks)] at hentry
      cases hentry
    · obtain ⟨more, hmore⟩ := hlists group blocks hblocks
      refine entryAt_some.mpr ⟨_, hmore, ?_⟩
      rw [List.getElem?_append_left (List.getElem?_eq_some_iff.mp hentry).1]
      exact hentry

/-- The records of a request that was indexed. -/
theorem Tracked.indexed (h : world.Tracked) {blockHashes : List BlockHash} {numComputedTokens : Nat}
    {fresh : List (Nat × BlockId × BlockHash)}
    (hindexed : world.coord.Indexed coord' rid blockHashes numComputedTokens fresh)
    (hgrow : world.chain rid <+: blockHashes) (hnodup : blockHashes.Nodup) :
    Recorded coord' rid blockHashes (world.reports rid ++ fresh) ∧
      (world.reports rid ++ fresh).Nodup := by
  have hfresh := hindexed.fresh_eq h.tidy
  have hshaped := h.tidy.sound.shaped rid
  constructor
  · intro t ht
    rw [hindexed.frame.config, hindexed.cursors]
    rcases List.mem_append.mp ht with hold | hnew
    · obtain ⟨spec, start, j, hspec, hstart, hlt, hhash⟩ := h.recorded rid t hold
      have hgroup : t.1 < world.coord.config.groups.length := (List.getElem?_eq_some_iff.mp hspec).1
      have hblocks := List.getElem?_eq_getElem (hshaped.perGroup.symm ▸ hgroup)
      refine ⟨spec, _, j, hspec, cursorsAfter_getElem? hspec hblocks hstart, ?_,
        KVCacheConfig.hashesOf_grow (List.mem_of_getElem? hspec) hgrow hhash⟩
      unfold cursorAfter
      dsimp only
      split <;> omega
    · rw [hfresh] at hnew
      obtain ⟨spec, blocks, start, hspec, hblocks, hstart, hreach, j, hle, hlt, -, hhash⟩ :=
        GroupCoordinator.mem_due.mp (List.mem_filter.mp hnew).1
      refine ⟨spec, _, j, hspec, cursorsAfter_getElem? hspec hblocks hstart, ?_, hhash⟩
      rw [cursorAfter, if_pos ⟨by omega, hreach⟩]
      exact hlt
  · have hdue : (world.coord.due rid blockHashes numComputedTokens).Nodup :=
      dueGroups_nodup hnodup numComputedTokens 0 _ _ fun spec hspec => hspec
    refine List.Nodup.append (h.nodup rid) (hfresh ▸ hdue.filter _) fun t hold hnew => ?_
    -- what was reported lies below the cursor, what is due from it on
    obtain ⟨spec, start, j, hspec, hstart, hlt, hhash⟩ := h.recorded rid t hold
    rw [hfresh] at hnew
    obtain ⟨spec', blocks, start', hspec', -, hstart', -, j', hle, -, -, hhash'⟩ :=
      GroupCoordinator.mem_due.mp (List.mem_filter.mp hnew).1
    cases hspec.symm.trans hspec'
    cases hstart.symm.trans hstart'
    have hmem := List.mem_of_getElem? hspec
    have := KVCacheConfig.hashesOf_unique hmem hnodup
      (KVCacheConfig.hashesOf_grow hmem hgrow hhash) hhash'
    omega

/-- **Every call keeps the records.** -/
theorem step_tracked {call : Call} (h : world.Tracked) (hchained : world.Chained call)
    (hstep : Step world call world') : world'.Tracked := by
  cases call with
  | allocate rid numTokens matched =>
    obtain ⟨coord', hcoord, heq⟩ := bind_eq_ok.mp hstep
    cases heq
    obtain ⟨⟨done, after⟩, hrun, heq⟩ := bind_eq_ok.mp hcoord
    cases heq
    have hmatched : ∀ lookup, matched = some lookup → lookup.1.Nodup := by
      rintro lookup rfl
      exact hchained
    obtain ⟨htidy, hframe, hgrown⟩ := GroupCoordinator.allocate_tidy h.tidy hmatched hrun
    exact h.after hframe htidy (fun _ _ => rfl) (fun _ _ => rfl)
      (hgrown.imp_right fun hgrown => h.grown hframe.config hgrown)
  | cacheBlocks rid blockHashes numComputedTokens =>
    obtain ⟨⟨fresh, coord'⟩, hrun, heq⟩ := bind_eq_ok.mp hstep
    cases heq
    obtain ⟨_, _, hok, hsound, hindexed, href⟩ :=
      GroupCoordinator.cacheBlocks_ok h.tidy.sound rid blockHashes numComputedTokens
    cases hok.symm.trans hrun
    obtain ⟨hrecorded, hnodup⟩ := h.indexed hindexed hchained.1 hchained.2
    refine h.after hindexed.frame (hindexed.tidy h.tidy hsound href)
      (fun _ hne => Function.update_of_ne hne _ _) (fun _ hne => Function.update_of_ne hne _ _)
      (.inr ?_)
    rw [Function.update_self, Function.update_self]
    refine ⟨hrecorded, hnodup, fun group position hnull => ?_⟩
    rw [GroupCoordinator.entryAt, hindexed.lists]
    exact hnull
  | removeSkippedBlocks rid numComputedTokens =>
    obtain ⟨coord', hrun, heq⟩ := bind_eq_ok.mp hstep
    cases heq
    obtain ⟨_, hok, hsound, hskipped⟩ :=
      GroupCoordinator.removeSkippedBlocks_ok h.tidy.sound rid numComputedTokens
    cases hok.symm.trans hrun
    refine h.after hskipped.frame (hskipped.tidy h.tidy hsound) (fun _ _ => rfl) (fun _ _ => rfl)
      (.inr ⟨(h.recorded rid).congr hskipped.frame.config hskipped.cursors, h.nodup rid,
        fun group position hnull => ?_⟩)
    obtain ⟨blocks, hblocks, hentry⟩ := entryAt_some.mp hnull
    have hgroup : group < world.coord.config.groups.length :=
      (h.tidy.sound.shaped rid).perGroup ▸ (List.getElem?_eq_some_iff.mp hblocks).1
    obtain ⟨blocks', hblocks', -, hkept⟩ := (hskipped.released h.tidy).kept group _ blocks
      (List.getElem?_eq_getElem hgroup) hblocks
    exact entryAt_some.mpr ⟨blocks', hblocks', (hkept position _ hentry).elim id And.left⟩
  | free rid =>
    obtain ⟨coord', hrun, heq⟩ := bind_eq_ok.mp hstep
    cases heq
    obtain ⟨htidy, hframe, hgone⟩ := GroupCoordinator.free_tidy h.tidy hrun
    exact h.after hframe htidy (fun _ _ => rfl) (fun _ _ => rfl) (.inl hgone)
  | resetPrefixCache =>
    cases hstep
    have hframe : world.coord.Frame
        { world.coord with pool := world.coord.pool.resetPrefixCache.2 } "" := ⟨rfl, fun _ _ => rfl⟩
    exact h.after hframe (GroupCoordinator.resetPrefixCache_tidy h.tidy) (fun _ _ => rfl)
      (fun _ _ => rfl) (.inr ⟨(h.recorded "").congr rfl rfl, h.nodup "", fun _ _ hnull => hnull⟩)

/-- A fresh coordinator has no record. -/
theorem create_tracked {config : KVCacheConfig} {pool : BlockPool} (h : pool.Holds 0) :
    (create config pool).Tracked where
  tidy :=
    { sound := GroupCoordinator.create_sound h
      single := fun b hb _ => by
        have hzero : (pool.blocks b).refCnt = 0 := h.ref b hb
        exact hzero.le.trans (Nat.zero_le 1)
      distinct := fun rid blocks hblocks => by
        rw [GroupCoordinator.blockIds_of_none rfl hblocks]
        exact List.nodup_nil
      bounded := fun rid i blocks start _ hs => GroupCoordinator.bounded_of_none rfl i blocks start hs }
  recorded rid t ht := absurd ht List.not_mem_nil
  nodup rid := List.nodup_nil
  once rid group position := ⟨Nat.zero_le 1, fun h => by cases h⟩

/-- **Over the life of a request.** In every state that calls on growing chains reach,
`cache_blocks` returns, and its report is exact if and only if the call is clean; no report was made
twice; and `remove_skipped_blocks` gives back entries that no later query reads, each of them
once. -/
theorem run_reports {numBlocks blockSize : Nat} {caching : Bool} {pool : BlockPool}
    (hcreate : BlockPool.create numBlocks blockSize caching = .ok pool) {config : KVCacheConfig}
    {calls : List Call} (hrun : Run (Guarded Step Chained) (create config pool) calls world)
    (rid : RequestId) (blockHashes : List BlockHash) (numComputedTokens : Nat) :
    (∃ fresh coord', world.coord.cacheBlocks rid blockHashes numComputedTokens = .ok (fresh, coord') ∧
      (world.coord.Exact coord' rid fresh ↔ world.coord.Clean rid blockHashes numComputedTokens)) ∧
    (world.reports rid).Nodup ∧
    (∃ coord', world.coord.removeSkippedBlocks rid numComputedTokens = .ok coord' ∧
      world.coord.Released coord' rid numComputedTokens) ∧
    ∀ group position, world.released rid group position ≤ 1 := by
  have h : world.Tracked := hrun.invariant
    (fun _ _ _ h hstep => step_tracked h hstep.2 hstep.1)
    (create_tracked (BlockPool.create_holds hcreate).1)
  obtain ⟨fresh, coord', hok, hsound, hindexed, -⟩ :=
    GroupCoordinator.cacheBlocks_ok h.tidy.sound rid blockHashes numComputedTokens
  obtain ⟨after, hskip, -, hskipped⟩ :=
    GroupCoordinator.removeSkippedBlocks_ok h.tidy.sound rid numComputedTokens
  exact ⟨⟨fresh, coord', hok, hindexed.exact_iff h.tidy hsound⟩, h.nodup rid,
    ⟨after, hskip, hskipped.released h.tidy⟩, fun group position => (h.once rid group position).1⟩

/-- A request that was just admitted. -/
theorem run_reports_admitted : ∃ pool world, BlockPool.create 8 16 true = .ok pool ∧
    Run (Guarded Step Chained) (create KVCacheConfig.denseAndWindowed pool)
      [.allocate "a" 48 none] world ∧
    (∃ fresh coord', world.coord.cacheBlocks "a" [11, 12] 32 = .ok (fresh, coord') ∧
      (world.coord.Exact coord' "a" fresh ↔ world.coord.Clean "a" [11, 12] 32)) ∧
    (world.reports "a").Nodup ∧
    (∃ coord', world.coord.removeSkippedBlocks "a" 32 = .ok coord' ∧
      world.coord.Released coord' "a" 32) ∧
    ∀ group position, world.released "a" group position ≤ 1 := by
  have hok : (BlockPool.create 8 16 true >>= fun pool =>
      [Call.allocate "a" 48 none].foldlM step (create KVCacheConfig.denseAndWindowed pool)).isOk =
      true := by decide +kernel
  obtain ⟨world, hworld⟩ := ok_of_isOk hok
  obtain ⟨pool, hcreate, hfold⟩ := bind_eq_ok.mp hworld
  have hrun : Run (Guarded Step Chained) (create KVCacheConfig.denseAndWindowed pool)
      [.allocate "a" 48 none] world := (Run.of_foldlM hfold).guarded fun world call hcall => by
    rw [List.mem_singleton.mp hcall]
    exact trivial
  exact ⟨pool, world, hcreate, hrun, run_reports hcreate hrun "a" [11, 12] 32⟩

/-- The request is indexed once its window has passed the blocks: two null blocks are reported. -/
theorem windowed_reports_null : ∃ pool world fresh coord', BlockPool.create 8 16 true = .ok pool ∧
    Run (Guarded Step Chained) (create KVCacheConfig.denseAndWindowed pool)
      [.allocate "a" 48 none, .removeSkippedBlocks "a" 48] world ∧
    world.coord.cacheBlocks "a" [11, 12, 13] 48 = .ok (fresh, coord') ∧
    (1, nullBlockId, 11) ∈ fresh ∧ ¬ world.coord.Exact coord' "a" fresh := by
  have hval : (BlockPool.create 8 16 true >>= fun pool =>
      [Call.allocate "a" 48 none, .removeSkippedBlocks "a" 48].foldlM step
        (create KVCacheConfig.denseAndWindowed pool) >>= fun world =>
      world.coord.cacheBlocks "a" [11, 12, 13] 48 >>= fun reported =>
      (Except.ok (decide ((1, nullBlockId, 11) ∈ reported.1)) : Except Raised Bool)) =
      .ok true := by decide +kernel
  obtain ⟨pool, hcreate, hval⟩ := bind_eq_ok.mp hval
  obtain ⟨world, hfold, hval⟩ := bind_eq_ok.mp hval
  obtain ⟨⟨fresh, coord'⟩, hcache, hval⟩ := bind_eq_ok.mp hval
  have hmem : (1, nullBlockId, 11) ∈ fresh := of_decide_eq_true (Except.ok.inj hval)
  have hrun : Run (Guarded Step Chained) (create KVCacheConfig.denseAndWindowed pool)
      [.allocate "a" 48 none, .removeSkippedBlocks "a" 48] world :=
    (Run.of_foldlM hfold).guarded fun world call hcall => by
      rcases List.mem_cons.mp hcall with rfl | hcall
      · exact trivial
      · rw [List.mem_singleton.mp hcall]
        exact trivial
  exact ⟨pool, world, fresh, coord', hcreate, hrun, hcache, hmem, fun hexact =>
    ((hexact _).mp hmem).1 rfl⟩

end ReportWorld

end RapidLlm
