import RapidLlm.Engine.GroupCoordinator

/-!
# RapidLlm.Engine.GroupIndexing

The loops of `cache_blocks` and `remove_skipped_blocks` over the groups of a request.

* `dueGroups` are the entries that one call of `cache_blocks` offers for indexing, from each group's
  cursor on; `hashAfter` says which hashes the blocks carry then. `cacheGroups_ok` computes the
  loop.
* `skippedGroups` are the lists once the blocks below the windows are given back; `skipGroups_ok`
  computes the loop that does it.
-/

namespace RapidLlm

/-! ### Indexing -/

namespace BlockPool

/-- The hash of a block once these entries were offered for indexing: the one it has, else the first
it is offered with. -/
def hashAfter (pool : BlockPool) (entries : List (BlockId × BlockHash)) (b : BlockId) :
    Option BlockHash :=
  match pool.hashOf b with
  | some hash => some hash
  | none =>
    if pool.enableCaching = true ∧ b ≠ nullBlockId then
      (entries.find? fun entry => decide (entry.1 = b)).map Prod.snd
    else none

variable {pool pool' : BlockPool} {held : Multiset BlockId} {b : BlockId}

theorem hashAfter_of_some {hash : BlockHash} (h : pool.hashOf b = some hash)
    (entries : List (BlockId × BlockHash)) : pool.hashAfter entries b = some hash := by
  simp [hashAfter, h]

theorem hashAfter_of_none (h : pool.hashOf b = none) (entries : List (BlockId × BlockHash)) :
    pool.hashAfter entries b = if pool.enableCaching = true ∧ b ≠ nullBlockId then
      (entries.find? fun entry => decide (entry.1 = b)).map Prod.snd else none := by
  simp [hashAfter, h]

theorem hashAfter_nil (pool : BlockPool) (b : BlockId) : pool.hashAfter [] b = pool.hashOf b := by
  cases h : pool.hashOf b with
  | some hash => rw [hashAfter_of_some h]
  | none => simp [hashAfter_of_none h]

/-- Offering more entries later. -/
theorem hashAfter_append {entries : List (BlockId × BlockHash)}
    (h : ∀ b, pool'.hashOf b = pool.hashAfter entries b) (hgeo : pool'.geometry = pool.geometry)
    (more : List (BlockId × BlockHash)) (b : BlockId) :
    pool'.hashAfter more b = pool.hashAfter (entries ++ more) b := by
  have hcaching : pool'.enableCaching = pool.enableCaching := congrArg (·.2.2) hgeo
  cases hb : pool.hashOf b with
  | some hash =>
    rw [hashAfter_of_some hb, hashAfter_of_some ((h b).trans (hashAfter_of_some hb _))]
  | none =>
    have hb' := h b
    rw [hashAfter_of_none hb] at hb' ⊢
    by_cases hreal : pool.enableCaching = true ∧ b ≠ nullBlockId
    · rw [if_pos hreal] at hb' ⊢
      rw [List.find?_append]
      cases hfind : entries.find? fun entry => decide (entry.1 = b) with
      | some entry =>
        rw [hfind, Option.map_some] at hb'
        rw [hashAfter_of_some hb', Option.some_or, Option.map_some]
      | none =>
        rw [hfind, Option.map_none] at hb'
        rw [hashAfter_of_none hb', hcaching, if_pos hreal, Option.none_or]
    · rw [if_neg hreal] at hb' ⊢
      rw [hashAfter_of_none hb', hcaching, if_neg hreal]

/-- Indexing one block, as an offer of one entry. -/
theorem cacheFullBlock_after (h : pool.Holds held) (hon : pool.enableCaching = true)
    {entry : BlockId × BlockHash} (hb : entry.1 ≠ nullBlockId → entry.1 ∈ held) :
    (pool.cacheFullBlock entry.1 entry.2).Holds held ∧
      ∀ b, (pool.cacheFullBlock entry.1 entry.2).hashOf b = pool.hashAfter [entry] b := by
  by_cases hnull : entry.1 = nullBlockId
  · have hskip : pool.cacheFullBlock entry.1 entry.2 = pool := by
      rw [cacheFullBlock, if_pos (.inl hnull)]
    rw [hskip]
    refine ⟨h, fun b => ?_⟩
    cases hhash : pool.hashOf b with
    | some hash => rw [hashAfter_of_some hhash]
    | none =>
      rw [hashAfter_of_none hhash]
      split
      · rename_i hreal
        rw [List.find?_cons_of_neg (by simpa [hnull] using Ne.symm hreal.2), List.find?_nil]
        rfl
      · rfl
  · refine ⟨h.cacheFullBlock hon (hb hnull) entry.2, fun b => ?_⟩
    rw [hashOf_cacheFullBlock hnull]
    cases hhash : pool.hashOf b with
    | some hash =>
      rw [hashAfter_of_some hhash, if_neg]
      rintro ⟨rfl, hnone⟩
      rw [hhash] at hnone
      cases hnone
    | none =>
      rw [hashAfter_of_none hhash]
      by_cases hbe : b = entry.1
      · rw [if_pos ⟨hbe, hbe ▸ hhash⟩, if_pos ⟨hon, hbe ▸ hnull⟩,
          List.find?_cons_of_pos (by simp [hbe]), Option.map_some]
      · rw [if_neg fun heq => hbe heq.1, List.find?_cons_of_neg (by simpa using Ne.symm hbe),
          List.find?_nil]
        simp

/-- Indexing a list, null entries included: the hashes after it are those offered. -/
theorem cacheFullBlocks_after (h : pool.Holds held) {bs : List BlockId} {hashes : List BlockHash}
    (hlen : bs.length = hashes.length) (hbs : ∀ b ∈ bs, b ≠ nullBlockId → b ∈ held) :
    ∃ pool', pool.cacheFullBlocks bs hashes = .ok pool' ∧ pool'.Holds held ∧
      pool'.geometry = pool.geometry ∧ ∀ b, pool'.hashOf b = pool.hashAfter (bs.zip hashes) b := by
  by_cases hon : pool.enableCaching = true
  swap
  · refine ⟨pool, by simp [cacheFullBlocks, hon], h, rfl, fun b => ?_⟩
    rw [hashAfter_of_none (h.index_off (by simpa using hon) b), if_neg fun hreal => hon hreal.1]
    exact h.index_off (by simpa using hon) b
  have hfold : ∀ (entries : List (BlockId × BlockHash)) (p : BlockPool), p.Holds held →
      p.enableCaching = true → (∀ entry ∈ entries, entry.1 ≠ nullBlockId → entry.1 ∈ held) →
      let p' := entries.foldl (fun pool entry => pool.cacheFullBlock entry.1 entry.2) p
      p'.Holds held ∧ p'.geometry = p.geometry ∧ ∀ b, p'.hashOf b = p.hashAfter entries b := by
    intro entries
    induction entries with
    | nil => exact fun p hp _ _ => ⟨hp, rfl, fun b => (hashAfter_nil p b).symm⟩
    | cons entry entries ih =>
      intro p hp hcache hmem
      obtain ⟨hholds, hhash⟩ := cacheFullBlock_after hp hcache (hmem entry List.mem_cons_self)
      obtain ⟨hgeo, -⟩ := cacheFullBlock_frame p entry.1 entry.2
      have hcache' : (p.cacheFullBlock entry.1 entry.2).enableCaching = true :=
        (congrArg (·.2.2) hgeo).trans hcache
      obtain ⟨hholds', hgeo', hhash'⟩ := ih _ hholds hcache' fun e he =>
        hmem e (List.mem_cons_of_mem _ he)
      exact ⟨hholds', hgeo'.trans hgeo, fun b =>
        (hhash' b).trans (hashAfter_append hhash hgeo entries b)⟩
  refine ⟨_, by simp [cacheFullBlocks, hon, hlen], hfold (bs.zip hashes) pool h hon ?_⟩
  exact fun entry hentry => hbs _ (List.of_mem_zip hentry).1

end BlockPool

/-- The whole blocks below the tokens computed, as far as the chain goes. -/
def wholeBlocks (spec : GroupSpec) (hashes : List BlockHash) (numComputedTokens : Nat) : Nat :=
  min (numComputedTokens / spec.blockSize) hashes.length

/-- The part of a list that one call of `cache_blocks` offers for indexing: from the cursor up to
the last whole block, if the list reaches that far. -/
def dueBlocks (spec : GroupSpec) (hashes : List BlockHash) (numComputedTokens : Nat)
    (blocks : List BlockId) (start : Nat) : List (BlockId × BlockHash) :=
  let full := wholeBlocks spec hashes numComputedTokens
  if full ≤ blocks.length then
    ((blocks.take full).drop start).zip ((hashes.take full).drop start)
  else []

/-- Where the cursor stands after the call. -/
def cursorAfter (spec : GroupSpec) (hashes : List BlockHash) (numComputedTokens : Nat)
    (blocks : List BlockId) (start : Nat) : Nat :=
  let full := wholeBlocks spec hashes numComputedTokens
  if start < full ∧ full ≤ blocks.length then full else start

/-- The entries of a group that gain a hash: those whose block has none. -/
def gainedOf (pool : BlockPool) (index : Nat) (entries : List (BlockId × BlockHash)) :
    List (Nat × BlockId × BlockHash) :=
  (entries.filter fun entry => (pool.hashOf entry.1).isNone).map fun entry => (index, entry.1, entry.2)

theorem mem_dueBlocks {spec : GroupSpec} {hashes : List BlockHash} {numComputedTokens : Nat}
    {blocks : List BlockId} {start : Nat} {entry : BlockId × BlockHash}
    (h : entry ∈ dueBlocks spec hashes numComputedTokens blocks start) :
    ∃ j, start ≤ j ∧ j < cursorAfter spec hashes numComputedTokens blocks start ∧
      blocks[j]? = some entry.1 ∧ hashes[j]? = some entry.2 := by
  unfold dueBlocks at h
  dsimp only at h
  split at h
  · rename_i hle
    obtain ⟨i, hi⟩ := List.mem_iff_getElem?.mp h
    rw [List.getElem?_zip_eq_some] at hi
    obtain ⟨hblock, hhash⟩ := hi
    rw [List.getElem?_drop, List.getElem?_take] at hblock hhash
    split at hblock
    · rename_i hlt
      rw [if_pos hlt] at hhash
      refine ⟨start + i, by omega, ?_, hblock, hhash⟩
      rw [cursorAfter, if_pos ⟨by omega, hle⟩]
      exact hlt
    · cases hblock
  · cases h

/-- One round of the loop of `cache_blocks`. -/
theorem cacheGroup_ok {pool : BlockPool} {held : Multiset BlockId} (h : pool.Holds held)
    (index : Nat) (spec : GroupSpec) (hashes : List BlockHash) (numComputedTokens : Nat)
    {blocks : List BlockId} (hbs : ∀ b ∈ blocks, b ≠ nullBlockId → b ∈ held) (start : Nat) :
    ∃ pool', cacheGroup index spec hashes numComputedTokens blocks start pool =
        .ok (gainedOf pool index (dueBlocks spec hashes numComputedTokens blocks start), pool',
          cursorAfter spec hashes numComputedTokens blocks start) ∧
      pool'.Holds held ∧ pool'.geometry = pool.geometry ∧ ∀ b, pool'.hashOf b =
        pool.hashAfter (dueBlocks spec hashes numComputedTokens blocks start) b := by
  have hfl : wholeBlocks spec hashes numComputedTokens ≤ hashes.length := Nat.min_le_right _ _
  have hfull : min (numComputedTokens / spec.blockSize) hashes.length =
      wholeBlocks spec hashes numComputedTokens := rfl
  unfold cacheGroup dueBlocks cursorAfter
  simp only [hfull]
  generalize wholeBlocks spec hashes numComputedTokens = full at hfl
  have hidle : ∀ due : List (BlockId × BlockHash), due = [] →
      gainedOf pool index due = [] ∧ ∀ b, pool.hashOf b = pool.hashAfter due b := by
    rintro _ rfl
    exact ⟨rfl, fun b => (BlockPool.hashAfter_nil pool b).symm⟩
  by_cases hdone : full ≤ start
  · have hnil : (if full ≤ blocks.length then
        ((blocks.take full).drop start).zip ((hashes.take full).drop start) else []) = [] := by
      have htake : (blocks.take full).drop start = [] := by
        rw [List.drop_eq_nil_iff, List.length_take]
        omega
      rw [htake, List.zip_nil_left, ite_self]
    obtain ⟨hgained, hhash⟩ := hidle _ hnil
    rw [if_pos hdone, hgained, if_neg fun hlt => Nat.not_lt.mpr hdone hlt.1]
    exact ⟨pool, rfl, h, rfl, hhash⟩
  by_cases hreach : full ≤ blocks.length
  swap
  · obtain ⟨hgained, hhash⟩ := hidle _ (if_neg hreach)
    have hshort : ((blocks.take full).drop start).length < full - start := by
      rw [List.length_drop, List.length_take]
      omega
    rw [if_neg hdone, if_pos hshort, hgained, if_neg fun hlt => hreach hlt.2]
    exact ⟨pool, rfl, h, rfl, hhash⟩
  have hlong : ¬((blocks.take full).drop start).length < full - start := by
    rw [List.length_drop, List.length_take]
    omega
  have hlen : ((blocks.take full).drop start).length = ((hashes.take full).drop start).length := by
    rw [List.length_drop, List.length_take, List.length_drop, List.length_take]
    omega
  obtain ⟨pool', hcache, hholds, hgeo, hhash⟩ := BlockPool.cacheFullBlocks_after h hlen fun b hb =>
    hbs b (List.mem_of_mem_take (List.mem_of_mem_drop hb))
  rw [if_neg hdone, if_neg hlong, if_pos hreach, if_pos ⟨Nat.not_le.mp hdone, hreach⟩]
  refine ⟨pool', ?_, hholds, hgeo, hhash⟩
  rw [hcache]
  rfl

/-- What one call of `cache_blocks` offers for indexing, over all groups. -/
def dueGroups (config : KVCacheConfig) (blockHashes : List BlockHash) (numComputedTokens : Nat) :
    Nat → List GroupSpec → List (List BlockId) → List Nat → List (Nat × BlockId × BlockHash)
  | index, spec :: groups, blocks :: perGroup, start :: numCached =>
    (dueBlocks spec (config.hashesOf spec blockHashes) numComputedTokens blocks start).map
        (fun entry => (index, entry.1, entry.2)) ++
      dueGroups config blockHashes numComputedTokens (index + 1) groups perGroup numCached
  | _, _, _, _ => []

/-- Where the cursors stand after the call. -/
def cursorsAfter (config : KVCacheConfig) (blockHashes : List BlockHash) (numComputedTokens : Nat) :
    List GroupSpec → List (List BlockId) → List Nat → List Nat
  | spec :: groups, blocks :: perGroup, start :: numCached =>
    cursorAfter spec (config.hashesOf spec blockHashes) numComputedTokens blocks start ::
      cursorsAfter config blockHashes numComputedTokens groups perGroup numCached
  | _, _, numCached => numCached

section Loop

variable {config : KVCacheConfig} {blockHashes : List BlockHash} {numComputedTokens : Nat}

theorem cursorsAfter_length : ∀ (groups : List GroupSpec) (perGroup : List (List BlockId))
    (numCached : List Nat),
    (cursorsAfter config blockHashes numComputedTokens groups perGroup numCached).length =
      numCached.length
  | [], _, _ => rfl
  | _ :: _, [], _ => rfl
  | _ :: _, _ :: _, [] => rfl
  | _ :: groups, _ :: perGroup, _ :: numCached =>
    congrArg Nat.succ (cursorsAfter_length groups perGroup numCached)

theorem cursorsAfter_getElem? : ∀ {groups : List GroupSpec} {perGroup : List (List BlockId)}
    {numCached : List Nat} {i : Nat} {spec : GroupSpec} {blocks : List BlockId} {start : Nat},
    groups[i]? = some spec → perGroup[i]? = some blocks → numCached[i]? = some start →
    (cursorsAfter config blockHashes numComputedTokens groups perGroup numCached)[i]? =
      some (cursorAfter spec (config.hashesOf spec blockHashes) numComputedTokens blocks start)
  | _ :: _, _ :: _, _ :: _, 0, _, _, _, hg, hb, hn => by
      cases hg
      cases hb
      cases hn
      rfl
  | _ :: _, _ :: _, _ :: _, i + 1, _, _, _, hg, hb, hn => by
      rw [List.getElem?_cons_succ] at hg hb hn
      rw [cursorsAfter, List.getElem?_cons_succ]
      exact cursorsAfter_getElem? hg hb hn

/-- An entry that is due is one of its group's. -/
theorem mem_dueGroups : ∀ {index : Nat} {groups : List GroupSpec} {perGroup : List (List BlockId)}
    {numCached : List Nat} {t : Nat × BlockId × BlockHash},
    t ∈ dueGroups config blockHashes numComputedTokens index groups perGroup numCached ↔
      ∃ i spec blocks start, t.1 = index + i ∧ groups[i]? = some spec ∧ perGroup[i]? = some blocks ∧
        numCached[i]? = some start ∧
        t.2 ∈ dueBlocks spec (config.hashesOf spec blockHashes) numComputedTokens blocks start
  | index, [], perGroup, numCached, t => by simp [dueGroups]
  | index, _ :: _, [], numCached, t => by simp [dueGroups]
  | index, _ :: _, _ :: _, [], t => by simp [dueGroups]
  | index, spec :: groups, blocks :: perGroup, start :: numCached, t => by
      rw [dueGroups, List.mem_append, mem_dueGroups]
      constructor
      · rintro (hhead | ⟨i, spec', blocks', start', hindex, hg, hb, hn, hdue⟩)
        · obtain ⟨entry, hentry, rfl⟩ := List.mem_map.mp hhead
          exact ⟨0, spec, blocks, start, rfl, rfl, rfl, rfl, hentry⟩
        · exact ⟨i + 1, spec', blocks', start', by omega, hg, hb, hn, hdue⟩
      · rintro ⟨i, spec', blocks', start', hindex, hg, hb, hn, hdue⟩
        cases i with
        | zero =>
          cases hg
          cases hb
          cases hn
          exact .inl (List.mem_map.mpr ⟨t.2, hdue, by rw [← Nat.add_zero index, ← hindex]⟩)
        | succ i => exact .inr ⟨i, spec', blocks', start', by omega, hg, hb, hn, hdue⟩

/-- The loop of `cache_blocks`: it offers what is due, and where no block without a hash stands
twice in the lists, it reports the due entries whose block had none. -/
theorem cacheGroups_ok {held : Multiset BlockId} : ∀ (index : Nat) {groups : List GroupSpec}
    {perGroup : List (List BlockId)} (numCached : List Nat) {pool : BlockPool}, pool.Holds held →
    (∀ spec ∈ groups, spec ∈ config.groups) →
    (∀ b ∈ perGroup.flatten, b ≠ nullBlockId → b ∈ held) →
    ∃ fresh pool', cacheGroups blockHashes config.hashBlockSize numComputedTokens index groups perGroup
        numCached pool =
        .ok (fresh, pool', cursorsAfter config blockHashes numComputedTokens groups perGroup numCached) ∧
      pool'.Holds held ∧ pool'.geometry = pool.geometry ∧
      (∀ b, pool'.hashOf b = pool.hashAfter ((dueGroups config blockHashes numComputedTokens index groups
        perGroup numCached).map Prod.snd) b) ∧
      ((∀ b, pool.hashOf b = none → (realBlocks perGroup.flatten).count b ≤ 1) →
        fresh = (dueGroups config blockHashes numComputedTokens index groups perGroup numCached).filter
          fun t => (pool.hashOf t.2.1).isNone)
  | index, [], perGroup, numCached, pool, h, _, _ =>
    ⟨[], pool, rfl, h, rfl, fun b => (BlockPool.hashAfter_nil pool b).symm, fun _ => rfl⟩
  | index, _ :: _, [], numCached, pool, h, _, _ =>
    ⟨[], pool, rfl, h, rfl, fun b => (BlockPool.hashAfter_nil pool b).symm, fun _ => rfl⟩
  | index, _ :: _, _ :: _, [], pool, h, _, _ =>
    ⟨[], pool, rfl, h, rfl, fun b => (BlockPool.hashAfter_nil pool b).symm, fun _ => rfl⟩
  | index, spec :: groups, blocks :: perGroup, start :: numCached, pool, h, hgroups, hbs => by
      rw [List.flatten_cons] at hbs
      obtain ⟨p₁, hp₁, hh₁, hg₁, hk₁⟩ := cacheGroup_ok h index spec (config.hashesOf spec blockHashes)
        numComputedTokens (fun b hb => hbs b (List.mem_append_left _ hb)) start
      obtain ⟨fresh, p₂, hp₂, hh₂, hg₂, hk₂, hfresh⟩ := cacheGroups_ok (index + 1) numCached
        hh₁ (fun spec hspec => hgroups spec (List.mem_cons_of_mem _ hspec))
        fun b hb => hbs b (List.mem_append_right _ hb)
      have hhashes := config.groupBlockHashes_ok (hgroups spec List.mem_cons_self) blockHashes
      refine ⟨gainedOf pool index (dueBlocks spec (config.hashesOf spec blockHashes) numComputedTokens
        blocks start) ++ fresh, p₂, ?_, hh₂, hg₂.trans hg₁, fun b => ?_, fun hsingle => ?_⟩
      · simp only [cacheGroups, hhashes, ok_bind, hp₁, hp₂, pure_eq_ok]
        rfl
      · rw [hk₂, BlockPool.hashAfter_append hk₁ hg₁, dueGroups, List.map_append, List.map_map]
        congr 2
        exact (List.map_id _).symm
      · have hcount : ∀ b, pool.hashOf b = none →
            (realBlocks blocks).count b + (realBlocks perGroup.flatten).count b ≤ 1 := by
          intro b hb
          have := hsingle b hb
          rwa [List.flatten_cons, realBlocks_append, List.count_append] at this
        have hnone : ∀ b, p₁.hashOf b = none → pool.hashOf b = none := by
          intro b hb
          cases hpb : pool.hashOf b with
          | none => rfl
          | some hash => rw [hk₁, BlockPool.hashAfter_of_some hpb] at hb; cases hb
        rw [hfresh fun b hb => by have := hcount b (hnone b hb); omega, dueGroups, List.filter_append,
          gainedOf, List.filter_map]
        refine congrArg _ (List.filter_congr fun t ht => ?_)
        -- a block of a later group gained nothing from this one
        obtain ⟨i, spec', blocks', start', -, -, hblocks', -, hdue⟩ := mem_dueGroups.mp ht
        obtain ⟨j, -, -, hj, -⟩ := mem_dueBlocks hdue
        have hlater : t.2.1 ∈ perGroup.flatten := List.mem_flatten.mpr
          ⟨blocks', List.mem_of_getElem? hblocks', List.mem_of_getElem? hj⟩
        cases hpb : pool.hashOf t.2.1 with
        | some hash => rw [hk₁, BlockPool.hashAfter_of_some hpb]
        | none =>
          rw [hk₁, BlockPool.hashAfter_of_none hpb]
          split
          · rename_i hreal
            cases hfind : (dueBlocks spec (config.hashesOf spec blockHashes) numComputedTokens blocks
                start).find? fun entry => decide (entry.1 = t.2.1) with
            | none => rfl
            | some entry =>
              have heq : entry.1 = t.2.1 := by simpa using List.find?_some hfind
              obtain ⟨j', -, -, hj', -⟩ := mem_dueBlocks (List.mem_of_find?_eq_some hfind)
              have hone : 0 < (realBlocks blocks).count t.2.1 := List.count_pos_iff.mpr
                (mem_realBlocks.mpr ⟨heq ▸ List.mem_of_getElem? hj', hreal.2⟩)
              have htwo : 0 < (realBlocks perGroup.flatten).count t.2.1 := List.count_pos_iff.mpr
                (mem_realBlocks.mpr ⟨hlater, hreal.2⟩)
              have := hcount _ hpb
              omega
          · rfl

end Loop

/-! ### The window moves on -/

/-- A list once the blocks below the window are given back. -/
def skipped (spec : GroupSpec) (numComputedTokens : Nat) (blocks : List BlockId) : List BlockId :=
  if spec.window = 0 then blocks
  else
    let keepFrom := min ((numComputedTokens - spec.window) / spec.blockSize) blocks.length
    List.replicate keepFrom nullBlockId ++ blocks.drop keepFrom

/-- The lists of a request once the blocks below the windows are given back. -/
def skippedGroups (numComputedTokens : Nat) : List GroupSpec → List (List BlockId) → List (List BlockId)
  | spec :: groups, blocks :: perGroup =>
    skipped spec numComputedTokens blocks :: skippedGroups numComputedTokens groups perGroup
  | _, perGroup => perGroup

theorem skipped_length (spec : GroupSpec) (numComputedTokens : Nat) (blocks : List BlockId) :
    (skipped spec numComputedTokens blocks).length = blocks.length := by
  unfold skipped
  split
  · rfl
  · rw [List.length_append, List.length_replicate, List.length_drop]
    omega

theorem realBlocks_replicate (n : Nat) : realBlocks (List.replicate n nullBlockId) = [] := by
  rw [realBlocks, List.filter_eq_nil_iff]
  intro b hb
  simp [List.eq_of_mem_replicate hb]

/-- One round of the loop of `remove_skipped_blocks`. -/
theorem skipGroup_ok {pool : BlockPool} {others : Multiset BlockId} {blocks : List BlockId}
    (h : pool.Holds ((realBlocks blocks : Multiset BlockId) + others)) (spec : GroupSpec)
    (numComputedTokens : Nat) :
    ∃ pool', skipGroup spec numComputedTokens blocks pool =
        .ok (skipped spec numComputedTokens blocks, pool') ∧
      pool'.Holds ((realBlocks (skipped spec numComputedTokens blocks) : Multiset BlockId) + others) ∧
      pool'.geometry = pool.geometry ∧ ∀ b, pool'.hashOf b = pool.hashOf b := by
  unfold skipGroup skipped
  by_cases hwindow : spec.window = 0
  · rw [if_pos hwindow, if_pos hwindow]
    exact ⟨pool, rfl, h, rfl, fun _ => rfl⟩
  rw [if_neg hwindow, if_neg hwindow]
  dsimp only
  have hle : min ((numComputedTokens - spec.window) / spec.blockSize) blocks.length ≤ blocks.length :=
    Nat.min_le_right _ _
  generalize min ((numComputedTokens - spec.window) / spec.blockSize) blocks.length = keepFrom at hle
  have hdead : ((blocks.take keepFrom).filter fun b => decide (b ≠ nullBlockId)) =
      realBlocks (blocks.take keepFrom) := rfl
  rw [hdead]
  have hsplit : realBlocks blocks =
      realBlocks (blocks.take keepFrom) ++ realBlocks (blocks.drop keepFrom) := by
    rw [← realBlocks_append, List.take_append_drop]
  have hrest : realBlocks (List.replicate keepFrom nullBlockId ++ blocks.drop keepFrom) =
      realBlocks (blocks.drop keepFrom) := by
    rw [realBlocks_append, realBlocks_replicate, List.nil_append]
  by_cases hnil : realBlocks (blocks.take keepFrom) = []
  · -- the dead entries are null already
    have hnull : ∀ b ∈ blocks.take keepFrom, b = nullBlockId := fun b hb => by
      by_contra hne
      have := mem_realBlocks.mpr ⟨hb, hne⟩
      rw [hnil] at this
      cases this
    have htake : blocks.take keepFrom = List.replicate keepFrom nullBlockId := by
      rw [List.eq_replicate_of_mem hnull, List.length_take, Nat.min_eq_left hle]
    have hsame : List.replicate keepFrom nullBlockId ++ blocks.drop keepFrom = blocks := by
      rw [← htake, List.take_append_drop]
    rw [if_pos hnil, hsame]
    exact ⟨pool, rfl, h, rfl, fun _ => rfl⟩
  · rw [if_neg hnil, hrest]
    rw [hsplit, ← Multiset.coe_add, add_assoc, add_comm,
      ← Multiset.coe_reverse (realBlocks (blocks.take keepFrom))] at h
    obtain ⟨pool', hfree, hholds, hgeo, -, hhash⟩ := BlockPool.freeBlocks_ok _ h
    exact ⟨pool', by rw [hfree]; rfl, hholds, hgeo, hhash⟩

theorem skippedGroups_length : ∀ (numComputedTokens : Nat) (groups : List GroupSpec)
    (perGroup : List (List BlockId)),
    (skippedGroups numComputedTokens groups perGroup).length = perGroup.length
  | _, [], _ => rfl
  | _, _ :: _, [] => rfl
  | n, _ :: groups, _ :: perGroup => congrArg Nat.succ (skippedGroups_length n groups perGroup)

theorem skippedGroups_getElem? : ∀ {numComputedTokens : Nat} {groups : List GroupSpec}
    {perGroup : List (List BlockId)} {i : Nat} {spec : GroupSpec} {blocks : List BlockId},
    groups[i]? = some spec → perGroup[i]? = some blocks →
    (skippedGroups numComputedTokens groups perGroup)[i]? = some (skipped spec numComputedTokens blocks)
  | _, _ :: _, _ :: _, 0, _, _, hg, hb => by
      cases hg
      cases hb
      rfl
  | _, _ :: _, _ :: _, i + 1, _, _, hg, hb => by
      rw [List.getElem?_cons_succ] at hg hb
      rw [skippedGroups, List.getElem?_cons_succ]
      exact skippedGroups_getElem? hg hb

/-- Lists keep their lengths, so a request keeps blocks in all of them or in none. -/
theorem skippedGroups_even (numComputedTokens : Nat) {groups : List GroupSpec}
    {perGroup : List (List BlockId)} (hlen : perGroup.length = groups.length) (h : AllOrNone perGroup) :
    AllOrNone (skippedGroups numComputedTokens groups perGroup) := by
  have hlist : ∀ blocks ∈ skippedGroups numComputedTokens groups perGroup,
      ∃ own ∈ perGroup, blocks.length = own.length := by
    intro blocks hblocks
    obtain ⟨i, hi⟩ := List.mem_iff_getElem?.mp hblocks
    have hlt : i < perGroup.length := by
      have := (List.getElem?_eq_some_iff.mp hi).1
      rwa [skippedGroups_length] at this
    have hown := List.getElem?_eq_getElem hlt
    have hspec := List.getElem?_eq_getElem (hlen ▸ hlt)
    rw [skippedGroups_getElem? hspec hown] at hi
    exact ⟨perGroup[i], List.getElem_mem hlt, by rw [← Option.some.inj hi, skipped_length]⟩
  rcases h with h | h
  · left
    intro blocks hblocks
    obtain ⟨own, hown, heq⟩ := hlist blocks hblocks
    rw [h own hown, List.length_nil] at heq
    exact List.length_eq_zero_iff.mp heq
  · right
    intro blocks hblocks hnil
    obtain ⟨own, hown, heq⟩ := hlist blocks hblocks
    rw [hnil, List.length_nil] at heq
    exact h own hown (List.length_eq_zero_iff.mp heq.symm)

/-- The loop of `remove_skipped_blocks`. -/
theorem skipGroups_ok (numComputedTokens : Nat) : ∀ (groups : List GroupSpec)
    {perGroup : List (List BlockId)} {pool : BlockPool} {others : Multiset BlockId},
    pool.Holds ((realBlocks perGroup.flatten : Multiset BlockId) + others) →
    ∃ pool', skipGroups numComputedTokens groups perGroup pool =
        .ok (skippedGroups numComputedTokens groups perGroup, pool') ∧
      pool'.Holds ((realBlocks (skippedGroups numComputedTokens groups perGroup).flatten :
        Multiset BlockId) + others) ∧
      pool'.geometry = pool.geometry ∧ ∀ b, pool'.hashOf b = pool.hashOf b
  | [], _, pool, _, h => ⟨pool, rfl, h, rfl, fun _ => rfl⟩
  | _ :: _, [], pool, _, h => ⟨pool, rfl, h, rfl, fun _ => rfl⟩
  | spec :: groups, blocks :: perGroup, pool, others, h => by
      rw [List.flatten_cons, realBlocks_append, ← Multiset.coe_add, add_assoc] at h
      obtain ⟨p₁, hp₁, hh₁, hg₁, hk₁⟩ := skipGroup_ok h spec numComputedTokens
      rw [add_left_comm] at hh₁
      obtain ⟨p₂, hp₂, hh₂, hg₂, hk₂⟩ := skipGroups_ok numComputedTokens groups hh₁
      refine ⟨p₂, ?_, ?_, hg₂.trans hg₁, fun b => (hk₂ b).trans (hk₁ b)⟩
      · simp only [skipGroups, hp₁, ok_bind, hp₂, pure_eq_ok]
        rfl
      · rw [skippedGroups, List.flatten_cons, realBlocks_append, ← Multiset.coe_add, add_assoc,
          add_left_comm]
        exact hh₂

end RapidLlm
