import RapidLlm.Engine.PrefixCache

/-!
# RapidLlm.Engine.CacheEffects

**What a call of the prefix cache did, read off the fact that it returned.** The lemmas beside the
pool and the cache start from an accounting of every reference and show that nothing raises; here
nothing is assumed of the state before. Three effects cover every call:

* `SameBlocks`: every request holds the blocks it held, and as many are free;
* `Covers rid n`: `rid` holds enough for `n` tokens, nobody else's blocks changed, and no more
  are free;
* `Releases rid`: `rid` holds nothing, nobody else's blocks changed.

A reference that is taken and given back leaves the pool as it was (`Restored`), so an allocation
that is undone is `SameBlocks`.
-/

namespace RapidLlm

namespace BlockPool

variable {pool p p₁ q q₁ : BlockPool} {b : BlockId}

/-- The null block is never free: `get_new_blocks` does not hand it out. -/
def NullHeld (pool : BlockPool) : Prop := (pool.blocks nullBlockId).refCnt ≠ 0

/-- The same references, and as many free blocks. -/
structure Restored (p q : BlockPool) : Prop where
  refCnt : ∀ b, (q.blocks b).refCnt = (p.blocks b).refCnt
  free : q.numFreeBlocks = p.numFreeBlocks

theorem Restored.refl (p : BlockPool) : Restored p p := ⟨fun _ => rfl, rfl⟩

theorem Restored.nullHeld (h : Restored p q) (hp : p.NullHeld) : q.NullHeld := by
  rw [NullHeld, h.refCnt]
  exact hp

@[simp] theorem setBlock_queue (pool : BlockPool) (b : BlockId) (value : KVCacheBlock) :
    (pool.setBlock b value).freeBlockQueue = pool.freeBlockQueue := rfl

@[simp] theorem setBlock_self (pool : BlockPool) (b : BlockId) (value : KVCacheBlock) :
    (pool.setBlock b value).blocks b = value := Function.update_self _ _ _

theorem setBlock_of_ne {b' : BlockId} (h : b' ≠ b) (pool : BlockPool) (value : KVCacheBlock) :
    (pool.setBlock b value).blocks b' = pool.blocks b' := Function.update_of_ne h _ _

/-! ### One block -/

/-- What handing out a block did. -/
theorem takeBlock_eff (h : p.takeBlock = .ok (b, p₁)) :
    (p.blocks b).refCnt = 0 ∧ (p₁.blocks b).refCnt = 1 ∧
      (∀ b' ≠ b, (p₁.blocks b').refCnt = (p.blocks b').refCnt) ∧
      p₁.numFreeBlocks + 1 = p.numFreeBlocks := by
  simp only [takeBlock, bind_eq_ok] at h
  obtain ⟨⟨front, queue⟩, hpop, h⟩ := h
  have hqueue : p.freeBlockQueue = front :: queue := by
    cases hq : p.freeBlockQueue with
    | nil => rw [hq] at hpop; cases hpop
    | cons front' rest => rw [hq] at hpop; cases hpop; rfl
  split at h
  · cases h
  rename_i href
  cases h
  obtain ⟨-, hkept, hcnt, -, -⟩ := maybeEvict_frame { p with freeBlockQueue := queue } front
  refine ⟨by simpa using href, by simp, fun b' hb => ?_, ?_⟩
  · rw [setBlock_of_ne hb]
    exact hcnt b'
  · simp only [numFreeBlocks, setBlock_queue, hkept, hqueue, List.length_cons]

/-- What a reference on a block did; the null block takes none. -/
theorem touchBlock_eff (h : p.touchBlock b = .ok p₁) :
    (b = nullBlockId ∧ p₁ = p) ∨ b ≠ nullBlockId ∧
      (p₁.blocks b).refCnt = (p.blocks b).refCnt + 1 ∧
      (∀ b' ≠ b, (p₁.blocks b').refCnt = (p.blocks b').refCnt) ∧
      p₁.numFreeBlocks + (if (p.blocks b).refCnt = 0 then 1 else 0) = p.numFreeBlocks := by
  unfold touchBlock at h
  split at h
  · rename_i hnull
    cases h
    exact .inl ⟨hnull, rfl⟩
  rename_i hnull
  obtain ⟨queue, hqueue, h⟩ := bind_eq_ok.mp h
  cases h
  refine .inr ⟨hnull, by simp, fun b' hb => by rw [setBlock_of_ne hb], ?_⟩
  by_cases href : (p.blocks b).refCnt = 0
  · rw [if_pos href] at hqueue ⊢
    unfold FreeBlockQueue.remove at hqueue
    split at hqueue
    · rename_i hmem
      cases hqueue
      have hpos := List.length_pos_of_mem hmem
      simp only [numFreeBlocks, setBlock_queue, List.length_erase_of_mem hmem]
      omega
    · cases hqueue
  · rw [if_neg href] at hqueue ⊢
    cases hqueue
    rfl

/-- What dropping a reference did. -/
theorem freeBlock_eff (h : q₁.freeBlock b = .ok q) :
    (b = nullBlockId ∧ q = q₁) ∨ b ≠ nullBlockId ∧
      (q.blocks b).refCnt + 1 = (q₁.blocks b).refCnt ∧
      (∀ b' ≠ b, (q.blocks b').refCnt = (q₁.blocks b').refCnt) ∧
      q.numFreeBlocks = q₁.numFreeBlocks + (if (q₁.blocks b).refCnt = 1 then 1 else 0) := by
  unfold freeBlock at h
  split at h
  · rename_i hnull
    cases h
    exact .inl ⟨hnull, rfl⟩
  rename_i hnull
  split at h
  · cases h
  rename_i href
  refine .inr ⟨hnull, ?_⟩
  have hothers : ∀ b' ≠ b, ((q₁.setBlock b
      { q₁.blocks b with refCnt := (q₁.blocks b).refCnt - 1 }).blocks b').refCnt =
      (q₁.blocks b').refCnt := fun b' hb => by rw [setBlock_of_ne hb]
  simp only at h
  split at h
  · rename_i hpos
    cases h
    refine ⟨?_, hothers, ?_⟩
    · simp only [setBlock_self]
      omega
    · rw [if_neg (by omega)]
      rfl
  · rename_i hzero
    have hone : (q₁.blocks b).refCnt = 1 := by omega
    split at h
    · cases h
      refine ⟨by simp [hone], hothers, ?_⟩
      simp [numFreeBlocks, FreeBlockQueue.prepend, hone]
    · cases h
      refine ⟨by simp [hone], hothers, ?_⟩
      simp [numFreeBlocks, FreeBlockQueue.append, hone]

/-- A reference taken and given back. -/
theorem restored_touch (htake : p.touchBlock b = .ok p₁) (hmid : Restored p₁ q₁)
    (hfree : q₁.freeBlock b = .ok q) : Restored p q := by
  rcases touchBlock_eff htake with ⟨hnull, rfl⟩ | ⟨hne, hself, hothers, hcount⟩
  · rcases freeBlock_eff hfree with ⟨-, rfl⟩ | ⟨hne, -⟩
    · exact hmid
    · exact absurd hnull hne
  · rcases freeBlock_eff hfree with ⟨hnull, -⟩ | ⟨-, hself', hothers', hcount'⟩
    · exact absurd hnull hne
    rw [hmid.refCnt, hself] at hself' hcount'
    constructor
    · intro b'
      by_cases hb : b' = b
      · subst hb
        omega
      · rw [hothers' b' hb, hmid.refCnt, hothers b' hb]
    · rw [hcount', hmid.free, ← hcount]
      split <;> split <;> omega

/-- A block handed out and given back. -/
theorem restored_take (hnull : p.NullHeld) (htake : p.takeBlock = .ok (b, p₁))
    (hmid : Restored p₁ q₁) (hfree : q₁.freeBlock b = .ok q) : Restored p q := by
  obtain ⟨hzero, hself, hothers, hcount⟩ := takeBlock_eff htake
  have hne : b ≠ nullBlockId := fun hb => hnull (hb ▸ hzero)
  rcases freeBlock_eff hfree with ⟨hb, -⟩ | ⟨-, hself', hothers', hcount'⟩
  · exact absurd hb hne
  rw [hmid.refCnt, hself] at hself' hcount'
  constructor
  · intro b'
    by_cases hb : b' = b
    · subst hb
      omega
    · rw [hothers' b' hb, hmid.refCnt, hothers b' hb]
  · rw [hcount', hmid.free, if_pos rfl]
    exact hcount

/-! ### Lists of blocks -/

theorem freeBlocks_singleton (b : BlockId) (p : BlockPool) : freeBlocks [b] p = p.freeBlock b := by
  rw [freeBlocks]
  cases p.freeBlock b <;> rfl

theorem restored_touches : ∀ {bs : List BlockId} {p p₁ q₁ q : BlockPool}, touch bs p = .ok p₁ →
    Restored p₁ q₁ → freeBlocks bs.reverse q₁ = .ok q → Restored p q
  | [], p, p₁, q₁, q, htake, hmid, hfree => by
      cases htake
      cases hfree
      exact hmid
  | b :: bs, p, p₁, q₁, q, htake, hmid, hfree => by
      rw [touch] at htake
      obtain ⟨p', hp', htake⟩ := bind_eq_ok.mp htake
      rw [List.reverse_cons, freeBlocks_append] at hfree
      obtain ⟨q', hq', hfree⟩ := bind_eq_ok.mp hfree
      rw [freeBlocks_singleton] at hfree
      exact restored_touch hp' (restored_touches htake hmid hq') hfree

theorem takeBlock_nullHeld (hnull : p.NullHeld) (h : p.takeBlock = .ok (b, p₁)) :
    p₁.NullHeld := by
  obtain ⟨hzero, -, hothers, -⟩ := takeBlock_eff h
  have hne : nullBlockId ≠ b := fun hb => hnull (hb ▸ hzero)
  rw [NullHeld, hothers _ hne]
  exact hnull

theorem touchBlock_nullHeld (hnull : p.NullHeld) (h : p.touchBlock b = .ok p₁) : p₁.NullHeld := by
  rcases touchBlock_eff h with ⟨-, rfl⟩ | ⟨hne, -, hothers, -⟩
  · exact hnull
  · rw [NullHeld, hothers _ hne.symm]
    exact hnull

theorem freeBlock_nullHeld (hnull : p.NullHeld) (h : p.freeBlock b = .ok p₁) : p₁.NullHeld := by
  rcases freeBlock_eff h with ⟨-, rfl⟩ | ⟨hne, -, hothers, -⟩
  · exact hnull
  · rw [NullHeld, hothers _ hne.symm]
    exact hnull

/-- What handing out blocks did. -/
theorem takeBlocks_eff : ∀ {n : Nat} {p p₁ : BlockPool} {bs : List BlockId},
    p.takeBlocks n = .ok (bs, p₁) → bs.length = n ∧ p₁.numFreeBlocks + n = p.numFreeBlocks ∧
      (p.NullHeld → p₁.NullHeld)
  | 0, p, p₁, bs, h => by
      cases h
      exact ⟨rfl, rfl, id⟩
  | n + 1, p, p₁, bs, h => by
      rw [takeBlocks] at h
      obtain ⟨⟨b, p'⟩, hb, h⟩ := bind_eq_ok.mp h
      obtain ⟨⟨rest, p''⟩, hrest, h⟩ := bind_eq_ok.mp h
      cases h
      obtain ⟨hlen, hcount, hnull⟩ := takeBlocks_eff hrest
      obtain ⟨-, -, -, hcount'⟩ := takeBlock_eff hb
      exact ⟨by simp [hlen], by omega, fun h => hnull (takeBlock_nullHeld h hb)⟩

theorem restored_takes : ∀ {n : Nat} {p p₁ q₁ q : BlockPool} {bs : List BlockId}, p.NullHeld →
    p.takeBlocks n = .ok (bs, p₁) → Restored p₁ q₁ → freeBlocks bs.reverse q₁ = .ok q →
    Restored p q
  | 0, p, p₁, q₁, q, bs, _, htake, hmid, hfree => by
      cases htake
      cases hfree
      exact hmid
  | n + 1, p, p₁, q₁, q, bs, hnull, htake, hmid, hfree => by
      rw [takeBlocks] at htake
      obtain ⟨⟨b, p'⟩, hb, htake⟩ := bind_eq_ok.mp htake
      obtain ⟨⟨rest, p''⟩, hrest, htake⟩ := bind_eq_ok.mp htake
      cases htake
      rw [List.reverse_cons, freeBlocks_append] at hfree
      obtain ⟨q', hq', hfree⟩ := bind_eq_ok.mp hfree
      rw [freeBlocks_singleton] at hfree
      exact restored_take hnull hb
        (restored_takes (takeBlock_nullHeld hnull hb) hrest hmid hq') hfree

/-- What taking references did. -/
theorem touch_eff : ∀ {bs : List BlockId} {p p₁ : BlockPool}, touch bs p = .ok p₁ →
    p₁.numFreeBlocks ≤ p.numFreeBlocks ∧ (p.NullHeld → p₁.NullHeld)
  | [], p, p₁, h => by
      cases h
      exact ⟨Nat.le_refl _, id⟩
  | b :: bs, p, p₁, h => by
      rw [touch] at h
      obtain ⟨p', hp', h⟩ := bind_eq_ok.mp h
      obtain ⟨hle, hnull⟩ := touch_eff h
      refine ⟨Nat.le_trans hle ?_, fun h => hnull (touchBlock_nullHeld h hp')⟩
      rcases touchBlock_eff hp' with ⟨-, rfl⟩ | ⟨-, -, -, hcount⟩
      · exact Nat.le_refl _
      · omega

theorem freeBlocks_nullHeld : ∀ {bs : List BlockId} {p p₁ : BlockPool}, freeBlocks bs p = .ok p₁ →
    p.NullHeld → p₁.NullHeld
  | [], p, p₁, h => by
      cases h
      exact id
  | b :: bs, p, p₁, h => by
      rw [freeBlocks] at h
      obtain ⟨p', hp', h⟩ := bind_eq_ok.mp h
      exact fun hnull => freeBlocks_nullHeld h (freeBlock_nullHeld hnull hp')

/-- What asking for blocks did: the pool is short, or they are drawn. -/
theorem getNewBlocks_eff {n : Nat} {blocks : Option (List BlockId)}
    (h : p.getNewBlocks n = .ok (blocks, p₁)) :
    (blocks = none ∧ p₁ = p ∧ p.numFreeBlocks < n) ∨
      ∃ bs, blocks = some bs ∧ p.takeBlocks n = .ok (bs, p₁) ∧ n ≤ p.numFreeBlocks := by
  unfold getNewBlocks at h
  split at h
  · rename_i hlt
    cases h
    exact .inl ⟨rfl, rfl, hlt⟩
  · rename_i hle
    obtain ⟨⟨bs, p'⟩, htake, h⟩ := bind_eq_ok.mp h
    cases h
    exact .inr ⟨bs, rfl, htake, by omega⟩

/-- Indexing blocks moves no reference. -/
theorem cacheFullBlock_refCnt (pool : BlockPool) (b : BlockId) (hash : BlockHash) (b' : BlockId) :
    ((pool.cacheFullBlock b hash).blocks b').refCnt = (pool.blocks b').refCnt := by
  unfold cacheFullBlock
  split
  · rfl
  · by_cases hb : b' = b
    · subst hb
      simp
    · simp [Function.update_of_ne hb]

theorem cacheFullBlocks_restored {bs : List BlockId} {hashes : List BlockHash}
    (h : p.cacheFullBlocks bs hashes = .ok p₁) : Restored p p₁ := by
  have hfold : ∀ (entries : List (BlockId × BlockHash)) (p : BlockPool),
      Restored p (entries.foldl (fun pool entry => pool.cacheFullBlock entry.1 entry.2) p) := by
    intro entries
    induction entries with
    | nil => exact Restored.refl
    | cons entry entries ih =>
      intro p
      have hrest := ih (p.cacheFullBlock entry.1 entry.2)
      have hqueue := (cacheFullBlock_frame p entry.1 entry.2).2
      exact ⟨fun b => (hrest.refCnt b).trans (cacheFullBlock_refCnt p _ _ b),
        hrest.free.trans (congrArg List.length hqueue)⟩
  unfold cacheFullBlocks at h
  split at h
  · cases h
    exact .refl _
  split at h
  · cases h
  · cases h
    exact hfold _ p

end BlockPool

namespace PrefixCache

variable {c c' c'' : PrefixCache} {rid : RequestId} {n : Nat}

/-- The blocks held under an id. -/
abbrev blocksUnder (c : PrefixCache) (rid : RequestId) : List BlockId :=
  c.coordinator.blocksOf rid

abbrev NullHeld (c : PrefixCache) : Prop := c.coordinator.pool.NullHeld

/-- Every request holds the blocks it held, and as many are free. -/
structure SameBlocks (c c' : PrefixCache) : Prop where
  blocks : ∀ rid, c'.blocksUnder rid = c.blocksUnder rid
  free : c'.numFreeBlocks = c.numFreeBlocks
  null : c.NullHeld → c'.NullHeld

/-- `rid` holds enough for `n` tokens, and nobody else's blocks changed. -/
structure Covers (c : PrefixCache) (rid : RequestId) (n : Nat) (c' : PrefixCache) : Prop where
  others : ∀ rid' ≠ rid, c'.blocksUnder rid' = c.blocksUnder rid'
  cover : numBlocksFor n ≤ (c'.blocksUnder rid).length
  grows : (c.blocksUnder rid).length ≤ (c'.blocksUnder rid).length
  free : c'.numFreeBlocks ≤ c.numFreeBlocks
  null : c.NullHeld → c'.NullHeld

/-- `rid` holds nothing, and nobody else's blocks changed. -/
structure Releases (c : PrefixCache) (rid : RequestId) (c' : PrefixCache) : Prop where
  others : ∀ rid' ≠ rid, c'.blocksUnder rid' = c.blocksUnder rid'
  none : c'.blocksUnder rid = []
  null : c.NullHeld → c'.NullHeld

theorem SameBlocks.refl (c : PrefixCache) : SameBlocks c c := ⟨fun _ => rfl, rfl, id⟩

theorem SameBlocks.trans (h : SameBlocks c c') (h' : SameBlocks c' c'') : SameBlocks c c'' :=
  ⟨fun rid => (h'.blocks rid).trans (h.blocks rid), h'.free.trans h.free, fun hn => h'.null (h.null hn)⟩

theorem Covers.trans_same (h : Covers c rid n c') (h' : SameBlocks c' c'') : Covers c rid n c'' where
  others rid' hne := (h'.blocks rid').trans (h.others rid' hne)
  cover := by rw [h'.blocks]; exact h.cover
  grows := by rw [h'.blocks]; exact h.grows
  free := h'.free.trans_le h.free
  null hn := h'.null (h.null hn)

theorem SameBlocks.trans_covers (h : SameBlocks c c') (h' : Covers c' rid n c'') :
    Covers c rid n c'' where
  others rid' hne := (h'.others rid' hne).trans (h.blocks rid')
  cover := h'.cover
  grows := by rw [← h.blocks]; exact h'.grows
  free := h'.free.trans_eq h.free
  null hn := h'.null (h.null hn)

theorem Releases.trans_same (h : Releases c rid c') (h' : SameBlocks c' c'') : Releases c rid c'' where
  others rid' hne := (h'.blocks rid').trans (h.others rid' hne)
  none := (h'.blocks rid).trans h.none
  null hn := h'.null (h.null hn)

theorem SameBlocks.trans_releases (h : SameBlocks c c') (h' : Releases c' rid c'') :
    Releases c rid c'' where
  others rid' hne := (h'.others rid' hne).trans (h.blocks rid')
  none := h'.none
  null hn := h'.null (h.null hn)

/-- A change of the tracked chains alone. -/
theorem SameBlocks.of_coordinator (h : c'.coordinator = c.coordinator) : SameBlocks c c' := by
  refine ⟨fun rid => ?_, ?_, ?_⟩
  · rw [blocksUnder, h]
  · rw [numFreeBlocks, h]; rfl
  · rw [NullHeld, NullHeld, h]; exact id

theorem track_same [BlockDigest] (c : PrefixCache) (rid : RequestId) (tokenIds : List Token) :
    SameBlocks c (c.track rid tokenIds).2 :=
  .of_coordinator rfl

theorem observe_same [BlockDigest] (c : PrefixCache) (rid : RequestId) (tokenIds : List Token) :
    SameBlocks c (c.observe rid tokenIds) := by
  unfold observe
  split
  · exact .refl c
  · exact .of_coordinator rfl

theorem takeTableWrites_same (c : PrefixCache) (rid : RequestId) :
    SameBlocks c (c.takeTableWrites rid).2 := by
  unfold takeTableWrites
  split
  · exact .refl c
  · dsimp only
    split
    · exact .of_coordinator rfl
    · exact .refl c

/-! ### The coordinator's calls -/

/-- A coordinator in which `rid` holds `state`. -/
theorem blocksOf_update_self (pool : BlockPool) (requests : RequestId → Option RequestBlocks)
    (rid : RequestId) (state : Option RequestBlocks) :
    KVCacheCoordinator.blocksOf ⟨pool, Function.update requests rid state⟩ rid =
      (state.getD {}).blocks := by
  simp [KVCacheCoordinator.blocksOf]

theorem blocksOf_update_of_ne {rid' : RequestId} (h : rid' ≠ rid) (pool pool' : BlockPool)
    (requests : RequestId → Option RequestBlocks) (state : Option RequestBlocks) :
    KVCacheCoordinator.blocksOf ⟨pool, Function.update requests rid state⟩ rid' =
      KVCacheCoordinator.blocksOf ⟨pool', requests⟩ rid' := by
  simp [KVCacheCoordinator.blocksOf, Function.update_of_ne h]

theorem commit_same {fresh : List (BlockId × BlockHash)} (h : c.commit rid n = .ok (fresh, c')) :
    SameBlocks c c' := by
  unfold commit at h
  split at h
  · cases h
    exact .refl c
  split at h
  · cases h
    exact .refl c
  obtain ⟨⟨fresh', coord⟩, hcache, h⟩ := bind_eq_ok.mp h
  cases h
  unfold KVCacheCoordinator.cacheBlocks at hcache
  split at hcache
  · cases hcache
    exact .of_coordinator rfl
  rename_i state hstate
  simp only at hcache
  split at hcache
  · cases hcache
    exact .of_coordinator rfl
  split at hcache
  · cases hcache
    exact .of_coordinator rfl
  obtain ⟨pool, hpool, hcache⟩ := bind_eq_ok.mp hcache
  cases hcache
  have hrest := BlockPool.cacheFullBlocks_restored hpool
  refine ⟨fun rid' => ?_, hrest.free, hrest.nullHeld⟩
  by_cases hrid : rid' = rid
  · subst hrid
    simp [blocksUnder, KVCacheCoordinator.blocksOf, hstate]
  · exact blocksOf_update_of_ne hrid _ _ _ _

theorem free_releases (h : c.free rid = .ok c') : Releases c rid c' := by
  unfold free at h
  obtain ⟨coord, hfree, h⟩ := bind_eq_ok.mp h
  cases h
  unfold KVCacheCoordinator.free at hfree
  split at hfree
  · rename_i hnone
    cases hfree
    exact ⟨fun _ _ => rfl, KVCacheCoordinator.blocksOf_none hnone, id⟩
  · rename_i state hstate
    obtain ⟨pool, hpool, hfree⟩ := bind_eq_ok.mp hfree
    cases hfree
    exact ⟨fun rid' hne => blocksOf_update_of_ne hne _ _ _ _,
      blocksOf_update_self _ _ _ _, BlockPool.freeBlocks_nullHeld hpool⟩

/-- Freeing a request that holds nothing. -/
theorem free_empty_same (hnil : c.blocksUnder rid = []) (h : c.free rid = .ok c') :
    SameBlocks c c' := by
  have hrel := free_releases h
  have hblocks : ∀ rid', c'.blocksUnder rid' = c.blocksUnder rid' := fun rid' => by
    by_cases hrid : rid' = rid
    · rw [hrid, hrel.none, hnil]
    · exact hrel.others rid' hrid
  refine ⟨hblocks, ?_, hrel.null⟩
  unfold free at h
  obtain ⟨coord, hfree, h⟩ := bind_eq_ok.mp h
  cases h
  unfold KVCacheCoordinator.free at hfree
  split at hfree
  · cases hfree
    rfl
  · rename_i state hstate
    have hempty : state.blocks = [] := (KVCacheCoordinator.blocksOf_some hstate).symm.trans hnil
    rw [hempty] at hfree
    cases hfree
    rfl

/-- Growing a request: its blocks cover `n`, or the pool is short and nothing moved. -/
theorem allocate_grow_eff {granted : Bool} (h : c.allocate rid n none = .ok (granted, c')) :
    (granted = true ∧ Covers c rid n c') ∨
      granted = false ∧ SameBlocks c c' ∧
        c.numFreeBlocks < numBlocksFor n - (c.blocksUnder rid).length := by
  unfold allocate at h
  obtain ⟨⟨granted', coord⟩, halloc, h⟩ := bind_eq_ok.mp h
  cases h
  unfold KVCacheCoordinator.allocate at halloc
  simp only [KVCacheCoordinator.adopt, ok_bind, pure_eq_ok] at halloc
  have hheld : ((c.coordinator.requests rid).getD {}).blocks = c.blocksUnder rid := rfl
  split at halloc
  · rename_i hzero
    cases halloc
    refine .inl ⟨rfl, fun rid' hne => blocksOf_update_of_ne hne _ _ _ _, ?_, ?_, Nat.le_refl _, id⟩
    · simp only [blocksUnder, blocksOf_update_self, Option.getD_some]
      exact Nat.sub_eq_zero_iff_le.mp hzero
    · simp only [blocksUnder, blocksOf_update_self, Option.getD_some]
      exact Nat.le_refl _
  · obtain ⟨⟨blocks, pool⟩, hget, halloc⟩ := bind_eq_ok.mp halloc
    rcases BlockPool.getNewBlocks_eff hget with ⟨rfl, -, hshort⟩ | ⟨bs, rfl, htake, hle⟩
    · simp only [Option.isSome_none, Bool.false_eq_true, if_false] at halloc
      cases halloc
      refine .inr ⟨rfl, ⟨fun rid' => ?_, rfl, id⟩, hshort⟩
      by_cases hrid : rid' = rid
      · subst hrid
        exact blocksOf_update_self _ _ _ _
      · exact blocksOf_update_of_ne hrid _ _ _ _
    · cases halloc
      obtain ⟨hlen, hcount, hnull⟩ := BlockPool.takeBlocks_eff htake
      refine .inl ⟨rfl, fun rid' hne => ?_, ?_, ?_, ?_, hnull⟩
      · simp only [blocksUnder, Function.update_idem]
        exact blocksOf_update_of_ne hne _ _ _ _
      · simp only [blocksUnder, blocksOf_update_self, Option.getD_some, List.length_append, hlen]
        omega
      · simp only [blocksUnder, blocksOf_update_self, Option.getD_some, List.length_append]
        exact Nat.le_add_right _ _
      · simp only [numFreeBlocks]
        omega

/-- A hit as `allocate` takes it: the tokens are those of its blocks. -/
def Aligned (hit : PrefixMatch) : Prop := hit.numTokens = 16 * hit.blocks.length

/-- Adopting a hit takes a reference on each of its blocks; a request that holds blocks cannot. -/
theorem adopt_eff {hit : PrefixMatch} (haligned : Aligned hit) {pool : BlockPool}
    {state : RequestBlocks}
    (h : c.coordinator.adopt rid (if hit.numTokens = 0 then none else some hit.blocks) =
      .ok (pool, state)) :
    BlockPool.touch hit.blocks c.coordinator.pool = .ok pool ∧
      (c.blocksUnder rid = [] → state.blocks = hit.blocks) ∧
      (hit.blocks = [] → state.blocks = c.blocksUnder rid) ∧
      (hit.blocks ≠ [] → c.blocksUnder rid = []) := by
  unfold Aligned at haligned
  have hheld : ((c.coordinator.requests rid).getD {}).blocks = c.blocksUnder rid := rfl
  split at h
  · have hnil : hit.blocks = [] := List.eq_nil_of_length_eq_zero (by omega)
    cases h
    rw [hnil]
    exact ⟨rfl, id, fun _ => rfl, fun hne => absurd rfl hne⟩
  · have hne : hit.blocks ≠ [] := fun hnil => by simp_all
    simp only [KVCacheCoordinator.adopt, hheld] at h
    split at h
    · cases h
    rename_i hnil
    rw [ne_eq, not_not] at hnil
    obtain ⟨pool', htouch, h⟩ := bind_eq_ok.mp h
    cases h
    exact ⟨htouch, fun _ => rfl, fun hnil => absurd hnil hne, fun _ => hnil⟩

/-- What an admission drew, for a request that held nothing. -/
structure Drawn (c : PrefixCache) (rid : RequestId) (n : Nat) (hit : PrefixMatch)
    (c' : PrefixCache) (pool : BlockPool) (fresh : List BlockId) : Prop where
  touched : BlockPool.touch hit.blocks c.coordinator.pool = .ok pool
  taken : pool.takeBlocks (numBlocksFor n - hit.blocks.length) =
    .ok (fresh, c'.coordinator.pool)
  room : numBlocksFor n - hit.blocks.length ≤ pool.numFreeBlocks
  requests : ∃ state : RequestBlocks, state.blocks = hit.blocks ++ fresh ∧
    c'.coordinator.requests = Function.update c.coordinator.requests rid (some state)

/-- Admitting a request that holds nothing: its blocks are the hit and what is drawn, or the pool is
short and everything is as it was. -/
theorem allocate_admit_cases {granted : Bool} {hit : PrefixMatch} (haligned : Aligned hit)
    (hnil : c.blocksUnder rid = []) (h : c.allocate rid n (some hit) = .ok (granted, c')) :
    (granted = true ∧ ∃ pool fresh, Drawn c rid n hit c' pool fresh) ∨
      granted = false ∧ SameBlocks c c' := by
  unfold allocate at h
  obtain ⟨⟨granted', coord⟩, halloc, h⟩ := bind_eq_ok.mp h
  cases h
  unfold KVCacheCoordinator.allocate at halloc
  obtain ⟨⟨pool, state⟩, hadopt, halloc⟩ := bind_eq_ok.mp halloc
  obtain ⟨htouch, hblocks, -, -⟩ := adopt_eff haligned hadopt
  have hblocks := hblocks hnil
  simp only [hblocks, pure_eq_ok] at halloc
  split at halloc
  · rename_i hzero
    cases halloc
    refine .inl ⟨rfl, pool, [], htouch, ?_, ?_, state, by simp [hblocks], rfl⟩
    · rw [hzero]
      rfl
    · rw [hzero]
      exact Nat.zero_le _
  · obtain ⟨⟨blocks, pool'⟩, hget, halloc⟩ := bind_eq_ok.mp halloc
    rcases BlockPool.getNewBlocks_eff hget with ⟨rfl, rfl, hshort⟩ | ⟨bs, rfl, htake, hle⟩
    · right
      -- what was adopted is given back
      have hother : ∀ (q : BlockPool) (left : Option RequestBlocks), (left.getD {}).blocks = [] →
          ∀ rid', KVCacheCoordinator.blocksOf
            ⟨q, Function.update c.coordinator.requests rid left⟩ rid' = c.blocksUnder rid' := by
        intro q left hleft rid'
        by_cases hrid : rid' = rid
        · subst hrid
          rw [blocksOf_update_self, hleft, hnil]
        · exact blocksOf_update_of_ne hrid _ _ _ _
      by_cases hzero : hit.numTokens = 0
      · have hempty : hit.blocks = [] := List.eq_nil_of_length_eq_zero (by
          unfold Aligned at haligned; omega)
        simp only [if_pos hzero, Option.isSome_none, Bool.false_eq_true, if_false] at halloc
        cases halloc
        rw [hempty] at htouch
        cases htouch
        exact ⟨rfl, hother _ _ (by simp [hblocks, hempty]), rfl, id⟩
      · simp only [if_neg hzero, Option.isSome_some, if_true] at halloc
        obtain ⟨coord', hfree, halloc⟩ := bind_eq_ok.mp halloc
        cases halloc
        simp only [KVCacheCoordinator.free, Function.update_self, hblocks] at hfree
        obtain ⟨q, hq, hfree⟩ := bind_eq_ok.mp hfree
        cases hfree
        have hrest := BlockPool.restored_touches htouch (.refl _) hq
        refine ⟨rfl, ?_, hrest.free, hrest.nullHeld⟩
        simp only [blocksUnder, Function.update_idem]
        exact hother q none rfl
    · cases halloc
      refine .inl ⟨rfl, pool, bs, htouch, htake, hle, { state with blocks := hit.blocks ++ bs }, rfl, ?_⟩
      simp only [Function.update_idem]

theorem Drawn.blocks {hit : PrefixMatch} {pool : BlockPool} {fresh : List BlockId}
    (h : Drawn c rid n hit c' pool fresh) : c'.blocksUnder rid = hit.blocks ++ fresh := by
  obtain ⟨state, hstate, hrequests⟩ := h.requests
  simp only [blocksUnder, KVCacheCoordinator.blocksOf, hrequests, Function.update_self,
    Option.getD_some, hstate]

theorem Drawn.covers {hit : PrefixMatch} {pool : BlockPool} {fresh : List BlockId}
    (h : Drawn c rid n hit c' pool fresh) (hnil : c.blocksUnder rid = []) :
    Covers c rid n c' := by
  obtain ⟨hle, hnull⟩ := BlockPool.touch_eff h.touched
  obtain ⟨hlen, hcount, hnull'⟩ := BlockPool.takeBlocks_eff h.taken
  obtain ⟨state, hstate, hrequests⟩ := h.requests
  refine ⟨fun rid' hne => ?_, ?_, ?_, ?_, fun hn => hnull' (hnull hn)⟩
  · simp only [blocksUnder, KVCacheCoordinator.blocksOf, hrequests, Function.update_of_ne hne]
  · rw [h.blocks, List.length_append, hlen]
    omega
  · rw [hnil]
    exact Nat.zero_le _
  · simp only [numFreeBlocks]
    omega

/-- An admission that is undone leaves everything as it was. -/
theorem Drawn.undone {hit : PrefixMatch} {pool : BlockPool} {fresh : List BlockId}
    (h : Drawn c rid n hit c' pool fresh) (hnil : c.blocksUnder rid = []) (hnull : c.NullHeld)
    (hfree : c'.free rid = .ok c'') : SameBlocks c c'' := by
  have hrel := free_releases hfree
  have hcovers := h.covers hnil
  unfold free at hfree
  obtain ⟨coord, hcoord, hfree⟩ := bind_eq_ok.mp hfree
  cases hfree
  obtain ⟨state, hstate, hrequests⟩ := h.requests
  simp only [KVCacheCoordinator.free, hrequests, Function.update_self, hstate,
    List.reverse_append] at hcoord
  obtain ⟨q, hq, hcoord⟩ := bind_eq_ok.mp hcoord
  cases hcoord
  rw [BlockPool.freeBlocks_append] at hq
  obtain ⟨q₁, hq₁, hq⟩ := bind_eq_ok.mp hq
  have hinner := BlockPool.restored_takes ((BlockPool.touch_eff h.touched).2 hnull) h.taken
    (.refl _) hq₁
  have hrest := BlockPool.restored_touches h.touched hinner hq
  refine ⟨fun rid' => ?_, hrest.free, hrest.nullHeld⟩
  by_cases hrid : rid' = rid
  · subst hrid
    rw [hrel.none, hnil]
  · rw [hrel.others rid' hrid, hcovers.others rid' hrid]

/-- A request that holds blocks can adopt nothing: it grows. -/
theorem allocate_admit_grow {granted : Bool} {hit : PrefixMatch} (haligned : Aligned hit)
    (hheld : c.blocksUnder rid ≠ []) (h : c.allocate rid n (some hit) = .ok (granted, c')) :
    c.allocate rid n none = .ok (granted, c') := by
  have hzero : hit.numTokens = 0 := by
    by_contra hne
    unfold allocate at h
    obtain ⟨⟨granted', coord⟩, halloc, -⟩ := bind_eq_ok.mp h
    unfold KVCacheCoordinator.allocate at halloc
    obtain ⟨⟨pool, state⟩, hadopt, -⟩ := bind_eq_ok.mp halloc
    have hblocks : hit.blocks ≠ [] := fun hnil => by
      unfold Aligned at haligned
      simp_all
    exact hheld ((adopt_eff haligned hadopt).2.2.2 hblocks)
  rw [← h, allocate, allocate, if_pos hzero]

/-- Admitting a request: its blocks cover `n`, and were there to draw if it held nothing before;
or it is refused, and everything is as it was. -/
theorem allocate_admit_eff {granted : Bool} {hit : PrefixMatch} (haligned : Aligned hit)
    (h : c.allocate rid n (some hit) = .ok (granted, c')) :
    (granted = true ∧ Covers c rid n c' ∧ (c.blocksUnder rid = [] →
        numBlocksFor n - hit.blocks.length ≤ c.numFreeBlocks)) ∨
      granted = false ∧ SameBlocks c c' := by
  by_cases hnil : c.blocksUnder rid = []
  · rcases allocate_admit_cases haligned hnil h with ⟨rfl, pool, fresh, hdrawn⟩ | hrefused
    · have htouch := (BlockPool.touch_eff hdrawn.touched).1
      exact .inl ⟨rfl, hdrawn.covers hnil, fun _ => Nat.le_trans hdrawn.room htouch⟩
    · exact .inr hrefused
  · rcases allocate_grow_eff (allocate_admit_grow haligned hnil h) with
      ⟨rfl, hcovers⟩ | ⟨rfl, hsame, -⟩
    · exact .inl ⟨rfl, hcovers, fun hn => absurd hn hnil⟩
    · exact .inr ⟨rfl, hsame⟩

/-- A match is aligned, and short of the last token. -/
theorem lookup_aligned (cache : PrefixCache) (hashes : List BlockHash) (numTokens : Nat) :
    Aligned (cache.lookup hashes numTokens) ∧
      (cache.lookup hashes numTokens).numTokens ≤ numTokens - 1 := by
  obtain ⟨haligned, hle, -, -⟩ := cache.lookup_spec hashes numTokens
  exact ⟨haligned, hle⟩

end PrefixCache

end RapidLlm
