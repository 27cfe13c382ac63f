import RapidLlm.Engine.BlockPool

/-!
# RapidLlm.Engine.KVCacheSpec

The KV cache coordinator (`engine/kv_cache_spec.py`) at the configuration the
planner runs it with: `KVCacheConfig.homogeneous`, one full-attention group whose
blocks hold `prefixCacheBlockSize` tokens. The per-group lists of the source are
therefore single lists here, and the group id is always `0`.

What the layers above use:

* `allocate_grow` / `allocate_short`: growing a request that already holds blocks;
* `allocate_admit` / `allocate_refuse`: giving a new request the blocks of its
  cache hit and fresh ones for the rest;
* `cacheBlocks_ok` and `free_ok`.

Each states which references moved (`BlockPool.Holds`) and which hashes did.
-/

namespace RapidLlm

abbrev RequestId := String

/-- Ceiling division, for block counts. -/
def cdiv (a b : Nat) : Nat := (a + b - 1) / b

/-- `PREFIX_CACHE_BLOCK_SIZE`: tokens per block. -/
def prefixCacheBlockSize : Nat := 16

/-- Blocks needed to hold `numTokens` tokens of one sequence. -/
def numBlocksFor (numTokens : Nat) : Nat := cdiv numTokens prefixCacheBlockSize

/-- A request's blocks in prefix order, and how many of them are already indexed. -/
structure RequestBlocks where
  blocks : List BlockId := []
  numCached : Nat := 0
  deriving DecidableEq, Repr

/-- The group's allocator over the block pool. -/
structure KVCacheCoordinator where
  pool : BlockPool
  requests : RequestId → Option RequestBlocks

namespace KVCacheCoordinator

/-- `_prefix_run_hit`: the longest unbroken run of cached blocks from block 0. -/
def prefixRunHit (pool : BlockPool) : List BlockHash → List BlockId
  | [] => []
  | hash :: hashes =>
    match pool.getCachedBlock hash with
    | none => []
    | some block => block :: prefixRunHit pool hashes

/-- The blocks a prompt with these hashes may reuse, and the tokens they cover. -/
def findLongestCacheHit (coord : KVCacheCoordinator) (blockHashes : List BlockHash)
    (maxLength : Nat) : List BlockId × Nat :=
  let numBlocks := min (maxLength / prefixCacheBlockSize) blockHashes.length
  let hit := prefixRunHit coord.pool (blockHashes.take numBlocks)
  (hit, hit.length * prefixCacheBlockSize)

/-- Release everything a request holds, tail blocks first. -/
def free (coord : KVCacheCoordinator) (requestId : RequestId) :
    Except Raised KVCacheCoordinator :=
  match coord.requests requestId with
  | none => .ok coord
  | some state => do
    let pool ← BlockPool.freeBlocks state.blocks.reverse coord.pool
    return { pool, requests := Function.update coord.requests requestId none }

/-- The start of `allocate`: the request's state, with the adopted blocks referenced
before any fresh block is drawn. -/
def adopt (coord : KVCacheCoordinator) (requestId : RequestId)
    (newComputedBlocks : Option (List BlockId)) : Except Raised (BlockPool × RequestBlocks) :=
  let state := (coord.requests requestId).getD {}
  match newComputedBlocks with
  | none => .ok (coord.pool, state)
  | some blocks =>
    if state.blocks ≠ [] then
      .error (.valueError s!"request {requestId} already holds blocks in group 0")
    else do
      let pool ← BlockPool.touch blocks coord.pool
      return (pool, { blocks, numCached := blocks.length })

/-- Make sure a request owns blocks covering its first `numTokens`; `false` when the
pool is short, in which case nothing was allocated. -/
def allocate (coord : KVCacheCoordinator) (requestId : RequestId) (numTokens : Nat)
    (newComputedBlocks : Option (List BlockId)) : Except Raised (Bool × KVCacheCoordinator) := do
  let (pool, state) ← coord.adopt requestId newComputedBlocks
  let coord := { pool, requests := Function.update coord.requests requestId (some state) }
  let needed := numBlocksFor numTokens - state.blocks.length
  if needed = 0 then return (true, coord)
  match ← pool.getNewBlocks needed with
  | (none, _) =>
    if newComputedBlocks.isSome then return (false, ← coord.free requestId)
    else return (false, coord)
  | (some fresh, pool) =>
    let state := { state with blocks := state.blocks ++ fresh }
    return (true, { pool, requests := Function.update coord.requests requestId (some state) })

/-- Index the request's blocks that are fully computed; returns those that gained
their hash. -/
def cacheBlocks (coord : KVCacheCoordinator) (requestId : RequestId)
    (blockHashes : List BlockHash) (numComputedTokens : Nat) :
    Except Raised (List (BlockId × BlockHash) × KVCacheCoordinator) :=
  match coord.requests requestId with
  | none => .ok ([], coord)
  | some state =>
    let full := min (numComputedTokens / prefixCacheBlockSize) blockHashes.length
    let start := state.numCached
    let blocks := (state.blocks.take full).drop start
    let hashes := (blockHashes.take full).drop start
    if full ≤ start then .ok ([], coord)
    -- blocks not allocated yet; a later step will index them
    else if blocks.length < full - start then .ok ([], coord)
    else do
      let gained := (blocks.zip hashes).filter fun entry =>
        (coord.pool.blocks entry.1).blockHash.isNone
      let pool ← coord.pool.cacheFullBlocks blocks hashes
      let state := { state with numCached := full }
      return (gained, { pool, requests := Function.update coord.requests requestId (some state) })

/-- The blocks a request holds, in prefix order. -/
def blocksOf (coord : KVCacheCoordinator) (requestId : RequestId) : List BlockId :=
  ((coord.requests requestId).getD {}).blocks

/-! ### Cache hits -/

variable {coord : KVCacheCoordinator} {rid : RequestId} {held : Multiset BlockId}

/-- Block `j` of a hit is indexed under hash `j` of the chain it was looked up by. -/
theorem prefixRunHit_indexed {pool : BlockPool} : ∀ {hashes : List BlockHash} {j : Nat}
    {b : BlockId}, (prefixRunHit pool hashes)[j]? = some b →
    ∃ hash, hashes[j]? = some hash ∧ b ∈ pool.cachedBlockHashToBlock hash
  | [], j, b, h => by simp [prefixRunHit] at h
  | hash :: hashes, j, b, h => by
      unfold prefixRunHit at h
      split at h
      · simp at h
      · rename_i block hb
        cases j with
        | zero =>
          simp only [List.getElem?_cons_zero, Option.some.injEq] at h
          exact ⟨hash, rfl, h ▸ BlockPool.getCachedBlock_mem hb⟩
        | succ j => simpa using prefixRunHit_indexed (by simpa using h)

theorem prefixRunHit_length (pool : BlockPool) : ∀ (hashes : List BlockHash),
    (prefixRunHit pool hashes).length ≤ hashes.length
  | [] => by simp [prefixRunHit]
  | hash :: hashes => by
      unfold prefixRunHit
      split
      · simp
      · simpa using prefixRunHit_length pool hashes

/-- What a hit is: whole blocks, below the ceiling, each indexed under its own hash. -/
theorem findLongestCacheHit_spec (coord : KVCacheCoordinator) (hashes : List BlockHash)
    (maxLength : Nat) :
    let hit : List BlockId × Nat := coord.findLongestCacheHit hashes maxLength
    hit.2 = 16 * hit.1.length ∧ hit.2 ≤ maxLength ∧ hit.1.length ≤ hashes.length ∧
      ∀ (j : Nat) (b : BlockId), hit.1[j]? = some b →
        ∃ hash, hashes[j]? = some hash ∧ b ∈ coord.pool.cachedBlockHashToBlock hash := by
  intro hit
  have hlen := prefixRunHit_length coord.pool
    (hashes.take (min (maxLength / prefixCacheBlockSize) hashes.length))
  rw [List.length_take] at hlen
  have h16 : prefixCacheBlockSize = 16 := rfl
  refine ⟨?_, ?_, ?_, ?_⟩
  · simp only [hit, findLongestCacheHit, h16]; omega
  · simp only [hit, findLongestCacheHit, h16] at hlen ⊢; omega
  · simp only [hit, findLongestCacheHit, h16] at hlen ⊢; omega
  · intro j b hj
    obtain ⟨hash, hget, hmem⟩ := prefixRunHit_indexed hj
    rw [List.getElem?_take] at hget
    split at hget
    · exact ⟨hash, hget, hmem⟩
    · cases hget

/-! ### Growth -/

theorem blocksOf_some {state : RequestBlocks} (h : coord.requests rid = some state) :
    coord.blocksOf rid = state.blocks := by
  simp [blocksOf, h]

theorem blocksOf_none (h : coord.requests rid = none) : coord.blocksOf rid = [] := by
  simp [blocksOf, h]

/-- Growing a request the pool can serve. -/
theorem allocate_grow {state : RequestBlocks} (h : coord.pool.Holds held)
    (hreq : coord.requests rid = some state) {numTokens : Nat}
    (hle : numBlocksFor numTokens - state.blocks.length ≤ coord.pool.numFreeBlocks) :
    ∃ pool' fresh, coord.allocate rid numTokens none = .ok (true,
        ⟨pool', Function.update coord.requests rid
          (some { state with blocks := state.blocks ++ fresh })⟩) ∧
      BlockPool.Grew coord.pool pool' held fresh ∧
      numBlocksFor numTokens ≤ (state.blocks ++ fresh).length := by
  by_cases hzero : numBlocksFor numTokens - state.blocks.length = 0
  · refine ⟨coord.pool, [], ?_, ⟨by simpa using h, rfl, by simp, by simp, by simp, by simp⟩, ?_⟩
    · simp [allocate, adopt, hreq, hzero]
    · simp; omega
  · obtain ⟨pool', hget, hgrew⟩ := BlockPool.getNewBlocks_ok h hle
    refine ⟨pool', _, ?_, hgrew, ?_⟩
    · simp [allocate, adopt, hreq, hzero, hget]
    · simp only [List.length_append, List.length_take]
      simp only [BlockPool.numFreeBlocks] at hle
      omega

/-- Growing a request the pool cannot serve changes nothing. -/
theorem allocate_short {state : RequestBlocks} (hreq : coord.requests rid = some state)
    {numTokens : Nat}
    (hlt : coord.pool.numFreeBlocks < numBlocksFor numTokens - state.blocks.length) :
    coord.allocate rid numTokens none = .ok (false, coord) := by
  have hne : numBlocksFor numTokens - state.blocks.length ≠ 0 := by omega
  have hself : Function.update coord.requests rid (some state) = coord.requests := by
    rw [← hreq, Function.update_eq_self]
  simp [allocate, adopt, hreq, hne, BlockPool.getNewBlocks_short hlt, hself]

/-- Releasing what a request holds. -/
theorem free_ok {state : RequestBlocks} (hreq : coord.requests rid = some state)
    (h : coord.pool.Holds (held + (state.blocks : Multiset BlockId))) :
    ∃ pool', coord.free rid = .ok ⟨pool', Function.update coord.requests rid none⟩ ∧
      pool'.Holds held ∧ pool'.geometry = coord.pool.geometry ∧
      pool'.cachedBlockHashToBlock = coord.pool.cachedBlockHashToBlock ∧
      ∀ b, pool'.hashOf b = coord.pool.hashOf b := by
  rw [← Multiset.coe_reverse] at h
  obtain ⟨pool', hfree, hrest⟩ := BlockPool.freeBlocks_ok state.blocks.reverse h
  exact ⟨pool', by simp [free, hreq, hfree], hrest⟩

/-- Freeing a request that holds nothing drops what is left of its entry. -/
theorem free_empty (hreq : (coord.requests rid).getD {} = {}) :
    coord.free rid = .ok ⟨coord.pool, Function.update coord.requests rid none⟩ := by
  cases hstate : coord.requests rid with
  | none =>
    have hsame : Function.update coord.requests rid none = coord.requests := by
      rw [← hstate, Function.update_eq_self]
    simp [free, hstate, hsame]
  | some state =>
    rw [hstate, Option.getD_some] at hreq
    subst hreq
    simp [free, hstate, BlockPool.freeBlocks]

/-! ### Admission

A new request adopts the blocks of its cache hit and draws fresh ones for the rest. -/

/-- The hit a request is admitted with, as `allocate` receives it. -/
def adopted (hit : List BlockId) : Option (List BlockId) := if hit = [] then none else some hit

/-- Adopting the hit: one reference on each of its blocks, and nothing else moves. -/
theorem adopt_ok {hit : List BlockId} (h : coord.pool.Holds held)
    (hreq : (coord.requests rid).getD {} = {})
    (hhit : ∀ b ∈ hit, b ≠ nullBlockId ∧ b < coord.pool.numBlocks) :
    ∃ pool', coord.adopt rid (adopted hit) = .ok (pool', ⟨hit, hit.length⟩) ∧
      pool'.Holds (held + (hit : Multiset BlockId)) ∧
      pool'.freeBlockQueue = coord.pool.freeBlockQueue.diff hit ∧
      pool'.geometry = coord.pool.geometry ∧
      pool'.cachedBlockHashToBlock = coord.pool.cachedBlockHashToBlock ∧
      ∀ b, pool'.hashOf b = coord.pool.hashOf b := by
  by_cases hnil : hit = []
  · subst hnil
    exact ⟨coord.pool, by simp [adopt, adopted, hreq], by simpa using h, rfl, rfl, rfl, fun _ => rfl⟩
  · obtain ⟨pool', htouch, hrest⟩ := BlockPool.touch_ok hit h hhit
    exact ⟨pool', by simp [adopt, adopted, hnil, hreq, htouch], hrest⟩

/-- The blocks still to draw for an admission, against what is free once the hit is adopted. -/
def admissionShort (coord : KVCacheCoordinator) (numTokens : Nat) (hit : List BlockId) : Prop :=
  (coord.pool.freeBlockQueue.diff hit).length < numBlocksFor numTokens - hit.length

/-- Admitting a request the pool can serve. -/
theorem allocate_admit {hit : List BlockId} (h : coord.pool.Holds held)
    (hreq : (coord.requests rid).getD {} = {})
    (hhit : ∀ b ∈ hit, b ≠ nullBlockId ∧ b < coord.pool.numBlocks) {numTokens : Nat}
    (hroom : ¬ coord.admissionShort numTokens hit) :
    ∃ pool' fresh, coord.allocate rid numTokens (adopted hit) = .ok (true,
        ⟨pool', Function.update coord.requests rid (some ⟨hit ++ fresh, hit.length⟩)⟩) ∧
      BlockPool.Grew coord.pool pool' (held + (hit : Multiset BlockId)) fresh ∧
      numBlocksFor numTokens ≤ (hit ++ fresh).length := by
  obtain ⟨p₁, hadopt, hholds, hqueue, hgeo, -, hhash⟩ := adopt_ok h hreq hhit
  by_cases hzero : numBlocksFor numTokens - hit.length = 0
  · refine ⟨p₁, [], ?_, ⟨by simpa using hholds, hgeo, by simp, by simp, by simp,
      fun b _ => hhash b⟩, ?_⟩
    · simp [allocate, hadopt, hzero]
    · simp; omega
  · have hle : numBlocksFor numTokens - hit.length ≤ p₁.numFreeBlocks := by
      simp only [admissionShort, not_lt] at hroom
      rw [BlockPool.numFreeBlocks, hqueue]; exact hroom
    obtain ⟨pool', hget, hgrew⟩ := BlockPool.getNewBlocks_ok hholds hle
    refine ⟨pool', _, ?_, ⟨hgrew.holds, hgrew.geometry.trans hgeo, hgrew.nodup, hgrew.unheld,
      hgrew.unhashed, fun b hb => (hgrew.others b hb).trans (hhash b)⟩, ?_⟩
    · simp [allocate, hadopt, hzero, hget]
    · simp only [List.length_append, List.length_take]
      simp only [BlockPool.numFreeBlocks] at hle
      omega

/-- Refusing an admission: the references taken on the hit are given back, and at most an empty
entry is left. -/
theorem allocate_refuse {hit : List BlockId} (h : coord.pool.Holds held)
    (hreq : (coord.requests rid).getD {} = {})
    (hhit : ∀ b ∈ hit, b ≠ nullBlockId ∧ b < coord.pool.numBlocks) {numTokens : Nat}
    (hshort : coord.admissionShort numTokens hit) :
    ∃ pool' left, coord.allocate rid numTokens (adopted hit) =
        .ok (false, ⟨pool', Function.update coord.requests rid left⟩) ∧
      left.getD {} = {} ∧ pool'.Holds held ∧ pool'.geometry = coord.pool.geometry ∧
      pool'.cachedBlockHashToBlock = coord.pool.cachedBlockHashToBlock ∧
      ∀ b, pool'.hashOf b = coord.pool.hashOf b := by
  obtain ⟨p₁, hadopt, hholds, hqueue, hgeo, hcached, hhash⟩ := adopt_ok h hreq hhit
  have hlt : p₁.numFreeBlocks < numBlocksFor numTokens - hit.length := by
    rw [BlockPool.numFreeBlocks, hqueue]; exact hshort
  have hne : numBlocksFor numTokens - hit.length ≠ 0 := by omega
  by_cases hnil : hit = []
  · subst hnil
    refine ⟨p₁, some ⟨[], 0⟩, ?_, rfl, by simpa using hholds, hgeo, hcached, hhash⟩
    have hnone : (adopted ([] : List BlockId)).isSome = false := rfl
    rw [allocate, hadopt, ok_bind]
    simp only [hne, if_false, BlockPool.getNewBlocks_short hlt, ok_bind, hnone,
      Bool.false_eq_true, pure_eq_ok]
    rfl
  · let coord₁ : KVCacheCoordinator :=
      ⟨p₁, Function.update coord.requests rid (some ⟨hit, hit.length⟩)⟩
    have hreq₁ : coord₁.requests rid = some ⟨hit, hit.length⟩ := by simp [coord₁]
    obtain ⟨p₂, hfree, hholds₂, hgeo₂, hcached₂, hhash₂⟩ := free_ok hreq₁ hholds
    refine ⟨p₂, none, ?_, rfl, hholds₂, hgeo₂.trans hgeo, hcached₂.trans hcached,
      fun b => (hhash₂ b).trans (hhash b)⟩
    simp only [coord₁, Function.update_idem] at hfree
    have hsome : adopted hit = some hit := by simp [adopted, hnil]
    rw [hsome] at hadopt ⊢
    rw [allocate, hadopt, ok_bind]
    simp only [hne, if_false, BlockPool.getNewBlocks_short hlt, ok_bind, Option.isSome_some,
      if_true, hfree, pure_eq_ok]

/-! ### Indexing -/

/-- `pool'` is the pool after a request's blocks below `numCached` were indexed: a new
hash is that of a block of the request, at its own place of the chain. -/
structure Indexed (coord : KVCacheCoordinator) (state : RequestBlocks) (hashes : List BlockHash)
    (n : Nat) (held : Multiset BlockId) (pool' : BlockPool) (numCached : Nat) : Prop where
  holds : pool'.Holds held
  geometry : pool'.geometry = coord.pool.geometry
  queue : pool'.freeBlockQueue = coord.pool.freeBlockQueue
  kept : ∀ b hash, coord.pool.hashOf b = some hash → pool'.hashOf b = some hash
  gained : ∀ b hash, pool'.hashOf b = some hash → coord.pool.hashOf b = some hash ∨
    ∃ j, state.numCached ≤ j ∧ j < numCached ∧ state.blocks[j]? = some b ∧ hashes[j]? = some hash
  mono : state.numCached ≤ numCached
  bound : numCached = state.numCached ∨
    16 * numCached ≤ n ∧ numCached ≤ hashes.length ∧ numCached ≤ state.blocks.length

/-- Indexing a request's computed blocks does not raise, and is `Indexed`. -/
theorem cacheBlocks_ok {state : RequestBlocks} (h : coord.pool.Holds held)
    (hreq : coord.requests rid = some state) (hbs : ∀ b ∈ state.blocks, b ∈ held)
    (hashes : List BlockHash) (n : Nat) :
    ∃ fresh pool' numCached, coord.cacheBlocks rid hashes n = .ok (fresh,
        ⟨pool', Function.update coord.requests rid (some { state with numCached })⟩) ∧
      coord.Indexed state hashes n held pool' numCached := by
  have h16 : prefixCacheBlockSize = 16 := rfl
  have hidle : coord.cacheBlocks rid hashes n = .ok ([], coord) →
      ∃ fresh pool' numCached, coord.cacheBlocks rid hashes n = .ok (fresh,
          ⟨pool', Function.update coord.requests rid (some { state with numCached })⟩) ∧
        coord.Indexed state hashes n held pool' numCached := by
    intro hrun
    refine ⟨[], coord.pool, state.numCached, ?_, h, rfl, rfl, fun _ _ hb => hb,
      fun _ _ hb => .inl hb, Nat.le_refl _, .inl rfl⟩
    rw [show ({ state with numCached := state.numCached } : RequestBlocks) = state from rfl, ← hreq,
      Function.update_eq_self]
    exact hrun
  let full := min (n / prefixCacheBlockSize) hashes.length
  by_cases hfull : full ≤ state.numCached
  · exact hidle (by simp only [cacheBlocks, hreq]; rw [if_pos hfull])
  by_cases hshort : ((state.blocks.take full).drop state.numCached).length < full - state.numCached
  · exact hidle (by simp only [cacheBlocks, hreq]; rw [if_neg hfull, if_pos hshort])
  have hfl : full ≤ hashes.length := Nat.min_le_right _ _
  have hfn : 16 * full ≤ n := by
    have := Nat.min_le_left (n / prefixCacheBlockSize) hashes.length
    simp only [full, h16] at this ⊢; omega
  have hfb : full ≤ state.blocks.length := by
    simp only [List.length_drop, List.length_take] at hshort; omega
  have hlen : ((state.blocks.take full).drop state.numCached).length =
      ((hashes.take full).drop state.numCached).length := by
    simp only [List.length_drop, List.length_take]; omega
  obtain ⟨pool', hrun, hholds, hgeo, hqueue, hkeep, hnew⟩ := BlockPool.cacheFullBlocks_ok h hlen
    fun b hb => hbs b (List.mem_of_mem_take (List.mem_of_mem_drop hb))
  refine ⟨((state.blocks.take full).drop state.numCached).zip
      ((hashes.take full).drop state.numCached) |>.filter fun entry =>
        (coord.pool.blocks entry.1).blockHash.isNone,
    pool', full, ?_, hholds, hgeo, hqueue, hkeep, ?_, by omega, .inr ⟨hfn, hfl, hfb⟩⟩
  · simp only [cacheBlocks, hreq]
    rw [if_neg hfull, if_neg hshort, hrun]
    rfl
  · intro b hash hb
    refine (hnew b hash hb).imp_right fun hzip => ?_
    obtain ⟨i, hi⟩ := List.mem_iff_getElem?.mp hzip
    rw [List.getElem?_zip_eq_some] at hi
    obtain ⟨hi₁, hi₂⟩ := hi
    rw [List.getElem?_drop, List.getElem?_take] at hi₁ hi₂
    split at hi₁
    · rw [if_pos (by assumption)] at hi₂
      exact ⟨state.numCached + i, by omega, by assumption, hi₁, hi₂⟩
    · cases hi₁

end KVCacheCoordinator

end RapidLlm
