import RapidLlm.Lib.Run
import RapidLlm.Lib.Threaded
import RapidLlm.Engine.EvictionOrder

/-!
# RapidLlm.Engine.LinkedPool

The block pool as the source stores it (`engine/block_pool.py`): a free list threaded through the
blocks between two sentinels, and a hash index of two levels in which an inner map that runs empty
is deleted.

`Represents linked pool` relates it to the `BlockPool` the rest of the development works with, whose
queue and index are plain lists. Each operation of the linked pool returns what the list operation
returns and keeps the relation (`Represents.takeBlock`, …), so a run of calls on the linked pool is
a run on lists, where `Aged` has the order of the queue.
-/

namespace RapidLlm

open Links

/-! ### The free list -/

/-- `FreeBlockQueue`, as it is threaded through the blocks. -/
structure LinkedBlockQueue where
  links : Links BlockId
  numFreeBlocks : Int

namespace LinkedBlockQueue

/-- `append` -/
def append (queue : LinkedBlockQueue) (block : BlockId) : Except Raised LinkedBlockQueue :=
  match queue.links.prev .tail with
  | none => .error (.assertionError "")
  | some prev => .ok
      { links := (queue.links.link prev (.item block)).link (.item block) .tail
        numFreeBlocks := queue.numFreeBlocks + 1 }

/-- `prepend` -/
def prepend (queue : LinkedBlockQueue) (block : BlockId) : Except Raised LinkedBlockQueue :=
  match queue.links.next .head with
  | none => .error (.assertionError "")
  | some nxt => .ok
      { links := (queue.links.link .head (.item block)).link (.item block) nxt
        numFreeBlocks := queue.numFreeBlocks + 1 }

/-- `remove` -/
def remove (queue : LinkedBlockQueue) (block : BlockId) : Except Raised LinkedBlockQueue :=
  match queue.links.prev (.item block), queue.links.next (.item block) with
  | some prev, some nxt => .ok
      { links := (queue.links.link prev nxt).clear (.item block)
        numFreeBlocks := queue.numFreeBlocks - 1 }
  | _, _ => .error (.valueError s!"block {block} is not in the free queue")

/-- `popleft`. The front is never the head sentinel. -/
def popleft (queue : LinkedBlockQueue) : Except Raised (BlockId × LinkedBlockQueue) :=
  match queue.links.next .head with
  | some (.item block) => do
      let queue ← queue.remove block
      return (block, queue)
  | some .head => .error (.valueError "block -1 is not in the free queue")
  | _ => .error (.indexError "no free blocks")

/-- The loop of `__init__`. -/
def appendAll : List BlockId → LinkedBlockQueue → Except Raised LinkedBlockQueue
  | [], queue => .ok queue
  | block :: blocks, queue => do appendAll blocks (← queue.append block)

/-- `FreeBlockQueue(blocks)` -/
def create (blocks : List BlockId) : Except Raised LinkedBlockQueue :=
  appendAll blocks ⟨unlinked.link .head .tail, 0⟩

/-- The queue holds these blocks, front first. -/
structure Lists (queue : LinkedBlockQueue) (xs : List BlockId) : Prop where
  threads : queue.links.Threads xs
  count : queue.numFreeBlocks = xs.length

variable {queue : LinkedBlockQueue} {xs : List BlockId} {b : BlockId}

theorem Lists.append (h : queue.Lists xs) (hb : b ∉ xs) :
    ∃ queue', queue.append b = .ok queue' ∧ queue'.Lists (FreeBlockQueue.append xs b) := by
  obtain ⟨last, hlast, hthreads⟩ := h.threads.append hb
  refine ⟨⟨_, queue.numFreeBlocks + 1⟩, ?_, hthreads, ?_⟩
  · simp only [LinkedBlockQueue.append, hlast]
    rfl
  · simp [h.count, FreeBlockQueue.append]

theorem Lists.prepend (h : queue.Lists xs) (hb : b ∉ xs) :
    ∃ queue', queue.prepend b = .ok queue' ∧ queue'.Lists (FreeBlockQueue.prepend xs b) := by
  obtain ⟨first, hfirst, hthreads⟩ := h.threads.prepend hb
  refine ⟨⟨_, queue.numFreeBlocks + 1⟩, ?_, hthreads, ?_⟩
  · simp only [LinkedBlockQueue.prepend, hfirst]
    rfl
  · simp [h.count, FreeBlockQueue.prepend]

theorem Lists.remove (h : queue.Lists xs) (hb : b ∈ xs) :
    ∃ queue', queue.remove b = .ok queue' ∧ queue'.Lists (xs.erase b) := by
  obtain ⟨prev, nxt, hprev, hnxt, hthreads⟩ := h.threads.remove hb
  refine ⟨⟨_, queue.numFreeBlocks - 1⟩, ?_, hthreads, ?_⟩
  · simp only [LinkedBlockQueue.remove, hprev, hnxt]
    rfl
  · have hpos := List.length_pos_of_mem hb
    change queue.numFreeBlocks - 1 = _
    rw [h.count, List.length_erase_of_mem hb]
    omega

theorem Lists.popleft (h : queue.Lists (b :: xs)) :
    ∃ queue', queue.popleft = .ok (b, queue') ∧ queue'.Lists xs := by
  obtain ⟨queue', hremove, hlists⟩ := h.remove List.mem_cons_self
  rw [List.erase_cons_head] at hlists
  exact ⟨queue', by simp only [LinkedBlockQueue.popleft, h.threads.next_head_cons, hremove, ok_bind,
    pure_eq_ok], hlists⟩

theorem Lists.appendAll : ∀ {ys : List BlockId} {queue : LinkedBlockQueue} {xs : List BlockId},
    queue.Lists xs → (xs ++ ys).Nodup →
    ∃ queue', LinkedBlockQueue.appendAll ys queue = .ok queue' ∧ queue'.Lists (xs ++ ys)
  | [], queue, xs, h, _ => ⟨queue, rfl, by rwa [List.append_nil]⟩
  | y :: ys, queue, xs, h, hnodup => by
      have hy : y ∉ xs := fun hmem => (List.nodup_append.mp hnodup).2.2 y hmem y (by simp) rfl
      obtain ⟨q₁, hq₁, h₁⟩ := h.append hy
      rw [List.append_cons] at hnodup
      obtain ⟨q₂, hq₂, h₂⟩ := Lists.appendAll h₁ hnodup
      refine ⟨q₂, by simp only [LinkedBlockQueue.appendAll, hq₁, ok_bind, hq₂], ?_⟩
      rwa [List.append_cons]

theorem create_lists (hnodup : xs.Nodup) : ∃ queue, create xs = .ok queue ∧ queue.Lists xs := by
  have hempty : Lists ⟨unlinked.link .head .tail, 0⟩ [] := ⟨threads_nil, rfl⟩
  have hall := hempty.appendAll (by rwa [List.nil_append])
  rwa [List.nil_append] at hall

end LinkedBlockQueue

/-! ### The pool -/

/-- `BlockPool`, with its free list and its two-level index. An inner map is the list of its block
ids in the order they were put in. -/
structure LinkedPool where
  numBlocks : Nat
  blockSize : Nat
  enableCaching : Bool
  blocks : BlockId → KVCacheBlock
  freeBlockQueue : LinkedBlockQueue
  cachedBlockHashToBlock : BlockHash → Option (List BlockId)

namespace LinkedPool

/-- `__init__` -/
def create (numBlocks blockSize : Nat) (enableCaching : Bool) : Except Raised LinkedPool :=
  if numBlocks < 2 then
    .error (.valueError s!"need at least 2 blocks (1 is the null block), got {numBlocks}")
  else if blockSize < 1 then
    .error (.valueError s!"block_size must be >= 1, got {blockSize}")
  else do
    let freeBlockQueue ← LinkedBlockQueue.create (List.range numBlocks).tail
    return { numBlocks, blockSize, enableCaching
             blocks := Function.update (fun _ => {}) nullBlockId { refCnt := 1 }
             freeBlockQueue
             cachedBlockHashToBlock := fun _ => none }

/-- `num_free_blocks` -/
def numFreeBlocks (pool : LinkedPool) : Int := pool.freeBlockQueue.numFreeBlocks

def setBlock (pool : LinkedPool) (block : BlockId) (value : KVCacheBlock) : LinkedPool :=
  { pool with blocks := Function.update pool.blocks block value }

/-- A block leaves its inner map, and the map the index once it is empty. -/
def popEntry (index : BlockHash → Option (List BlockId)) (blockHash : BlockHash) (block : BlockId) :
    BlockHash → Option (List BlockId) :=
  match index blockHash with
  | none => index
  | some byId => Function.update index blockHash
      (if byId.erase block = [] then none else some (byId.erase block))

/-- `_maybe_evict_cached_block` -/
def maybeEvictCachedBlock (pool : LinkedPool) (block : BlockId) : LinkedPool :=
  match (pool.blocks block).blockHash with
  | none => pool
  | some blockHash =>
      { pool with
        cachedBlockHashToBlock := popEntry pool.cachedBlockHashToBlock blockHash block
        blocks := Function.update pool.blocks block { pool.blocks block with blockHash := none } }

/-- One round of the loop of `get_new_blocks`. -/
def takeBlock (pool : LinkedPool) : Except Raised (BlockId × LinkedPool) := do
  let (block, freeBlockQueue) ← pool.freeBlockQueue.popleft
  if (pool.blocks block).refCnt ≠ 0 then
    throw (.assertionError s!"free block {block} still referenced")
  let pool := maybeEvictCachedBlock { pool with freeBlockQueue } block
  return (block, pool.setBlock block { pool.blocks block with refCnt := 1 })

def takeBlocks : Nat → LinkedPool → Except Raised (List BlockId × LinkedPool)
  | 0, pool => return ([], pool)
  | count + 1, pool => do
    let (block, pool) ← pool.takeBlock
    let (rest, pool) ← takeBlocks count pool
    return (block :: rest, pool)

/-- `get_new_blocks` -/
def getNewBlocks (pool : LinkedPool) (numBlocks : Int) :
    Except Raised (Option (List BlockId) × LinkedPool) :=
  if numBlocks < 0 then .error (.valueError s!"cannot allocate {numBlocks} blocks")
  else if numBlocks > pool.numFreeBlocks then .ok (none, pool)
  else do
    let (taken, pool) ← pool.takeBlocks numBlocks.toNat
    return (some taken, pool)

/-- The body of `touch`. -/
def touchBlock (pool : LinkedPool) (block : BlockId) : Except Raised LinkedPool := do
  if block = nullBlockId then return pool
  let freeBlockQueue ← (if (pool.blocks block).refCnt = 0 then pool.freeBlockQueue.remove block
    else pure pool.freeBlockQueue : Except Raised LinkedBlockQueue)
  return { pool with freeBlockQueue }.setBlock block
    { pool.blocks block with refCnt := (pool.blocks block).refCnt + 1 }

/-- `touch` -/
def touch : List BlockId → LinkedPool → Except Raised LinkedPool
  | [], pool => return pool
  | block :: blocks, pool => do touch blocks (← pool.touchBlock block)

/-- The body of `free_blocks`. -/
def freeBlock (pool : LinkedPool) (block : BlockId) : Except Raised LinkedPool :=
  if block = nullBlockId then return pool
  else if (pool.blocks block).refCnt = 0 then
    throw (.valueError s!"block {block} freed more times than referenced")
  else
    let refCnt := (pool.blocks block).refCnt - 1
    let pool := pool.setBlock block { pool.blocks block with refCnt }
    if refCnt > 0 then return pool
    else match (pool.blocks block).blockHash with
      | none => do
          let freeBlockQueue ← pool.freeBlockQueue.prepend block
          return { pool with freeBlockQueue }
      | some _ => do
          let freeBlockQueue ← pool.freeBlockQueue.append block
          return { pool with freeBlockQueue }

/-- `free_blocks` -/
def freeBlocks : List BlockId → LinkedPool → Except Raised LinkedPool
  | [], pool => return pool
  | block :: blocks, pool => do freeBlocks blocks (← pool.freeBlock block)

/-- The body of `cache_full_blocks`. -/
def cacheFullBlock (pool : LinkedPool) (block : BlockId) (blockHash : BlockHash) : LinkedPool :=
  if block = nullBlockId ∨ (pool.blocks block).blockHash.isSome then pool
  else
    let byId := (pool.cachedBlockHashToBlock blockHash).getD []
    { pool with
      blocks := Function.update pool.blocks block
        { pool.blocks block with blockHash := some blockHash }
      cachedBlockHashToBlock := Function.update pool.cachedBlockHashToBlock blockHash
        (some (if block ∈ byId then byId else byId ++ [block])) }

/-- `cache_full_blocks` -/
def cacheFullBlocks (pool : LinkedPool) (blocks : List BlockId) (blockHashes : List BlockHash) :
    Except Raised LinkedPool :=
  if !pool.enableCaching then .ok pool
  else if blocks.length ≠ blockHashes.length then
    .error (.valueError "blocks and block_hashes must describe the same blocks")
  else
    .ok ((blocks.zip blockHashes).foldl
      (fun pool entry => pool.cacheFullBlock entry.1 entry.2) pool)

/-- `reset_prefix_cache` -/
def resetPrefixCache (pool : LinkedPool) : Bool × LinkedPool :=
  if (pool.numBlocks : Int) - pool.numFreeBlocks ≠ 1 then (false, pool)
  else (true, { pool with
    blocks := fun b => { pool.blocks b with blockHash := none }
    cachedBlockHashToBlock := fun _ => none })

/-- The hash a block carries. -/
def hashOf (pool : LinkedPool) (b : BlockId) : Option BlockHash := (pool.blocks b).blockHash

/-! ### The lists behind the links -/

/-- The linked pool is this pool, with its queue threaded and its index in two levels. -/
structure Represents (linked : LinkedPool) (pool : BlockPool) : Prop where
  numBlocks : linked.numBlocks = pool.numBlocks
  enableCaching : linked.enableCaching = pool.enableCaching
  blocks : linked.blocks = pool.blocks
  queue : linked.freeBlockQueue.Lists pool.freeBlockQueue
  index : ∀ hash, (linked.cachedBlockHashToBlock hash).getD [] = pool.cachedBlockHashToBlock hash
  inner : ∀ hash, linked.cachedBlockHashToBlock hash ≠ some []

variable {linked linked' : LinkedPool} {pool pool' : BlockPool} {held : Multiset BlockId} {b : BlockId}

theorem create_represents {numBlocks blockSize : Nat} {caching : Bool}
    (h : create numBlocks blockSize caching = .ok linked) :
    ∃ pool, BlockPool.create numBlocks blockSize caching = .ok pool ∧ linked.Represents pool := by
  obtain ⟨queue, hqueue, hlists⟩ := LinkedBlockQueue.create_lists
    (show (List.range numBlocks).tail.Nodup from List.nodup_range.tail)
  unfold create at h
  unfold BlockPool.create
  split at h
  · cases h
  · rename_i htwo
    split at h
    · cases h
    · rename_i hsize
      rw [if_neg htwo, if_neg hsize]
      rw [hqueue, ok_bind, pure_eq_ok] at h
      cases h
      exact ⟨_, rfl, rfl, rfl, rfl, hlists, fun _ => rfl, fun _ => by simp⟩

theorem popEntry_getD (index : BlockHash → Option (List BlockId)) (hash hash' : BlockHash)
    (b : BlockId) : (popEntry index hash b hash').getD [] =
      if hash' = hash then ((index hash).getD []).erase b else (index hash').getD [] := by
  unfold popEntry
  cases hby : index hash with
  | none =>
    by_cases hh : hash' = hash
    · subst hh
      simp [hby]
    · simp [hh]
  | some byId =>
    by_cases hh : hash' = hash
    · subst hh
      simp only [Function.update_self, if_true, Option.getD_some]
      split
      · rename_i hnil
        exact hnil.symm
      · rfl
    · simp [hh]

theorem popEntry_inner {index : BlockHash → Option (List BlockId)} (h : ∀ hash, index hash ≠ some [])
    (hash : BlockHash) (b : BlockId) (hash' : BlockHash) : popEntry index hash b hash' ≠ some [] := by
  unfold popEntry
  cases index hash with
  | none => exact h hash'
  | some byId =>
    by_cases hh : hash' = hash
    · subst hh
      simp only [Function.update_self]
      split
      · exact nofun
      · rename_i hne
        exact fun heq => hne (Option.some.inj heq)
    · simpa only [Function.update_of_ne hh] using h hash'

theorem Represents.maybeEvict (h : linked.Represents pool) (b : BlockId) :
    (linked.maybeEvictCachedBlock b).Represents (pool.maybeEvictCachedBlock b) := by
  unfold LinkedPool.maybeEvictCachedBlock BlockPool.maybeEvictCachedBlock
  rw [h.blocks]
  cases hhash : (pool.blocks b).blockHash with
  | none => exact h
  | some hash =>
    refine ⟨h.numBlocks, h.enableCaching, rfl, h.queue, fun hash' => ?_,
      popEntry_inner h.inner hash b⟩
    dsimp only
    rw [popEntry_getD, h.index, h.index]
    by_cases hh : hash' = hash
    · simp [hh]
    · simp [hh]

theorem Represents.setBlock (h : linked.Represents pool) (b : BlockId) (value : KVCacheBlock) :
    (linked.setBlock b value).Represents (pool.setBlock b value) :=
  ⟨h.numBlocks, h.enableCaching, by simp only [LinkedPool.setBlock, BlockPool.setBlock, h.blocks],
    h.queue, h.index, h.inner⟩

theorem Represents.setQueue (h : linked.Represents pool) {freeBlockQueue : LinkedBlockQueue}
    {queue : FreeBlockQueue} (hlists : freeBlockQueue.Lists queue) :
    { linked with freeBlockQueue }.Represents { pool with freeBlockQueue := queue } :=
  ⟨h.numBlocks, h.enableCaching, h.blocks, hlists, h.index, h.inner⟩

/-- What a round of allocation does on lists, it does on links. -/
theorem Represents.takeBlock (h : linked.Represents pool) (htake : pool.takeBlock = .ok (b, pool')) :
    ∃ linked', linked.takeBlock = .ok (b, linked') ∧ linked'.Represents pool' := by
  have hqueue := h.queue
  unfold BlockPool.takeBlock at htake
  cases hq : pool.freeBlockQueue with
  | nil =>
    rw [hq] at htake
    cases htake
  | cons first rest =>
    rw [hq] at htake hqueue
    obtain ⟨queue', hpop, hlists⟩ := hqueue.popleft
    simp only [FreeBlockQueue.popleft, ok_bind] at htake
    split at htake
    · cases htake
    · rename_i hzero
      simp only [pure_eq_ok, Except.ok.injEq, Prod.mk.injEq] at htake
      obtain ⟨rfl, rfl⟩ := htake
      have hevicted := (h.setQueue hlists).maybeEvict first
      refine ⟨_, ?_, hevicted.setBlock first _⟩
      rw [← h.blocks] at hzero
      simp only [LinkedPool.takeBlock, hpop, ok_bind, if_neg hzero, pure_eq_ok]
      rw [hevicted.blocks]

theorem Represents.touchBlock (h : linked.Represents pool) (htouch : pool.touchBlock b = .ok pool') :
    ∃ linked', linked.touchBlock b = .ok linked' ∧ linked'.Represents pool' := by
  obtain ⟨numBlocks, blockSize, caching, blocks, queue, index⟩ := linked
  obtain rfl : blocks = pool.blocks := h.blocks
  unfold BlockPool.touchBlock at htouch
  unfold LinkedPool.touchBlock
  by_cases hnull : b = nullBlockId
  · rw [if_pos hnull] at htouch ⊢
    cases htouch
    exact ⟨_, rfl, h⟩
  rw [if_neg hnull] at htouch ⊢
  by_cases hzero : (pool.blocks b).refCnt = 0
  · rw [if_pos hzero] at htouch
    unfold FreeBlockQueue.remove at htouch
    split at htouch
    · rename_i hmem
      obtain ⟨queue', hremove, hlists⟩ := h.queue.remove hmem
      cases htouch
      refine ⟨_, ?_, (h.setQueue hlists).setBlock b _⟩
      simp only [hzero, if_true, hremove, ok_bind, pure_eq_ok]
    · cases htouch
  · rw [if_neg hzero] at htouch
    cases htouch
    refine ⟨_, ?_, (h.setQueue h.queue).setBlock b _⟩
    simp only [hzero, if_false, ok_bind, pure_eq_ok]

theorem Represents.freeBlock (h : linked.Represents pool) (hnotin : b ∉ pool.freeBlockQueue)
    (hfree : pool.freeBlock b = .ok pool') :
    ∃ linked', linked.freeBlock b = .ok linked' ∧ linked'.Represents pool' := by
  obtain ⟨numBlocks, blockSize, caching, blocks, queue, index⟩ := linked
  obtain rfl : blocks = pool.blocks := h.blocks
  unfold BlockPool.freeBlock at hfree
  unfold LinkedPool.freeBlock
  by_cases hnull : b = nullBlockId
  · rw [if_pos hnull] at hfree ⊢
    cases hfree
    exact ⟨_, rfl, h⟩
  rw [if_neg hnull] at hfree ⊢
  by_cases hzero : (pool.blocks b).refCnt = 0
  · rw [if_pos hzero] at hfree
    cases hfree
  rw [if_neg hzero] at hfree ⊢
  have hset := h.setBlock b { pool.blocks b with refCnt := (pool.blocks b).refCnt - 1 }
  obtain ⟨_, hprepend, hfront⟩ := h.queue.prepend hnotin
  obtain ⟨_, happend, hback⟩ := h.queue.append hnotin
  dsimp only at hfree hprepend happend ⊢
  by_cases hmore : (pool.blocks b).refCnt - 1 > 0
  · rw [if_pos hmore] at hfree ⊢
    cases hfree
    exact ⟨_, rfl, hset⟩
  rw [if_neg hmore] at hfree ⊢
  simp only [LinkedPool.setBlock, BlockPool.setBlock, Function.update_self] at hfree hset ⊢
  cases hhash : (pool.blocks b).blockHash with
  | none =>
    simp only [hhash] at hfree hset ⊢
    cases hfree
    refine ⟨_, ?_, hset.setQueue hfront⟩
    simp only [hprepend, ok_bind, pure_eq_ok]
  | some hash =>
    simp only [hhash] at hfree hset ⊢
    cases hfree
    refine ⟨_, ?_, hset.setQueue hback⟩
    simp only [happend, ok_bind, pure_eq_ok]

theorem Represents.cacheFullBlock (h : linked.Represents pool) (hholds : pool.Holds held)
    (b : BlockId) (hash : BlockHash) :
    (linked.cacheFullBlock b hash).Represents (pool.cacheFullBlock b hash) := by
  unfold LinkedPool.cacheFullBlock BlockPool.cacheFullBlock
  rw [h.blocks]
  split
  · exact h
  · rename_i hfree
    have hnone : (pool.blocks b).blockHash = none := by
      rw [not_or, Bool.not_eq_true, Option.isSome_eq_false_iff, Option.isNone_iff_eq_none] at hfree
      exact hfree.2
    have hnotin : b ∉ (linked.cachedBlockHashToBlock hash).getD [] := by
      rw [h.index, hholds.index_iff, hnone]
      exact nofun
    refine ⟨h.numBlocks, h.enableCaching, rfl, h.queue, fun hash' => ?_, fun hash' => ?_⟩
    · by_cases hh : hash' = hash
      · subst hh
        simp only [Function.update_self, if_neg hnotin, Option.getD_some]
        rw [h.index]
      · simp only [Function.update_of_ne hh, h.index]
    · by_cases hh : hash' = hash
      · subst hh
        simp [hnotin]
      · simpa only [Function.update_of_ne hh] using h.inner hash'

theorem Represents.resetPrefixCache (h : linked.Represents pool) (hholds : pool.Holds held) :
    linked.resetPrefixCache.1 = pool.resetPrefixCache.1 ∧
      linked.resetPrefixCache.2.Represents pool.resetPrefixCache.2 := by
  have hcount : (linked.numBlocks : Int) - linked.numFreeBlocks ≠ 1 ↔
      pool.numBlocks - pool.numFreeBlocks ≠ 1 := by
    have hle : pool.freeBlockQueue.length ≤ pool.numBlocks := by
      have hsub : pool.freeBlockQueue ⊆ List.range pool.numBlocks := fun b hb =>
        List.mem_range.mpr (hholds.free_of_queue hb).2.1
      simpa using (hholds.queue_nodup.subperm hsub).length_le
    rw [h.numBlocks, LinkedPool.numFreeBlocks, h.queue.count, BlockPool.numFreeBlocks]
    omega
  unfold LinkedPool.resetPrefixCache BlockPool.resetPrefixCache
  by_cases hused : pool.numBlocks - pool.numFreeBlocks ≠ 1
  · rw [if_pos hused, if_pos (hcount.mpr hused)]
    exact ⟨rfl, h⟩
  · rw [if_neg hused, if_neg fun hlinked => hused (hcount.mp hlinked)]
    exact ⟨rfl, h.numBlocks, h.enableCaching, by simp only [h.blocks], h.queue, fun _ => rfl,
      fun _ => by simp⟩

/-! ### Calls

`Good` is the invariant: behind the links are lists whose accounts are those of the callers and
whose queue is in the order of their frees. -/

/-- The lists behind a linked pool account for what its callers hold and freed. -/
def Good (linked : LinkedPool) (holding : Holding) : Prop :=
  ∃ pool, linked.Represents pool ∧ pool.Aged holding

variable {holding : Holding}

theorem Good.touchBlock (h : linked.Good holding) (hlt : b < linked.numBlocks) :
    ∃ linked', linked.touchBlock b = .ok linked' ∧ linked'.Good (holding.take b) ∧
      linked'.numBlocks = linked.numBlocks := by
  obtain ⟨pool, hrep, haged⟩ := h
  obtain ⟨pool', htouch, haged', hgeo⟩ := haged.touchBlock (hrep.numBlocks ▸ hlt)
  obtain ⟨linked', hlinked, hrep'⟩ := hrep.touchBlock htouch
  refine ⟨linked', hlinked, ⟨pool', hrep', haged'⟩, ?_⟩
  rw [hrep.numBlocks, hrep'.numBlocks]
  exact congrArg Prod.fst hgeo

theorem Good.freeBlock (h : linked.Good holding) (hb : b = nullBlockId ∨ b ∈ holding.held) :
    ∃ linked', linked.freeBlock b = .ok linked' ∧ linked'.Good (holding.drop b) := by
  rcases hb with rfl | hb
  · exact ⟨linked, rfl, by simpa [Holding.drop] using h⟩
  obtain ⟨pool, hrep, haged⟩ := h
  obtain ⟨pool', hfree, haged', -⟩ := haged.freeBlock hb
  have hnotin : b ∉ pool.freeBlockQueue := fun hmem =>
    Multiset.count_ne_zero.mpr hb (haged.holds.free_of_queue hmem).2.2
  obtain ⟨linked', hlinked, hrep'⟩ := hrep.freeBlock hnotin hfree
  exact ⟨linked', hlinked, pool', hrep', haged'⟩

theorem Good.cacheFullBlock (h : linked.Good holding) (hon : linked.enableCaching = true)
    (hb : b = nullBlockId ∨ b ∈ holding.held) (hash : BlockHash) :
    (linked.cacheFullBlock b hash).Good holding := by
  rcases hb with rfl | hb
  · simpa [LinkedPool.cacheFullBlock] using h
  obtain ⟨pool, hrep, haged⟩ := h
  exact ⟨_, hrep.cacheFullBlock haged.holds b hash,
    haged.cacheFullBlock (hrep.enableCaching ▸ hon) hb hash⟩

theorem Good.touch (bs : List BlockId) : ∀ {linked : LinkedPool} {holding : Holding},
    linked.Good holding → (∀ b ∈ bs, b < linked.numBlocks) →
    ∃ linked', LinkedPool.touch bs linked = .ok linked' ∧
      linked'.Good (bs.foldl Holding.take holding) := by
  induction bs with
  | nil => exact fun {linked} _ h _ => ⟨linked, rfl, h⟩
  | cons b bs ih =>
    intro linked holding h hbs
    obtain ⟨l₁, hl₁, h₁, hn₁⟩ := h.touchBlock (hbs b List.mem_cons_self)
    obtain ⟨l₂, hl₂, h₂⟩ := ih h₁ fun b' hb' => hn₁ ▸ hbs b' (List.mem_cons_of_mem _ hb')
    exact ⟨l₂, by simp only [LinkedPool.touch, hl₁, ok_bind, hl₂], h₂⟩

/-- Every free of a call drops a reference that is held at that point. -/
def Droppable (holding : Holding) : List BlockId → Prop
  | [] => True
  | b :: bs => (b = nullBlockId ∨ b ∈ holding.held) ∧ Droppable (holding.drop b) bs

theorem Good.freeBlocks (bs : List BlockId) : ∀ {linked : LinkedPool} {holding : Holding},
    linked.Good holding → Droppable holding bs →
    ∃ linked', LinkedPool.freeBlocks bs linked = .ok linked' ∧
      linked'.Good (bs.foldl Holding.drop holding) := by
  induction bs with
  | nil => exact fun {linked} _ h _ => ⟨linked, rfl, h⟩
  | cons b bs ih =>
    intro linked holding h hbs
    obtain ⟨l₁, hl₁, h₁⟩ := h.freeBlock hbs.1
    obtain ⟨l₂, hl₂, h₂⟩ := ih h₁ hbs.2
    exact ⟨l₂, by simp only [LinkedPool.freeBlocks, hl₁, ok_bind, hl₂], h₂⟩

theorem cacheFullBlock_enableCaching (linked : LinkedPool) (b : BlockId) (hash : BlockHash) :
    (linked.cacheFullBlock b hash).enableCaching = linked.enableCaching := by
  unfold cacheFullBlock
  split <;> rfl

theorem Good.cacheFullBlocks (h : linked.Good holding) {bs : List BlockId} {hashes : List BlockHash}
    (hlen : bs.length = hashes.length) (hbs : ∀ b ∈ bs, b = nullBlockId ∨ b ∈ holding.held) :
    ∃ linked', linked.cacheFullBlocks bs hashes = .ok linked' ∧ linked'.Good holding := by
  unfold LinkedPool.cacheFullBlocks
  cases hon : linked.enableCaching with
  | false => exact ⟨linked, rfl, h⟩
  | true =>
    have hentries : ∀ entry ∈ bs.zip hashes, entry.1 = nullBlockId ∨ entry.1 ∈ holding.held :=
      fun entry hentry => hbs _ (List.of_mem_zip hentry).1
    simp only [Bool.not_true, Bool.false_eq_true, if_false, hlen, ne_eq, not_true_eq_false]
    refine ⟨_, rfl, ?_⟩
    generalize bs.zip hashes = entries at hentries
    induction entries generalizing linked with
    | nil => exact h
    | cons entry entries ih =>
      refine ih (h.cacheFullBlock hon (hentries entry List.mem_cons_self) entry.2) ?_
        fun e he => hentries e (List.mem_cons_of_mem _ he)
      rw [cacheFullBlock_enableCaching, hon]

theorem Good.resetPrefixCache (h : linked.Good holding) : linked.resetPrefixCache.2.Good holding := by
  obtain ⟨pool, hrep, haged⟩ := h
  exact ⟨_, (hrep.resetPrefixCache haged.holds).2, haged.resetPrefixCache⟩

/-- Allocation: the front of the queue, block by block. -/
theorem Represents.takeBlocks (count : Nat) : ∀ {linked : LinkedPool} {pool : BlockPool}
    {holding : Holding}, linked.Represents pool → pool.Aged holding →
    count ≤ pool.freeBlockQueue.length →
    ∃ linked' pool', linked.takeBlocks count = .ok (pool.freeBlockQueue.take count, linked') ∧
      linked'.Represents pool' ∧
      pool'.Aged ((pool.freeBlockQueue.take count).foldl Holding.take holding) ∧
      (∀ b ∈ pool.freeBlockQueue.take count, pool'.hashOf b = none) ∧
      ∀ b ∉ pool.freeBlockQueue.take count, pool'.hashOf b = pool.hashOf b := by
  induction count with
  | zero => exact fun {linked pool _} hrep haged _ => ⟨linked, pool, rfl, hrep, haged, by simp, by simp⟩
  | succ count ih =>
    intro linked pool holding hrep haged hle
    cases hq : pool.freeBlockQueue with
    | nil =>
      rw [hq] at hle
      exact absurd hle (Nat.not_succ_le_zero count)
    | cons b rest =>
      obtain ⟨p₁, htake, h₁, hrest, -, hnone, hkeep⟩ := haged.takeBlock hq
      obtain ⟨l₁, hl₁, hrep₁⟩ := hrep.takeBlock htake
      have hnotin : b ∉ rest := (List.nodup_cons.mp (hq ▸ haged.holds.queue_nodup)).1
      rw [hq, List.length_cons] at hle
      obtain ⟨l₂, p₂, hl₂, hrep₂, h₂, hn₂, hk₂⟩ :=
        ih hrep₁ h₁ (by rw [hrest]; exact Nat.le_of_succ_le_succ hle)
      rw [hrest] at hl₂ h₂ hn₂ hk₂
      refine ⟨l₂, p₂, ?_, hrep₂, by simpa using h₂, fun b' hb' => ?_, fun b' hb' => ?_⟩
      · simp only [LinkedPool.takeBlocks, hl₁, ok_bind, hl₂, pure_eq_ok, List.take_succ_cons]
      · rcases List.mem_cons.mp (List.take_succ_cons ▸ hb') with rfl | hb'
        · rw [hk₂ b' fun hmem => hnotin (List.mem_of_mem_take hmem), hnone]
        · exact hn₂ b' hb'
      · rw [List.take_succ_cons, List.mem_cons, not_or] at hb'
        rw [hk₂ b' hb'.2, hkeep b' hb'.1]

end LinkedPool

/-! ### Runs -/

/-- A pool and what its callers did. -/
structure PoolWorld where
  pool : LinkedPool
  holding : Holding := {}

/-- A call on the pool. -/
inductive PoolOp
  | getNewBlocks (numBlocks : Int)
  | touch (blocks : List BlockId)
  | freeBlocks (blocks : List BlockId)
  | cacheFullBlocks (blocks : List BlockId) (blockHashes : List BlockHash)
  | resetPrefixCache
  deriving DecidableEq, Repr

namespace PoolWorld

def step (w : PoolWorld) : PoolOp → Except Raised PoolWorld
  | .getNewBlocks numBlocks => do
      let (taken, pool) ← w.pool.getNewBlocks numBlocks
      return ⟨pool, (taken.getD []).foldl Holding.take w.holding⟩
  | .touch blocks => do
      let pool ← LinkedPool.touch blocks w.pool
      return ⟨pool, blocks.foldl Holding.take w.holding⟩
  | .freeBlocks blocks => do
      let pool ← LinkedPool.freeBlocks blocks w.pool
      return ⟨pool, blocks.foldl Holding.drop w.holding⟩
  | .cacheFullBlocks blocks blockHashes => do
      let pool ← w.pool.cacheFullBlocks blocks blockHashes
      return ⟨pool, w.holding⟩
  | .resetPrefixCache => return ⟨w.pool.resetPrefixCache.2, w.holding⟩

/-- Callers pass blocks of the pool, free what they hold, and index what they hold. -/
def Allowed (w : PoolWorld) : PoolOp → Prop
  | .touch blocks => ∀ b ∈ blocks, b < w.pool.numBlocks
  | .freeBlocks blocks => LinkedPool.Droppable w.holding blocks
  | .cacheFullBlocks blocks _ => ∀ b ∈ blocks, b = nullBlockId ∨ b ∈ w.holding.held
  | _ => True

/-- The calls that raise, before they change anything. -/
def Refused (w : PoolWorld) : PoolOp → Prop
  | .getNewBlocks numBlocks => numBlocks < 0
  | .cacheFullBlocks blocks blockHashes =>
      w.pool.enableCaching = true ∧ blocks.length ≠ blockHashes.length
  | _ => False

/-- The free queue is `fresh` and then `cached`, whichever way it is walked. -/
structure Shape (w : PoolWorld) (fresh cached : List BlockId) : Prop where
  forward : Walks w.pool.freeBlockQueue.links.next .tail .head (fresh ++ cached)
  backward : Walks w.pool.freeBlockQueue.links.prev .head .tail (fresh ++ cached).reverse
  nodup : (fresh ++ cached).Nodup
  free : ∀ b, b ∈ fresh ++ cached ↔
    b ≠ nullBlockId ∧ b < w.pool.numBlocks ∧ (w.pool.blocks b).refCnt = 0
  count : w.pool.numFreeBlocks = (fresh ++ cached).length
  unhashed : ∀ b ∈ fresh, w.pool.hashOf b = none
  hashed : ∀ b ∈ cached, (w.pool.hashOf b).isSome
  aged : cached.Pairwise fun b b' => w.holding.lastFreed b < w.holding.lastFreed b'

/-- The index lists a block under a hash exactly if the block carries it. -/
structure Indexed (w : PoolWorld) : Prop where
  entry : ∀ hash b, (∃ byId, w.pool.cachedBlockHashToBlock hash = some byId ∧ b ∈ byId) ↔
    w.pool.hashOf b = some hash
  inner : ∀ hash byId, w.pool.cachedBlockHashToBlock hash = some byId → byId ≠ [] ∧ byId.Nodup

/-- Allocation takes the hashless blocks and then the cached ones freed longest ago, which lose
their hashes; a pool that is short refuses and stays as it is. -/
structure Allocates (w : PoolWorld) (fresh cached : List BlockId) : Prop where
  granted : ∀ n : Nat, n ≤ (fresh ++ cached).length →
    ∃ pool', w.pool.getNewBlocks n = .ok (some ((fresh ++ cached).take n), pool') ∧
      ((fresh ++ cached).take n).filter (fun b => (w.pool.hashOf b).isSome) =
        cached.take (n - fresh.length) ∧
      (cached.take (n - fresh.length)).length = n - fresh.length ∧
      (∀ b, (w.pool.hashOf b).isSome ∧ pool'.hashOf b = none ↔ b ∈ cached.take (n - fresh.length)) ∧
      ∀ b ∈ cached.take (n - fresh.length), ∀ b' ∈ cached.drop (n - fresh.length),
        w.holding.lastFreed b < w.holding.lastFreed b'
  short : ∀ n : Nat, (fresh ++ cached).length < n → w.pool.getNewBlocks n = .ok (none, w.pool)

variable {w w' : PoolWorld} {fresh cached : List BlockId}

/-- **One call.** Unless it is refused, an allowed call returns and keeps the invariant. -/
theorem step_good (h : w.pool.Good w.holding) {op : PoolOp} (hallowed : w.Allowed op)
    (hrefused : ¬ w.Refused op) : ∃ w', w.step op = .ok w' ∧ w'.pool.Good w'.holding := by
  cases op with
  | getNewBlocks numBlocks =>
    obtain ⟨pool, hrep, haged⟩ := h
    have hfree : w.pool.numFreeBlocks = pool.freeBlockQueue.length := hrep.queue.count
    have hnat : ¬ numBlocks < 0 := hrefused
    by_cases hshort : numBlocks > w.pool.numFreeBlocks
    · refine ⟨⟨w.pool, w.holding⟩, ?_, pool, hrep, haged⟩
      simp only [step, LinkedPool.getNewBlocks, if_neg hnat, if_pos hshort]
      rfl
    · have hroom : numBlocks.toNat ≤ pool.freeBlockQueue.length := by omega
      obtain ⟨linked', pool', htake, hrep', haged', -⟩ :=
        hrep.takeBlocks numBlocks.toNat haged hroom
      refine ⟨⟨linked', _⟩, ?_, pool', hrep', haged'⟩
      simp only [step, LinkedPool.getNewBlocks, if_neg hnat, if_neg hshort, htake, ok_bind,
        pure_eq_ok, Option.getD_some]
  | touch blocks =>
    obtain ⟨pool, htouch, hgood⟩ := LinkedPool.Good.touch blocks h hallowed
    exact ⟨_, by simp only [step, htouch, ok_bind, pure_eq_ok]; rfl, hgood⟩
  | freeBlocks blocks =>
    obtain ⟨pool, hfree, hgood⟩ := LinkedPool.Good.freeBlocks blocks h hallowed
    exact ⟨_, by simp only [step, hfree, ok_bind, pure_eq_ok]; rfl, hgood⟩
  | cacheFullBlocks blocks blockHashes =>
    by_cases hlen : blocks.length = blockHashes.length
    · obtain ⟨pool, hcache, hgood⟩ := h.cacheFullBlocks hlen hallowed
      exact ⟨_, by simp only [step, hcache, ok_bind, pure_eq_ok]; rfl, hgood⟩
    · have hoff : w.pool.enableCaching = false := by
        rw [← Bool.not_eq_true]
        exact fun hon => hrefused ⟨hon, hlen⟩
      refine ⟨⟨w.pool, w.holding⟩, ?_, h⟩
      simp only [step, LinkedPool.cacheFullBlocks, hoff, Bool.not_false, if_true]
      rfl
  | resetPrefixCache => exact ⟨_, rfl, h.resetPrefixCache⟩

/-- A refused call raises. -/
theorem step_refused {op : PoolOp} (h : w.Refused op) :
    ∃ message, w.step op = .error (.valueError message) := by
  cases op with
  | getNewBlocks numBlocks =>
    have hneg : numBlocks < 0 := h
    exact ⟨_, by simp only [step, LinkedPool.getNewBlocks, if_pos hneg]; rfl⟩
  | cacheFullBlocks blocks blockHashes =>
    exact ⟨_, by
      simp only [step, LinkedPool.cacheFullBlocks, h.1, Bool.not_true, Bool.false_eq_true, if_false,
        if_pos h.2]
      rfl⟩
  | touch blocks => exact absurd h id
  | freeBlocks blocks => exact absurd h id
  | resetPrefixCache => exact absurd h id

theorem run_good (h : w.pool.Good w.holding) {ops : List PoolOp}
    (hrun : Run (Guarded (fun w op w' => w.step op = .ok w') Allowed) w ops w') :
    w'.pool.Good w'.holding := by
  refine hrun.invariant (I := fun w => w.pool.Good w.holding) (fun w op w' hw hstep => ?_) h
  have hrefused : ¬ w.Refused op := fun hrefused => by
    obtain ⟨message, hraise⟩ := step_refused hrefused
    cases hstep.1.symm.trans hraise
  obtain ⟨w₁, hw₁, hgood⟩ := step_good hw hstep.2 hrefused
  rw [hstep.1] at hw₁
  cases hw₁
  exact hgood

/-! ### What the lists say about the links -/

/-- The hashed blocks among the first `n`. -/
theorem filter_take_hashed {pool : BlockPool} (h : pool.Layered fresh cached) (n : Nat) :
    ((fresh ++ cached).take n).filter (fun b => (pool.hashOf b).isSome) =
      cached.take (n - fresh.length) := by
  rw [List.take_append, List.filter_append]
  have hfresh : (fresh.take n).filter (fun b => (pool.hashOf b).isSome) = [] :=
    List.filter_eq_nil_iff.mpr fun b hb => by simp [h.unhashed b (List.mem_of_mem_take hb)]
  have hcached : (cached.take (n - fresh.length)).filter (fun b => (pool.hashOf b).isSome) =
      cached.take (n - fresh.length) :=
    List.filter_eq_self.mpr fun b hb => h.hashed b (List.mem_of_mem_take hb)
  rw [hfresh, hcached, List.nil_append]

/-- In a list ordered by a relation, what is taken is below what is left. -/
theorem pairwise_take_drop {R : BlockId → BlockId → Prop} {xs : List BlockId} (h : xs.Pairwise R)
    (k : Nat) : ∀ b ∈ xs.take k, ∀ b' ∈ xs.drop k, R b b' := by
  rw [← List.take_append_drop k xs] at h
  exact fun b hb b' hb' => (List.pairwise_append.mp h).2.2 b hb b' hb'

theorem shape_of_good (h : w.pool.Good w.holding) :
    ∃ fresh cached, w.Shape fresh cached ∧ w.Indexed ∧ w.Allocates fresh cached := by
  obtain ⟨pool, hrep, haged⟩ := h
  obtain ⟨fresh, cached, hlayered, hordered⟩ := haged.layered
  have hblocks : ∀ b, w.pool.hashOf b = pool.hashOf b := fun b => by
    rw [LinkedPool.hashOf, hrep.blocks]
    rfl
  have hholds := haged.holds
  have hqueue := hrep.queue
  rw [hlayered.queue] at hqueue
  refine ⟨fresh, cached, ⟨hqueue.threads.walks, hqueue.threads.walks_back,
    hlayered.nodup hholds, fun b => ?_, hqueue.count, fun b hb => ?_, fun b hb => ?_, hordered⟩,
    ⟨fun hash b => ?_, fun hash byId hby => ?_⟩, ⟨fun n hn => ?_, fun n hn => ?_⟩⟩
  · rw [← hlayered.queue, hholds.queue_iff, hrep.numBlocks, hrep.blocks]
    constructor
    · rintro ⟨hnull, hlt, hcount⟩
      exact ⟨hnull, hlt, (hholds.ref b hnull).trans hcount⟩
    · rintro ⟨hnull, hlt, href⟩
      exact ⟨hnull, hlt, (hholds.ref b hnull).symm.trans href⟩
  · rw [hblocks]
    exact hlayered.unhashed b hb
  · rw [hblocks]
    exact hlayered.hashed b hb
  · have hindex := hholds.index_iff hash b
    rw [← hrep.index] at hindex
    rw [hblocks]
    refine Iff.trans ?_ hindex
    cases w.pool.cachedBlockHashToBlock hash <;> simp
  · refine ⟨fun hnil => hrep.inner hash (hnil ▸ hby), ?_⟩
    have hnodup := hholds.index_nodup hash
    rwa [← hrep.index, hby, Option.getD_some] at hnodup
  · have hle : n ≤ pool.freeBlockQueue.length := hlayered.queue ▸ hn
    obtain ⟨linked', pool', htake, hrep', -, hnone, hkeep⟩ := hrep.takeBlocks n haged hle
    have hfree : ¬ (n : Int) > w.pool.numFreeBlocks := by
      rw [LinkedPool.numFreeBlocks, hqueue.count]
      omega
    rw [hlayered.queue] at htake hnone hkeep
    have hblocks' : ∀ b, linked'.hashOf b = pool'.hashOf b := fun b => by
      rw [LinkedPool.hashOf, hrep'.blocks]
      rfl
    have hfilter := filter_take_hashed hlayered n
    refine ⟨linked', ?_, ?_, ?_, fun b => ?_, pairwise_take_drop hordered _⟩
    · simp only [LinkedPool.getNewBlocks, Int.toNat_natCast, htake, ok_bind, pure_eq_ok, if_neg hfree,
        if_neg (not_lt.mpr (Int.natCast_nonneg n))]
    · simpa only [hblocks] using hfilter
    · rw [List.length_take, Nat.min_eq_left]
      rw [List.length_append] at hn
      omega
    · rw [hblocks, hblocks', ← hfilter, List.mem_filter]
      constructor
      · rintro ⟨hsome, hlost⟩
        refine ⟨?_, hsome⟩
        by_contra hnot
        rw [← hkeep b hnot, hlost] at hsome
        cases hsome
      · rintro ⟨hmem, hsome⟩
        exact ⟨hsome, hnone b hmem⟩
  · have hfree : (n : Int) > w.pool.numFreeBlocks := by
      rw [LinkedPool.numFreeBlocks, hqueue.count]
      omega
    simp only [LinkedPool.getNewBlocks, if_pos hfree, if_neg (not_lt.mpr (Int.natCast_nonneg n))]

/-- **Representation and eviction order.** After any run of calls from a fresh pool: the free list,
walked either way, is the blocks nobody holds, each once, hashless ones first and the others in the
order they were last freed; the index says what the blocks say; allocation evicts only as many
cached blocks as the hashless ones fall short, those freed longest ago, or refuses and changes
nothing; and every further call returns, unless it is one that raises before it changes anything. -/
theorem run_in_order {numBlocks blockSize : Nat} {caching : Bool} {pool : LinkedPool}
    (hstart : LinkedPool.create numBlocks blockSize caching = .ok pool) {ops : List PoolOp}
    (hrun : Run (Guarded (fun w op w' => w.step op = .ok w') Allowed) { pool } ops w) :
    (∃ fresh cached, w.Shape fresh cached ∧ w.Indexed ∧ w.Allocates fresh cached) ∧
      ∀ op, w.Allowed op →
        (w.Refused op → ∃ message, w.step op = .error (.valueError message)) ∧
        (¬ w.Refused op → ∃ w', w.step op = .ok w') := by
  obtain ⟨lists, hcreate, hrep⟩ := LinkedPool.create_represents hstart
  have hgood : w.pool.Good w.holding := run_good ⟨lists, hrep, .create hcreate⟩ hrun
  refine ⟨shape_of_good hgood, fun op hallowed => ⟨step_refused, fun hrefused => ?_⟩⟩
  obtain ⟨w', hstep, -⟩ := step_good hgood hallowed hrefused
  exact ⟨w', hstep⟩

/-- A fresh pool of two blocks beside the null block. -/
def freshPair : PoolWorld where
  pool.numBlocks := 3
  pool.blockSize := 16
  pool.enableCaching := true
  pool.blocks := Function.update (fun _ => {}) nullBlockId { refCnt := 1 }
  pool.freeBlockQueue.links := ((((unlinked.link .head .tail).link .head (.item 1)).link
    (.item 1) .tail).link (.item 1) (.item 2)).link (.item 2) .tail
  pool.freeBlockQueue.numFreeBlocks := 2
  pool.cachedBlockHashToBlock := fun _ => none

/-- Two blocks drawn, one of them indexed, both freed: the one without a hash stands in front. -/
theorem run_in_order_pair : ∃ w : PoolWorld, w.pool.hashOf 1 = some 77 ∧
    ∃ fresh cached, w.Shape fresh cached ∧ w.Indexed ∧ w.Allocates fresh cached := by
  have hstart : LinkedPool.create 3 16 true = .ok freshPair.pool := rfl
  have hdrawn : Run (Guarded (fun (w : PoolWorld) op w' => w.step op = .ok w') Allowed) freshPair
      [.getNewBlocks 2] _ := .single ⟨rfl, trivial⟩
  have hcached := hdrawn.snoc (show Guarded _ Allowed _ (.cacheFullBlocks [1] [77]) _ from
    ⟨rfl, fun b hb => .inr (by rw [List.mem_singleton.mp hb]; decide)⟩)
  have hfreed := hcached.snoc (show Guarded _ Allowed _ (.freeBlocks [1, 2]) _ from
    ⟨rfl, .inr (by decide), .inr (by decide), trivial⟩)
  exact ⟨_, rfl, (run_in_order hstart hfreed).1⟩

end PoolWorld

end RapidLlm
