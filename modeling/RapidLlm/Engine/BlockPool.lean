import Mathlib.Data.Multiset.Count
import Mathlib.Data.Multiset.Bind
import Mathlib.Logic.Function.Basic
import RapidLlm.Lib.Outcome

/-!
# RapidLlm.Engine.BlockPool

The physical KV block pool (`engine/block_pool.py`): reference counts, the free
queue in eviction order and the hash index.

Two layers:

* the pool as the source computes it. The free list, threaded through the blocks
  there, is the list of its block ids from front to back here; the inner
  dictionaries of the hash index are lists in insertion order. What Python
  raises, the model returns as `Raised`;
* `BlockPool.Holds pool held`, which says what the pool is for: `held` is the
  multiset of references its callers have taken, a block is free exactly when
  nobody holds it, and the index lists exactly the blocks that carry a hash.

Every operation has one lemma that computes it under `Holds`, shows that it does
not raise, and says how `held` and the hashes move. Nothing above this module
unfolds an operation again.

`BlockPoolStats` is left out: it counts what the pool did and no code modelled
here reads it.
-/

namespace RapidLlm

/-- The exceptions the modelled code can raise, with the texts it raises them with. -/
inductive Raised
  | valueError (message : String)
  | indexError (message : String)
  | keyError (message : String)
  | assertionError (message : String)
  | typeError (message : String)
  | notImplementedError (message : String)
  | runtimeError (message : String)
  | structError (message : String)
  | attributeError (message : String)
  | zeroDivisionError (message : String)
  /-- Not a Python exception: the bound the model puts on a `while True` ran
  out. No run of the planner reaches it. -/
  | loopBound
  deriving DecidableEq, Repr

abbrev BlockId := Nat

/-- A chained block digest. -/
abbrev BlockHash := Nat

/-- `NULL_BLOCK_ID`: the reserved block, never handed out. -/
abbrev nullBlockId : BlockId := 0

/-- One physical block. `prev_free_block` and `next_free_block` are the queue's. -/
structure KVCacheBlock where
  refCnt : Nat := 0
  blockHash : Option BlockHash := none
  deriving DecidableEq, Repr

/-- `FreeBlockQueue`: block ids, the one evicted first in front. -/
abbrev FreeBlockQueue := List BlockId

namespace FreeBlockQueue

/-- Add a block at the back, evicted last. -/
def append (queue : FreeBlockQueue) (block : BlockId) : FreeBlockQueue := queue ++ [block]

/-- Add a block at the front, handed out first. -/
def prepend (queue : FreeBlockQueue) (block : BlockId) : FreeBlockQueue := block :: queue

/-- Remove and return the front block. -/
def popleft : FreeBlockQueue → Except Raised (BlockId × FreeBlockQueue)
  | [] => .error (.indexError "no free blocks")
  | block :: queue => .ok (block, queue)

/-- Unlink a block wherever it sits. -/
def remove (queue : FreeBlockQueue) (block : BlockId) : Except Raised FreeBlockQueue :=
  if block ∈ queue then .ok (queue.erase block)
  else .error (.valueError s!"block {block} is not in the free queue")

end FreeBlockQueue

/-- The physical blocks, handed out by reference count and eviction order.
`cachedBlockHashToBlock h` lists the blocks indexed under `h`, oldest first. -/
structure BlockPool where
  numBlocks : Nat
  blockSize : Nat
  enableCaching : Bool
  blocks : BlockId → KVCacheBlock
  freeBlockQueue : FreeBlockQueue
  cachedBlockHashToBlock : BlockHash → List BlockId

namespace BlockPool

/-- `BlockPool.__init__`: every block but the null block starts free, in id order. -/
def create (numBlocks blockSize : Nat) (enableCaching : Bool) : Except Raised BlockPool :=
  if numBlocks < 2 then
    .error (.valueError s!"need at least 2 blocks (1 is the null block), got {numBlocks}")
  else if blockSize < 1 then
    .error (.valueError s!"block_size must be >= 1, got {blockSize}")
  else
    .ok { numBlocks, blockSize, enableCaching
          blocks := Function.update (fun _ => {}) nullBlockId { refCnt := 1 }
          freeBlockQueue := (List.range numBlocks).tail
          cachedBlockHashToBlock := fun _ => [] }

/-- Blocks available right now, cached but unreferenced ones included. -/
def numFreeBlocks (pool : BlockPool) : Nat := pool.freeBlockQueue.length

/-- Any block cached under `blockHash`: the oldest of them. -/
def getCachedBlock (pool : BlockPool) (blockHash : BlockHash) : Option BlockId :=
  (pool.cachedBlockHashToBlock blockHash).head?

def setBlock (pool : BlockPool) (block : BlockId) (value : KVCacheBlock) : BlockPool :=
  { pool with blocks := Function.update pool.blocks block value }

/-- Drop a block from the hash index, if it was in it. -/
def maybeEvictCachedBlock (pool : BlockPool) (block : BlockId) : BlockPool :=
  match (pool.blocks block).blockHash with
  | none => pool
  | some blockHash =>
    { pool with
      cachedBlockHashToBlock := Function.update pool.cachedBlockHashToBlock blockHash
        ((pool.cachedBlockHashToBlock blockHash).erase block)
      blocks := Function.update pool.blocks block { pool.blocks block with blockHash := none } }

/-- One round of the loop of `get_new_blocks`. -/
def takeBlock (pool : BlockPool) : Except Raised (BlockId × BlockPool) := do
  let (block, queue) ← FreeBlockQueue.popleft pool.freeBlockQueue
  if (pool.blocks block).refCnt ≠ 0 then
    throw (.assertionError s!"free block {block} still referenced")
  let pool := maybeEvictCachedBlock { pool with freeBlockQueue := queue } block
  return (block, pool.setBlock block { pool.blocks block with refCnt := 1 })

def takeBlocks : Nat → BlockPool → Except Raised (List BlockId × BlockPool)
  | 0, pool => return ([], pool)
  | count + 1, pool => do
    let (block, pool) ← pool.takeBlock
    let (rest, pool) ← takeBlocks count pool
    return (block :: rest, pool)

/-- Take `numBlocks` free blocks, evicting cached ones if it must; `none` when
the pool is short, in which case nothing moved. -/
def getNewBlocks (pool : BlockPool) (numBlocks : Nat) :
    Except Raised (Option (List BlockId) × BlockPool) :=
  if numBlocks > pool.numFreeBlocks then .ok (none, pool)
  else do
    let (taken, pool) ← pool.takeBlocks numBlocks
    return (some taken, pool)

/-- The body of `touch`. The null block is skipped. -/
def touchBlock (pool : BlockPool) (block : BlockId) : Except Raised BlockPool := do
  if block = nullBlockId then return pool
  let queue ← (if (pool.blocks block).refCnt = 0 then
      FreeBlockQueue.remove pool.freeBlockQueue block
    else pure pool.freeBlockQueue : Except Raised FreeBlockQueue)
  return { pool with freeBlockQueue := queue }.setBlock block
    { pool.blocks block with refCnt := (pool.blocks block).refCnt + 1 }

/-- Take a reference on cached blocks a new request is about to share. -/
def touch : List BlockId → BlockPool → Except Raised BlockPool
  | [], pool => return pool
  | block :: blocks, pool => do touch blocks (← pool.touchBlock block)

/-- The body of `free_blocks`: a block nobody holds any more re-enters the free
queue, in front when it carries no hash and at the back when it does. -/
def freeBlock (pool : BlockPool) (block : BlockId) : Except Raised BlockPool :=
  if block = nullBlockId then return pool
  else if (pool.blocks block).refCnt = 0 then
    throw (.valueError s!"block {block} freed more times than referenced")
  else
    let refCnt := (pool.blocks block).refCnt - 1
    let pool := pool.setBlock block { pool.blocks block with refCnt }
    if refCnt > 0 then return pool
    else match (pool.blocks block).blockHash with
      | none => return { pool with freeBlockQueue := pool.freeBlockQueue.prepend block }
      | some _ => return { pool with freeBlockQueue := pool.freeBlockQueue.append block }

/-- Drop one reference per block, in the order given. -/
def freeBlocks : List BlockId → BlockPool → Except Raised BlockPool
  | [], pool => return pool
  | block :: blocks, pool => do freeBlocks blocks (← pool.freeBlock block)

/-- The body of `cache_full_blocks`: a block that already carries a hash is left alone. -/
def cacheFullBlock (pool : BlockPool) (block : BlockId) (blockHash : BlockHash) : BlockPool :=
  if block = nullBlockId ∨ (pool.blocks block).blockHash.isSome then pool
  else { pool with
    blocks := Function.update pool.blocks block
      { pool.blocks block with blockHash := some blockHash }
    cachedBlockHashToBlock := Function.update pool.cachedBlockHashToBlock blockHash
      (pool.cachedBlockHashToBlock blockHash ++ [block]) }

/-- Index blocks under their hashes so later prompts can hit them. -/
def cacheFullBlocks (pool : BlockPool) (blocks : List BlockId) (blockHashes : List BlockHash) :
    Except Raised BlockPool :=
  if !pool.enableCaching then .ok pool
  else if blocks.length ≠ blockHashes.length then
    .error (.valueError "blocks and block_hashes must describe the same blocks")
  else
    .ok ((blocks.zip blockHashes).foldl
      (fun pool entry => pool.cacheFullBlock entry.1 entry.2) pool)

/-- Forget every cached block, or refuse if any is still in use. -/
def resetPrefixCache (pool : BlockPool) : Bool × BlockPool :=
  if pool.numBlocks - pool.numFreeBlocks ≠ 1 then (false, pool)
  else (true, { pool with
    blocks := fun b => { pool.blocks b with blockHash := none }
    cachedBlockHashToBlock := fun _ => [] })

/-! ### What the pool is for

`held` is the multiset of references taken on the pool: a block occurs in it
once for every holder. -/

/-- The pool accounts for exactly the references `held`, and its index for exactly
the blocks that carry a hash. -/
structure Holds (pool : BlockPool) (held : Multiset BlockId) : Prop where
  two_le : 2 ≤ pool.numBlocks
  null_ref : (pool.blocks nullBlockId).refCnt = 1
  null_hash : (pool.blocks nullBlockId).blockHash = none
  ref : ∀ b, b ≠ nullBlockId → (pool.blocks b).refCnt = held.count b
  held_bound : ∀ b ∈ held, b ≠ nullBlockId ∧ b < pool.numBlocks
  queue_nodup : pool.freeBlockQueue.Nodup
  queue_iff : ∀ b, b ∈ pool.freeBlockQueue ↔
    b ≠ nullBlockId ∧ b < pool.numBlocks ∧ held.count b = 0
  index_iff : ∀ h b, b ∈ pool.cachedBlockHashToBlock h ↔ (pool.blocks b).blockHash = some h
  index_bound : ∀ h, ∀ b ∈ pool.cachedBlockHashToBlock h, b < pool.numBlocks
  index_nodup : ∀ h, (pool.cachedBlockHashToBlock h).Nodup
  index_off : pool.enableCaching = false → ∀ b, (pool.blocks b).blockHash = none

/-- What no operation changes. -/
def geometry (pool : BlockPool) : Nat × Nat × Bool :=
  (pool.numBlocks, pool.blockSize, pool.enableCaching)

/-- The hash a block carries. -/
def hashOf (pool : BlockPool) (b : BlockId) : Option BlockHash := (pool.blocks b).blockHash

variable {pool pool' : BlockPool} {held : Multiset BlockId} {b : BlockId}

/-- A fresh pool holds nothing, and nothing is indexed. -/
theorem create_holds {n size : Nat} {caching : Bool} (h : create n size caching = .ok pool) :
    pool.Holds 0 ∧ pool.geometry = (n, size, caching) ∧ ∀ b, pool.hashOf b = none := by
  unfold create at h
  split at h
  · cases h
  split at h
  · cases h
  rename_i hn _
  cases h
  refine ⟨⟨Nat.not_lt.mp hn, by simp, by simp, ?_, by simp, ?_, ?_, ?_, by simp, by simp, ?_⟩,
    rfl, ?_⟩
  · intro b hb
    simp [Function.update_of_ne hb]
  · exact List.nodup_range.tail
  · intro b
    have hr : List.range n = 0 :: (List.range n).tail := by
      obtain ⟨m, rfl⟩ : ∃ m, n = m + 1 := ⟨n - 1, by omega⟩
      simp [List.range_succ_eq_map]
    have hmem : b ∈ List.range n ↔ b = 0 ∨ b ∈ (List.range n).tail := by
      rw [← List.mem_cons, ← hr]
    rw [List.mem_range] at hmem
    by_cases h0 : b = 0
    · subst h0; simp
    · simp [h0] at hmem ⊢; tauto
  · intro hash b
    by_cases hb : b = nullBlockId <;> simp [hb]
  all_goals
    intros
    by_cases hb : (‹BlockId› : BlockId) = nullBlockId <;> simp [hashOf, hb]

/-- A free block is not the null block, and nobody holds it. -/
theorem Holds.free_of_queue (h : pool.Holds held) (hb : b ∈ pool.freeBlockQueue) :
    b ≠ nullBlockId ∧ b < pool.numBlocks ∧ held.count b = 0 :=
  (h.queue_iff b).mp hb

/-- An indexed block is a real one. -/
theorem Holds.indexed_ne_null (h : pool.Holds held) {hash : BlockHash}
    (hb : b ∈ pool.cachedBlockHashToBlock hash) : b ≠ nullBlockId := by
  rintro rfl
  have := (h.index_iff _ _).mp hb
  rw [h.null_hash] at this
  cases this

/-- What a hit returns is indexed under the hash it was looked up by. -/
theorem getCachedBlock_mem {hash : BlockHash} (h : pool.getCachedBlock hash = some b) :
    b ∈ pool.cachedBlockHashToBlock hash :=
  List.mem_of_mem_head? h

/-! ### Eviction from the index -/

theorem maybeEvict_queue (pool : BlockPool) (b : BlockId) (queue : FreeBlockQueue) :
    maybeEvictCachedBlock { pool with freeBlockQueue := queue } b =
      { maybeEvictCachedBlock pool b with freeBlockQueue := queue } := by
  cases hh : (pool.blocks b).blockHash <;> simp [maybeEvictCachedBlock, hh]

theorem maybeEvict_frame (pool : BlockPool) (b : BlockId) :
    (maybeEvictCachedBlock pool b).geometry = pool.geometry ∧
      (maybeEvictCachedBlock pool b).freeBlockQueue = pool.freeBlockQueue ∧
      (∀ b', ((maybeEvictCachedBlock pool b).blocks b').refCnt = (pool.blocks b').refCnt) ∧
      (maybeEvictCachedBlock pool b).hashOf b = none ∧
      ∀ b' ≠ b, (maybeEvictCachedBlock pool b).hashOf b' = pool.hashOf b' := by
  unfold maybeEvictCachedBlock
  split
  · rename_i hnone
    exact ⟨rfl, rfl, fun _ => rfl, hnone, fun _ _ => rfl⟩
  · refine ⟨rfl, rfl, ?_, by simp [hashOf], ?_⟩
    · intro b'
      by_cases hb : b' = b
      · subst hb; simp
      · simp [Function.update_of_ne hb]
    · intro b' hb
      simp [hashOf, Function.update_of_ne hb]

/-- Evicting a block keeps the accounting: its hash and its index entry go together. -/
theorem Holds.maybeEvict (h : pool.Holds held) (b : BlockId) :
    (maybeEvictCachedBlock pool b).Holds held := by
  unfold maybeEvictCachedBlock
  split
  · exact h
  rename_i hash hsome
  have href : ∀ b', (Function.update pool.blocks b { pool.blocks b with blockHash := none } b').refCnt =
      (pool.blocks b').refCnt := by
    intro b'
    by_cases hb : b' = b
    · subst hb; simp
    · simp [Function.update_of_ne hb]
  refine { two_le := h.two_le, null_ref := (href _).trans h.null_ref, null_hash := ?_,
           ref := fun b' hb' => (href b').trans (h.ref b' hb'), held_bound := h.held_bound,
           queue_nodup := h.queue_nodup, queue_iff := h.queue_iff, index_iff := ?_,
           index_bound := ?_, index_nodup := ?_, index_off := ?_ }
  · by_cases hb : nullBlockId = b
    · subst hb; simp
    · simpa [Function.update_of_ne hb] using h.null_hash
  · intro hash' b'
    by_cases hh : hash' = hash
    · subst hh
      simp only [Function.update_self, (h.index_nodup hash').mem_erase_iff, h.index_iff]
      by_cases hb : b' = b
      · subst hb; simp
      · simp [hb]
    · simp only [Function.update_of_ne hh, h.index_iff]
      by_cases hb : b' = b
      · subst hb; simp [hsome, Ne.symm hh]
      · simp [Function.update_of_ne hb]
  · intro hash' b' hb'
    by_cases hh : hash' = hash
    · subst hh
      simp only [Function.update_self] at hb'
      exact h.index_bound _ _ (List.mem_of_mem_erase hb')
    · simp only [Function.update_of_ne hh] at hb'
      exact h.index_bound _ _ hb'
  · intro hash'
    by_cases hh : hash' = hash
    · subst hh; simpa using (h.index_nodup hash').erase b
    · simpa [Function.update_of_ne hh] using h.index_nodup hash'
  · intro hoff b'
    by_cases hb : b' = b
    · subst hb; simp
    · simpa [Function.update_of_ne hb] using h.index_off hoff b'

/-! ### Allocation -/

/-- Handing out the front block, once it carries no hash. -/
theorem Holds.acquire (h : pool.Holds held) {rest : List BlockId}
    (hq : pool.freeBlockQueue = b :: rest) (hnone : pool.hashOf b = none) :
    (setBlock { pool with freeBlockQueue := rest } b { pool.blocks b with refCnt := 1 }).Holds
      (b ::ₘ held) := by
  have hmem : b ∈ pool.freeBlockQueue := by rw [hq]; simp
  obtain ⟨hnull, hlt, hcount⟩ := h.free_of_queue hmem
  have hnd : (b :: rest).Nodup := hq ▸ h.queue_nodup
  have hhash : ∀ b', (Function.update pool.blocks b { pool.blocks b with refCnt := 1 } b').blockHash =
      (pool.blocks b').blockHash := by
    intro b'
    by_cases hb : b' = b
    · subst hb; simp
    · simp [Function.update_of_ne hb]
  refine { two_le := h.two_le, null_ref := ?_, null_hash := (hhash _).trans h.null_hash,
           ref := ?_, held_bound := ?_, queue_nodup := (List.nodup_cons.mp hnd).2,
           queue_iff := ?_, index_iff := fun hash b' => by rw [setBlock, hhash]; exact h.index_iff hash b',
           index_bound := h.index_bound, index_nodup := h.index_nodup,
           index_off := fun hoff b' => (hhash b').trans (h.index_off hoff b') }
  · simpa [setBlock, Function.update_of_ne hnull.symm] using h.null_ref
  · intro b' hb'
    by_cases hb : b' = b
    · subst hb; simp [setBlock, hcount]
    · simp [setBlock, Function.update_of_ne hb, h.ref b' hb', Multiset.count_cons_of_ne hb]
  · intro b' hb'
    rcases Multiset.mem_cons.mp hb' with rfl | hb'
    · exact ⟨hnull, hlt⟩
    · exact h.held_bound b' hb'
  · intro b'
    have hiff := h.queue_iff b'
    rw [hq, List.mem_cons] at hiff
    by_cases hb : b' = b
    · subst hb
      simp [setBlock, (List.nodup_cons.mp hnd).1]
    · simp only [hb, false_or] at hiff
      simp [setBlock, hiff, Multiset.count_cons_of_ne hb]

/-- One round of allocation: the front block, now held and unhashed. -/
theorem takeBlock_ok (h : pool.Holds held) {rest : List BlockId}
    (hq : pool.freeBlockQueue = b :: rest) :
    ∃ pool', pool.takeBlock = .ok (b, pool') ∧ pool'.Holds (b ::ₘ held) ∧
      pool'.freeBlockQueue = rest ∧ pool'.geometry = pool.geometry ∧ pool'.hashOf b = none ∧
      ∀ b' ≠ b, pool'.hashOf b' = pool.hashOf b' := by
  have hmem : b ∈ pool.freeBlockQueue := by rw [hq]; simp
  obtain ⟨hnull, hlt, hcount⟩ := h.free_of_queue hmem
  have hzero : (pool.blocks b).refCnt = 0 := by rw [h.ref b hnull, hcount]
  obtain ⟨hgeo, hqueue, href, hnone, hhash⟩ := maybeEvict_frame pool b
  refine ⟨_, ?_, (h.maybeEvict b).acquire (hqueue.trans hq) hnone, rfl, hgeo, ?_, ?_⟩
  · simp [takeBlock, hq, FreeBlockQueue.popleft, hzero, maybeEvict_queue]
  · simpa [hashOf, setBlock] using hnone
  · intro b' hb
    simpa [hashOf, setBlock, Function.update_of_ne hb] using hhash b' hb

/-- Allocation takes the front of the free queue, and drops its hashes. -/
theorem takeBlocks_ok : ∀ (count : Nat) {pool : BlockPool} {held : Multiset BlockId},
    pool.Holds held → count ≤ pool.freeBlockQueue.length →
    ∃ pool', pool.takeBlocks count = .ok (pool.freeBlockQueue.take count, pool') ∧
      pool'.Holds (held + (pool.freeBlockQueue.take count : List BlockId)) ∧
      pool'.freeBlockQueue = pool.freeBlockQueue.drop count ∧ pool'.geometry = pool.geometry ∧
      (∀ b ∈ pool.freeBlockQueue.take count, pool'.hashOf b = none) ∧
      ∀ b ∉ pool.freeBlockQueue.take count, pool'.hashOf b = pool.hashOf b
  | 0, pool, held, h, _ => ⟨pool, by simp [takeBlocks], by simpa using h, by simp, rfl, by simp,
      by simp⟩
  | count + 1, pool, held, h, hle => by
      cases hq : pool.freeBlockQueue with
      | nil => rw [hq] at hle; simp at hle
      | cons b rest =>
        obtain ⟨p₁, hp₁, hh₁, hq₁, hg₁, hn₁, hk₁⟩ := takeBlock_ok h hq
        have hle₁ : count ≤ p₁.freeBlockQueue.length := by
          rw [hq] at hle; rw [hq₁]; simpa using hle
        obtain ⟨p₂, hp₂, hh₂, hq₂, hg₂, hn₂, hk₂⟩ := takeBlocks_ok count hh₁ hle₁
        have hb : b ∉ rest := (List.nodup_cons.mp (hq ▸ h.queue_nodup)).1
        rw [hq₁] at hp₂ hh₂ hq₂ hn₂ hk₂
        refine ⟨p₂, ?_, ?_, by simpa using hq₂, hg₂.trans hg₁, ?_, ?_⟩
        · simp [takeBlocks, hp₁, hp₂]
        · simpa [← Multiset.cons_coe, Multiset.cons_add] using hh₂
        · intro b' hb'
          rcases List.mem_cons.mp (by simpa using hb') with rfl | hb'
          · rw [hk₂ b' fun hmem => hb (List.mem_of_mem_take hmem)]; exact hn₁
          · exact hn₂ b' hb'
        · intro b' hb'
          simp only [List.take_succ_cons, List.mem_cons, not_or] at hb'
          rw [hk₂ b' hb'.2, hk₁ b' hb'.1]

/-- `get_new_blocks` on a short pool changes nothing. -/
theorem getNewBlocks_short {count : Nat} (hlt : pool.numFreeBlocks < count) :
    pool.getNewBlocks count = .ok (none, pool) := by
  simp [getNewBlocks, hlt]

/-- `pool'` is `pool` after the blocks `fresh`, which nobody held, were handed out. -/
structure Grew (pool pool' : BlockPool) (held : Multiset BlockId) (fresh : List BlockId) : Prop where
  holds : pool'.Holds (held + (fresh : Multiset BlockId))
  geometry : pool'.geometry = pool.geometry
  nodup : fresh.Nodup
  unheld : ∀ b ∈ fresh, held.count b = 0
  unhashed : ∀ b ∈ fresh, pool'.hashOf b = none
  others : ∀ b ∉ fresh, pool'.hashOf b = pool.hashOf b

/-- A hash a block carries after growth, it carried before. -/
theorem Grew.hashOf_some {fresh : List BlockId} (h : Grew pool pool' held fresh)
    {hash : BlockHash} (hb : pool'.hashOf b = some hash) : pool.hashOf b = some hash := by
  by_cases hmem : b ∈ fresh
  · rw [h.unhashed b hmem] at hb; cases hb
  · rwa [h.others b hmem] at hb

/-- `get_new_blocks` on a pool that has them: the front of the queue. -/
theorem getNewBlocks_ok (h : pool.Holds held) {count : Nat} (hle : count ≤ pool.numFreeBlocks) :
    ∃ pool', pool.getNewBlocks count = .ok (some (pool.freeBlockQueue.take count), pool') ∧
      Grew pool pool' held (pool.freeBlockQueue.take count) := by
  obtain ⟨pool', htake, hholds, _, hgeo, hnone, hkeep⟩ := takeBlocks_ok count h hle
  refine ⟨pool', by simp [getNewBlocks, Nat.not_lt.mpr hle, htake], hholds, hgeo,
    (List.take_sublist _ _).nodup h.queue_nodup, ?_, hnone, hkeep⟩
  intro b hb
  exact (h.free_of_queue (List.mem_of_mem_take hb)).2.2

/-! ### Sharing and release -/

/-- Changing a reference count touches no hash. -/
theorem hashOf_setRefCnt (pool : BlockPool) (b b' : BlockId) (refCnt : Nat) :
    (pool.setBlock b { pool.blocks b with refCnt }).hashOf b' = pool.hashOf b' := by
  by_cases hb : b' = b
  · subst hb; simp [hashOf, setBlock]
  · simp [hashOf, setBlock, Function.update_of_ne hb]

/-- Rewriting one block's count and the queue keeps the accounting, once the new
count and the new queue are those of `held'`. -/
theorem Holds.recount (h : pool.Holds held) {held' : Multiset BlockId} {refCnt : Nat}
    (queue : FreeBlockQueue) (hb : b ≠ nullBlockId) (hcount : held'.count b = refCnt)
    (hother : ∀ b' ≠ b, held'.count b' = held.count b')
    (hbound : ∀ b' ∈ held', b' ≠ nullBlockId ∧ b' < pool.numBlocks) (hnd : queue.Nodup)
    (hqueue : ∀ b', b' ∈ queue ↔ b' ≠ nullBlockId ∧ b' < pool.numBlocks ∧ held'.count b' = 0) :
    (setBlock { pool with freeBlockQueue := queue } b { pool.blocks b with refCnt }).Holds held' := by
  have hhash : ∀ b', (Function.update pool.blocks b { pool.blocks b with refCnt } b').blockHash =
      (pool.blocks b').blockHash := fun b' => hashOf_setRefCnt pool b b' refCnt
  refine { two_le := h.two_le, null_ref := ?_, null_hash := (hhash _).trans h.null_hash,
           ref := ?_, held_bound := hbound, queue_nodup := hnd, queue_iff := hqueue,
           index_iff := fun hash b' => by rw [setBlock, hhash]; exact h.index_iff hash b',
           index_bound := h.index_bound, index_nodup := h.index_nodup,
           index_off := fun hoff b' => (hhash b').trans (h.index_off hoff b') }
  · simpa [setBlock, Function.update_of_ne hb.symm] using h.null_ref
  · intro b' hb'
    by_cases hbb : b' = b
    · subst hbb; simp [setBlock, hcount]
    · simp [setBlock, Function.update_of_ne hbb, h.ref b' hb', hother b' hbb]

/-- Taking one more reference, from the free queue if need be. -/
theorem touchBlock_ok (h : pool.Holds held) (hnull : b ≠ nullBlockId) (hlt : b < pool.numBlocks) :
    ∃ pool', pool.touchBlock b = .ok pool' ∧ pool'.Holds (b ::ₘ held) ∧
      pool'.freeBlockQueue = pool.freeBlockQueue.erase b ∧ pool'.geometry = pool.geometry ∧
      pool'.cachedBlockHashToBlock = pool.cachedBlockHashToBlock ∧
      ∀ b', pool'.hashOf b' = pool.hashOf b' := by
  have hqueue : (if (pool.blocks b).refCnt = 0 then FreeBlockQueue.remove pool.freeBlockQueue b
      else pure pool.freeBlockQueue) = .ok (pool.freeBlockQueue.erase b) := by
    by_cases hz : (pool.blocks b).refCnt = 0
    · have hmem : b ∈ pool.freeBlockQueue :=
        (h.queue_iff b).mpr ⟨hnull, hlt, by rw [← h.ref b hnull, hz]⟩
      simp [hz, FreeBlockQueue.remove, hmem]
    · have hmem : b ∉ pool.freeBlockQueue := fun hmem =>
        hz (by rw [h.ref b hnull, (h.free_of_queue hmem).2.2])
      simp [hz, List.erase_of_not_mem hmem]
  refine ⟨setBlock { pool with freeBlockQueue := pool.freeBlockQueue.erase b } b
      { pool.blocks b with refCnt := (pool.blocks b).refCnt + 1 }, ?_, ?_, rfl, rfl, rfl, ?_⟩
  · rw [touchBlock, if_neg hnull, hqueue]; rfl
  · refine h.recount _ hnull (by simp [h.ref b hnull]) (fun b' hb => Multiset.count_cons_of_ne hb _)
      ?_ (h.queue_nodup.erase b) ?_
    · intro b' hb'
      rcases Multiset.mem_cons.mp hb' with rfl | hb'
      · exact ⟨hnull, hlt⟩
      · exact h.held_bound b' hb'
    · intro b'
      rw [h.queue_nodup.mem_erase_iff, h.queue_iff]
      by_cases hb : b' = b
      · subst hb; simp
      · simp [hb, Multiset.count_cons_of_ne hb]
  · exact fun b' => hashOf_setRefCnt _ b b' _

/-- `touch` on real blocks adds a reference to each, and only reorders the free queue. -/
theorem touch_ok : ∀ (bs : List BlockId) {pool : BlockPool} {held : Multiset BlockId},
    pool.Holds held → (∀ b ∈ bs, b ≠ nullBlockId ∧ b < pool.numBlocks) →
    ∃ pool', touch bs pool = .ok pool' ∧ pool'.Holds (held + (bs : Multiset BlockId)) ∧
      pool'.freeBlockQueue = pool.freeBlockQueue.diff bs ∧ pool'.geometry = pool.geometry ∧
      pool'.cachedBlockHashToBlock = pool.cachedBlockHashToBlock ∧
      ∀ b', pool'.hashOf b' = pool.hashOf b'
  | [], pool, held, h, _ => ⟨pool, rfl, by simpa using h, rfl, rfl, rfl, fun _ => rfl⟩
  | b :: bs, pool, held, h, hbs => by
      obtain ⟨p₁, hp₁, hh₁, hq₁, hg₁, hc₁, hk₁⟩ :=
        touchBlock_ok h (hbs b (by simp)).1 (hbs b (by simp)).2
      have hn₁ : p₁.numBlocks = pool.numBlocks := congrArg Prod.fst hg₁
      obtain ⟨p₂, hp₂, hh₂, hq₂, hg₂, hc₂, hk₂⟩ :=
        touch_ok bs hh₁ fun b' hb' => hn₁ ▸ hbs b' (by simp [hb'])
      refine ⟨p₂, ?_, ?_, ?_, hg₂.trans hg₁, hc₂.trans hc₁, fun b' => (hk₂ b').trans (hk₁ b')⟩
      · simp [touch, hp₁, hp₂]
      · simpa [← Multiset.cons_coe, Multiset.cons_add] using hh₂
      · rw [hq₂, hq₁, List.diff_cons]

/-- Dropping one reference a caller holds. -/
theorem freeBlock_ok (h : pool.Holds held) (hb : b ∈ held) :
    ∃ pool', pool.freeBlock b = .ok pool' ∧ pool'.Holds (held.erase b) ∧
      pool'.geometry = pool.geometry ∧
      pool'.cachedBlockHashToBlock = pool.cachedBlockHashToBlock ∧
      ∀ b', pool'.hashOf b' = pool.hashOf b' := by
  obtain ⟨hnull, hlt⟩ := h.held_bound b hb
  have hpos : 0 < held.count b := Multiset.count_pos.mpr hb
  have href := h.ref b hnull
  have hbound : ∀ b' ∈ held.erase b, b' ≠ nullBlockId ∧ b' < pool.numBlocks :=
    fun b' hb' => h.held_bound b' (Multiset.mem_of_mem_erase hb')
  have hother : ∀ b' ≠ b, (held.erase b).count b' = held.count b' :=
    fun b' hb' => Multiset.count_erase_of_ne hb' held
  have hself : (held.erase b).count b = (pool.blocks b).refCnt - 1 := by simp [href]
  have hnotin : b ∉ pool.freeBlockQueue := fun hmem => by
    have := (h.free_of_queue hmem).2.2; omega
  by_cases hlast : (pool.blocks b).refCnt - 1 = 0
  · -- the last holder: the block re-enters the queue, at one end or the other
    have hzero : (held.erase b).count b = 0 := by omega
    have hiff : ∀ b', b' = b ∨ b' ∈ pool.freeBlockQueue ↔
        b' ≠ nullBlockId ∧ b' < pool.numBlocks ∧ (held.erase b).count b' = 0 := by
      intro b'
      rw [h.queue_iff]
      by_cases hbb : b' = b
      · subst hbb; simp [hnull, hlt, hzero]
      · simp [hbb, hother b' hbb]
    have hhashOf : (Function.update pool.blocks b { pool.blocks b with refCnt := 0 } b).blockHash =
        pool.hashOf b := by simp [hashOf]
    have hfree : ∀ queue : FreeBlockQueue, (∀ b', b' ∈ queue ↔ b' = b ∨ b' ∈ pool.freeBlockQueue) →
        queue.Nodup →
        (setBlock { pool with freeBlockQueue := queue } b
          { pool.blocks b with refCnt := (pool.blocks b).refCnt - 1 }).Holds (held.erase b) :=
      fun queue hmem hnd => h.recount queue hnull hself hother hbound hnd fun b' => (hmem b').trans (hiff b')
    cases hh : pool.hashOf b with
    | none =>
      refine ⟨_, ?_, hfree (pool.freeBlockQueue.prepend b) (by simp [FreeBlockQueue.prepend])
        (List.nodup_cons.mpr ⟨hnotin, h.queue_nodup⟩), rfl, rfl, fun b' => hashOf_setRefCnt _ b b' _⟩
      have hne : (pool.blocks b).refCnt ≠ 0 := by omega
      simp only [freeBlock, hnull, if_false, hne, hlast, Nat.lt_irrefl, setBlock, hhashOf, hh,
        pure_eq_ok, gt_iff_lt]
    | some hash =>
      refine ⟨_, ?_, hfree (pool.freeBlockQueue.append b) ?_ ?_, rfl, rfl,
        fun b' => hashOf_setRefCnt _ b b' _⟩
      · have hne : (pool.blocks b).refCnt ≠ 0 := by omega
        simp only [freeBlock, hnull, if_false, hne, hlast, Nat.lt_irrefl, setBlock, hhashOf, hh,
          pure_eq_ok, gt_iff_lt]
      · intro b'; simp [FreeBlockQueue.append, or_comm]
      · exact List.nodup_append.mpr ⟨h.queue_nodup, by simp, by
          intro a ha b' hb' hab
          simp only [List.mem_singleton] at hb'
          exact hnotin (hb' ▸ hab ▸ ha)⟩
  · refine ⟨_, ?_, h.recount pool.freeBlockQueue hnull hself hother hbound h.queue_nodup
      ?_, rfl, rfl, fun b' => hashOf_setRefCnt _ b b' _⟩
    · have hne : (pool.blocks b).refCnt ≠ 0 := by omega
      have hgt : (pool.blocks b).refCnt - 1 > 0 := by omega
      simp only [freeBlock, hnull, if_false, hne, hgt, if_true, pure_eq_ok]
    · intro b'
      rw [h.queue_iff]
      by_cases hbb : b' = b
      · subst hbb
        have : held.count b' ≠ 0 := by omega
        simp [hself, hlast, this]
      · rw [hother b' hbb]

theorem freeBlocks_append (bs bs' : List BlockId) (pool : BlockPool) :
    freeBlocks (bs ++ bs') pool = freeBlocks bs pool >>= freeBlocks bs' := by
  induction bs generalizing pool with
  | nil => rfl
  | cons b bs ih => simp only [List.cons_append, freeBlocks, bind_assoc, ih]

/-- Dropping references that are held returns, and drops exactly those. -/
theorem freeBlocks_ok : ∀ (bs : List BlockId) {pool : BlockPool} {held : Multiset BlockId},
    pool.Holds (held + (bs : Multiset BlockId)) →
    ∃ pool', freeBlocks bs pool = .ok pool' ∧ pool'.Holds held ∧
      pool'.geometry = pool.geometry ∧
      pool'.cachedBlockHashToBlock = pool.cachedBlockHashToBlock ∧
      ∀ b', pool'.hashOf b' = pool.hashOf b'
  | [], pool, held, h => ⟨pool, rfl, by simpa using h, rfl, rfl, fun _ => rfl⟩
  | b :: bs, pool, held, h => by
      obtain ⟨p₁, hp₁, hh₁, hg₁, hc₁, hk₁⟩ := freeBlock_ok (b := b) h (by simp)
      rw [← Multiset.cons_coe, Multiset.add_cons, Multiset.erase_cons_head] at hh₁
      obtain ⟨p₂, hp₂, hh₂, hg₂, hc₂, hk₂⟩ := freeBlocks_ok bs hh₁
      exact ⟨p₂, by simp [freeBlocks, hp₁, hp₂], hh₂, hg₂.trans hg₁, hc₂.trans hc₁,
        fun b' => (hk₂ b').trans (hk₁ b')⟩

/-! ### Indexing -/

theorem cacheFullBlock_frame (pool : BlockPool) (b : BlockId) (hash : BlockHash) :
    (pool.cacheFullBlock b hash).geometry = pool.geometry ∧
      (pool.cacheFullBlock b hash).freeBlockQueue = pool.freeBlockQueue := by
  unfold cacheFullBlock
  split <;> exact ⟨rfl, rfl⟩

/-- A hash, once a block carries it, stays; a new one is the one the block was given. -/
theorem hashOf_cacheFullBlock (h : b ≠ nullBlockId) (pool : BlockPool) (hash : BlockHash)
    (b' : BlockId) :
    (pool.cacheFullBlock b hash).hashOf b' =
      if b' = b ∧ pool.hashOf b = none then some hash else pool.hashOf b' := by
  unfold cacheFullBlock
  cases hh : (pool.blocks b).blockHash with
  | some hash' => simp [hashOf, hh]
  | none =>
    by_cases hb : b' = b
    · subst hb; simp [hashOf, hh, h]
    · simp [hashOf, hh, h, hb]

/-- Indexing one block keeps the accounting. -/
theorem Holds.cacheFullBlock (h : pool.Holds held) (hon : pool.enableCaching = true)
    (hb : b ∈ held) (hash : BlockHash) : (pool.cacheFullBlock b hash).Holds held := by
  obtain ⟨hnull, hlt⟩ := h.held_bound b hb
  unfold BlockPool.cacheFullBlock
  split
  · exact h
  rename_i hfree
  have hnone : (pool.blocks b).blockHash = none := by
    cases hh : (pool.blocks b).blockHash with
    | none => rfl
    | some x => exact absurd (Or.inr (by simp [hh])) hfree
  have href : ∀ b', (Function.update pool.blocks b { pool.blocks b with blockHash := some hash } b').refCnt =
      (pool.blocks b').refCnt := by
    intro b'
    by_cases hbb : b' = b
    · subst hbb; simp
    · simp [Function.update_of_ne hbb]
  have hfresh : ∀ hash', b ∉ pool.cachedBlockHashToBlock hash' := by
    intro hash' hmem
    rw [h.index_iff, hnone] at hmem
    cases hmem
  refine { two_le := h.two_le, null_ref := (href _).trans h.null_ref, null_hash := ?_,
           ref := fun b' hb' => (href b').trans (h.ref b' hb'), held_bound := h.held_bound,
           queue_nodup := h.queue_nodup, queue_iff := h.queue_iff, index_iff := ?_,
           index_bound := ?_, index_nodup := ?_,
           index_off := fun hoff => by simp [hon] at hoff }
  · simpa [Function.update_of_ne hnull.symm] using h.null_hash
  · intro hash' b'
    by_cases hh : hash' = hash
    · subst hh
      simp only [Function.update_self, List.mem_append, List.mem_singleton, h.index_iff]
      by_cases hbb : b' = b
      · subst hbb; simp
      · simp [hbb]
    · simp only [Function.update_of_ne hh, h.index_iff]
      by_cases hbb : b' = b
      · subst hbb; simp [hnone, Ne.symm hh]
      · simp [Function.update_of_ne hbb]
  · intro hash' b' hb'
    by_cases hh : hash' = hash
    · subst hh
      simp only [Function.update_self, List.mem_append, List.mem_singleton] at hb'
      rcases hb' with hb' | rfl
      · exact h.index_bound _ _ hb'
      · exact hlt
    · simp only [Function.update_of_ne hh] at hb'
      exact h.index_bound _ _ hb'
  · intro hash'
    by_cases hh : hash' = hash
    · subst hh
      simp only [Function.update_self]
      exact List.nodup_append.mpr ⟨h.index_nodup _, by simp, by
        intro a ha b' hb' hab
        simp only [List.mem_singleton] at hb'
        exact hfresh hash' (hb' ▸ hab ▸ ha)⟩
    · simpa [Function.update_of_ne hh] using h.index_nodup hash'

/-- Indexing a request's blocks: nothing moves but the hashes, a hash stays once
carried, and a new one is the one paired with the block. -/
theorem cacheFullBlocks_ok (h : pool.Holds held) {bs : List BlockId} {hashes : List BlockHash}
    (hlen : bs.length = hashes.length) (hbs : ∀ b ∈ bs, b ∈ held) :
    ∃ pool', pool.cacheFullBlocks bs hashes = .ok pool' ∧ pool'.Holds held ∧
      pool'.geometry = pool.geometry ∧ pool'.freeBlockQueue = pool.freeBlockQueue ∧
      (∀ b hash, pool.hashOf b = some hash → pool'.hashOf b = some hash) ∧
      ∀ b hash, pool'.hashOf b = some hash →
        pool.hashOf b = some hash ∨ (b, hash) ∈ bs.zip hashes := by
  by_cases hon : pool.enableCaching = true
  swap
  · exact ⟨pool, by simp [cacheFullBlocks, hon], h, rfl, rfl, fun _ _ h => h, fun _ _ h => .inl h⟩
  have hfold : ∀ (entries : List (BlockId × BlockHash)) (p : BlockPool), p.Holds held →
      p.enableCaching = true → (∀ e ∈ entries, e.1 ∈ held) →
      let p' := entries.foldl (fun pool entry => pool.cacheFullBlock entry.1 entry.2) p
      p'.Holds held ∧ p'.geometry = p.geometry ∧ p'.freeBlockQueue = p.freeBlockQueue ∧
        (∀ b hash, p.hashOf b = some hash → p'.hashOf b = some hash) ∧
        ∀ b hash, p'.hashOf b = some hash → p.hashOf b = some hash ∨ (b, hash) ∈ entries := by
    intro entries
    induction entries with
    | nil => intro p hp _ _; exact ⟨hp, rfl, rfl, fun _ _ h => h, fun _ _ h => .inl h⟩
    | cons e entries ih =>
      intro p hp hcache hmem
      have he := hmem e (by simp)
      obtain ⟨hg, hq⟩ := cacheFullBlock_frame p e.1 e.2
      have hc : (p.cacheFullBlock e.1 e.2).enableCaching = true :=
        (congrArg (fun g => g.2.2) hg).trans hcache
      obtain ⟨hh', hg', hq', hk', hn'⟩ := ih (p.cacheFullBlock e.1 e.2)
        (hp.cacheFullBlock hcache he e.2) hc fun e' he' => hmem e' (by simp [he'])
      have hash_eq := hashOf_cacheFullBlock (hp.held_bound _ he).1 p e.2
      refine ⟨hh', hg'.trans hg, hq'.trans hq, ?_, ?_⟩
      · intro b hash hb
        refine hk' b hash ?_
        rw [hash_eq, if_neg, hb]
        rintro ⟨rfl, hnone⟩
        rw [hnone] at hb; cases hb
      · intro b hash hb
        rcases hn' b hash hb with hb | hb
        · rw [hash_eq] at hb
          split at hb
          · rename_i hbe
            exact .inr (by rw [hbe.1, ← Option.some.inj hb]; simp)
          · exact .inl hb
        · exact .inr (List.mem_cons_of_mem _ hb)
  have hrun := hfold (bs.zip hashes) pool h hon fun e he => hbs _ (List.of_mem_zip he).1
  exact ⟨_, by simp [cacheFullBlocks, hon, hlen], hrun⟩

end BlockPool

end RapidLlm
