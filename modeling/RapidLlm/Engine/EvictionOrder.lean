import RapidLlm.Engine.BlockPool

/-!
# RapidLlm.Engine.EvictionOrder

The order of the free queue (`FreeBlockQueue` in `engine/block_pool.py`): blocks without a hash
before blocks with one, and those in the order they were last freed. Allocation takes the front, so
it is the hashless blocks that go first, and of the others those freed longest ago.

* `Layered pool fresh cached` splits the queue. Every operation that leaves free blocks their hashes
  keeps it, and says what becomes of the two parts.
* `Holding` is what the callers of a pool have done: the references they hold, and when each block
  was last freed. `Aged` says the queue is layered and its hashed part ordered by these times.
-/

namespace RapidLlm

namespace BlockPool

variable {pool pool' : BlockPool} {held : Multiset BlockId} {b : BlockId} {fresh cached : List BlockId}

/-- The free queue is `fresh`, which carry no hash, and then `cached`, which do. -/
structure Layered (pool : BlockPool) (fresh cached : List BlockId) : Prop where
  queue : pool.freeBlockQueue = fresh ++ cached
  unhashed : ∀ b ∈ fresh, pool.hashOf b = none
  hashed : ∀ b ∈ cached, (pool.hashOf b).isSome

namespace Layered

theorem nodup (h : pool.Layered fresh cached) (hheld : pool.Holds held) : (fresh ++ cached).Nodup :=
  h.queue ▸ hheld.queue_nodup

/-- The hashless blocks are the first part. -/
theorem filter_unhashed (h : pool.Layered fresh cached) :
    pool.freeBlockQueue.filter (fun b => (pool.hashOf b).isNone) = fresh := by
  rw [h.queue, List.filter_append]
  have hfresh : fresh.filter (fun b => (pool.hashOf b).isNone) = fresh :=
    List.filter_eq_self.mpr fun b hb => by simp [h.unhashed b hb]
  have hcached : cached.filter (fun b => (pool.hashOf b).isNone) = [] := by
    refine List.filter_eq_nil_iff.mpr fun b hb => ?_
    have := h.hashed b hb
    rw [Option.isSome_iff_ne_none] at this
    simpa using this
  rw [hfresh, hcached, List.append_nil]

/-- The front block is taken. -/
theorem takeBlock (h : pool.Layered fresh cached) {rest : List BlockId}
    (hq : pool.freeBlockQueue = b :: rest) (hnodup : pool.freeBlockQueue.Nodup)
    (hrest : pool'.freeBlockQueue = rest) (hkeep : ∀ b' ≠ b, pool'.hashOf b' = pool.hashOf b') :
    (pool.hashOf b = none ∧ ∃ fresh', fresh = b :: fresh' ∧ pool'.Layered fresh' cached) ∨
      fresh = [] ∧ ∃ cached', cached = b :: cached' ∧ pool'.Layered [] cached' := by
  have hnotin : b ∉ rest := (List.nodup_cons.mp (hq ▸ hnodup)).1
  have hqueue := h.queue
  rw [hq] at hqueue
  cases fresh with
  | cons c fresh' =>
    obtain ⟨rfl, rfl⟩ := List.cons_eq_cons.mp hqueue
    refine .inl ⟨h.unhashed b List.mem_cons_self, fresh', rfl, hrest, fun b' hb' => ?_,
      fun b' hb' => ?_⟩
    · rw [hkeep b' fun heq => hnotin (heq ▸ List.mem_append_left _ hb')]
      exact h.unhashed b' (List.mem_cons_of_mem _ hb')
    · rw [hkeep b' fun heq => hnotin (heq ▸ List.mem_append_right _ hb')]
      exact h.hashed b' hb'
  | nil =>
    rw [List.nil_append] at hqueue
    refine .inr ⟨rfl, rest, hqueue.symm, hrest, by simp, fun b' hb' => ?_⟩
    rw [hkeep b' fun heq => hnotin (heq ▸ hb')]
    exact h.hashed b' (hqueue ▸ List.mem_cons_of_mem _ hb')

/-- Blocks that leave the queue leave the order. -/
theorem erase (h : pool.Layered fresh cached) (hnodup : pool.freeBlockQueue.Nodup)
    (hqueue : pool'.freeBlockQueue = pool.freeBlockQueue.erase b)
    (hkeep : ∀ b', pool'.hashOf b' = pool.hashOf b') :
    pool'.Layered (fresh.erase b) (cached.erase b) := by
  refine ⟨?_, fun b' hb' => ?_, fun b' hb' => ?_⟩
  · rw [h.queue] at hnodup
    rw [hqueue, h.queue]
    by_cases hb : b ∈ fresh
    · have hnot : b ∉ cached := fun hc => (List.nodup_append.mp hnodup).2.2 b hb b hc rfl
      rw [List.erase_append_left _ hb, List.erase_of_not_mem hnot]
    · rw [List.erase_append_right _ hb, List.erase_of_not_mem hb]
  · rw [hkeep]
    exact h.unhashed b' (List.mem_of_mem_erase hb')
  · rw [hkeep]
    exact h.hashed b' (List.mem_of_mem_erase hb')

/-- Blocks outside the queue may change their hashes. -/
theorem congr (h : pool.Layered fresh cached) (hqueue : pool'.freeBlockQueue = pool.freeBlockQueue)
    (hkeep : ∀ b ∈ pool.freeBlockQueue, pool'.hashOf b = pool.hashOf b) :
    pool'.Layered fresh cached := by
  rw [h.queue] at hkeep hqueue
  refine ⟨hqueue, fun b hb => ?_, fun b hb => ?_⟩
  · rw [hkeep b (List.mem_append_left _ hb)]
    exact h.unhashed b hb
  · rw [hkeep b (List.mem_append_right _ hb)]
    exact h.hashed b hb

end Layered

/-- What one free does to the queue. -/
theorem freeBlock_queue (hb : b ≠ nullBlockId) (h : pool.freeBlock b = .ok pool') :
    pool'.freeBlockQueue = if (pool.blocks b).refCnt = 1 then
        if pool.hashOf b = none then b :: pool.freeBlockQueue else pool.freeBlockQueue ++ [b]
      else pool.freeBlockQueue := by
  unfold freeBlock at h
  rw [if_neg hb] at h
  split at h
  · cases h
  · rename_i hzero
    dsimp only at h
    split at h
    · rename_i hmore
      cases h
      rw [if_neg (by omega)]
      rfl
    · rename_i hlast
      rw [if_pos (by omega)]
      have hhash : ((pool.setBlock b { pool.blocks b with refCnt := (pool.blocks b).refCnt - 1 }).blocks
          b).blockHash = pool.hashOf b := hashOf_setRefCnt pool b b _
      split at h
      · rename_i hnone
        cases h
        rw [if_pos (hhash.symm.trans hnone)]
        rfl
      · rename_i hash hsome
        cases h
        rw [if_neg (by rw [← hhash, hsome]; exact Option.some_ne_none _)]
        rfl

end BlockPool

/-! ### What the callers did -/

/-- The references held on a pool, and when each block was last freed: `clock` counts the frees that
dropped a last reference. -/
structure Holding where
  held : Multiset BlockId := 0
  clock : Nat := 0
  lastFreed : BlockId → Nat := fun _ => 0

namespace Holding

/-- One more reference; the null block takes none. -/
def take (holding : Holding) (b : BlockId) : Holding :=
  if b = nullBlockId then holding else { holding with held := b ::ₘ holding.held }

/-- One reference less. -/
def drop (holding : Holding) (b : BlockId) : Holding :=
  if b = nullBlockId then holding
  else if holding.held.count b = 1 then
    { held := holding.held.erase b
      clock := holding.clock + 1
      lastFreed := Function.update holding.lastFreed b holding.clock }
  else { holding with held := holding.held.erase b }

end Holding

namespace BlockPool

/-- The accounts of a pool, and the order of its queue. -/
structure Aged (pool : BlockPool) (holding : Holding) : Prop where
  holds : pool.Holds holding.held
  layered : ∃ fresh cached, pool.Layered fresh cached ∧
    cached.Pairwise fun b b' => holding.lastFreed b < holding.lastFreed b'
  past : ∀ b ∈ pool.freeBlockQueue, (pool.hashOf b).isSome → holding.lastFreed b < holding.clock

namespace Aged

variable {pool pool' : BlockPool} {holding : Holding} {b : BlockId}

/-- A fresh pool: every block is free and carries no hash. -/
theorem create {numBlocks blockSize : Nat} {caching : Bool}
    (h : BlockPool.create numBlocks blockSize caching = .ok pool) : pool.Aged {} := by
  obtain ⟨hholds, -, hnone⟩ := create_holds h
  refine ⟨hholds, ⟨pool.freeBlockQueue, [], ⟨(List.append_nil _).symm, fun b _ => hnone b, by simp⟩,
    List.Pairwise.nil⟩, fun b _ hb => ?_⟩
  rw [hnone b] at hb
  cases hb

/-- Taking the front block. -/
theorem takeBlock (h : pool.Aged holding) {rest : List BlockId}
    (hq : pool.freeBlockQueue = b :: rest) :
    ∃ pool', pool.takeBlock = .ok (b, pool') ∧ pool'.Aged (holding.take b) ∧
      pool'.freeBlockQueue = rest ∧ pool'.geometry = pool.geometry ∧ pool'.hashOf b = none ∧
      ∀ b' ≠ b, pool'.hashOf b' = pool.hashOf b' := by
  obtain ⟨pool', htake, hholds, hrest, hgeo, hnone, hkeep⟩ := takeBlock_ok h.holds hq
  have hnull : b ≠ nullBlockId := (h.holds.free_of_queue (hq ▸ List.mem_cons_self)).1
  have hnotin : b ∉ rest := (List.nodup_cons.mp (hq ▸ h.holds.queue_nodup)).1
  obtain ⟨fresh, cached, hlayered, hordered⟩ := h.layered
  refine ⟨pool', htake, ?_, hrest, hgeo, hnone, hkeep⟩
  simp only [Holding.take, if_neg hnull]
  refine ⟨hholds, ?_, fun b' hb' hhash => ?_⟩
  · rcases hlayered.takeBlock hq h.holds.queue_nodup hrest hkeep with
      ⟨-, fresh', -, hlayered'⟩ | ⟨-, cached', rfl, hlayered'⟩
    · exact ⟨fresh', cached, hlayered', hordered⟩
    · exact ⟨[], cached', hlayered', (List.pairwise_cons.mp hordered).2⟩
  · rw [hrest] at hb'
    rw [hkeep b' fun heq => hnotin (heq ▸ hb')] at hhash
    exact h.past b' (hq ▸ List.mem_cons_of_mem _ hb') hhash

/-- Sharing a block. -/
theorem touchBlock (h : pool.Aged holding) (hlt : b < pool.numBlocks) :
    ∃ pool', pool.touchBlock b = .ok pool' ∧ pool'.Aged (holding.take b) ∧
      pool'.geometry = pool.geometry := by
  by_cases hnull : b = nullBlockId
  · refine ⟨pool, by simp [BlockPool.touchBlock, hnull], ?_, rfl⟩
    simpa [Holding.take, hnull] using h
  obtain ⟨pool', htouch, hholds, hqueue, hgeo, -, hkeep⟩ := touchBlock_ok h.holds hnull hlt
  obtain ⟨fresh, cached, hlayered, hordered⟩ := h.layered
  refine ⟨pool', htouch, ?_, hgeo⟩
  simp only [Holding.take, if_neg hnull]
  refine ⟨hholds, ⟨_, _, hlayered.erase h.holds.queue_nodup hqueue hkeep,
    hordered.sublist List.erase_sublist⟩, fun b' hb' hhash => ?_⟩
  rw [hqueue] at hb'
  exact h.past b' (List.mem_of_mem_erase hb') (hkeep b' ▸ hhash)

/-- Dropping a reference: a block nobody holds any more is the youngest of its part. -/
theorem freeBlock (h : pool.Aged holding) (hb : b ∈ holding.held) :
    ∃ pool', pool.freeBlock b = .ok pool' ∧ pool'.Aged (holding.drop b) ∧
      pool'.geometry = pool.geometry := by
  obtain ⟨hnull, -⟩ := h.holds.held_bound b hb
  obtain ⟨pool', hfree, hholds, hgeo, -, hkeep⟩ := freeBlock_ok h.holds hb
  have hqueue := freeBlock_queue hnull hfree
  rw [h.holds.ref b hnull] at hqueue
  have hnotin : b ∉ pool.freeBlockQueue := fun hmem =>
    Multiset.count_ne_zero.mpr hb (h.holds.free_of_queue hmem).2.2
  obtain ⟨fresh, cached, hlayered, hordered⟩ := h.layered
  refine ⟨pool', hfree, ?_, hgeo⟩
  by_cases hlast : holding.held.count b = 1
  swap
  · rw [if_neg hlast] at hqueue
    simp only [Holding.drop, if_neg hnull, if_neg hlast]
    exact ⟨hholds, ⟨fresh, cached, hlayered.congr hqueue fun b' _ => hkeep b', hordered⟩,
      fun b' hb' hhash => h.past b' (hqueue ▸ hb') (hkeep b' ▸ hhash)⟩
  rw [if_pos hlast] at hqueue
  simp only [Holding.drop, if_neg hnull, if_pos hlast]
  have hother : ∀ b' ∈ pool.freeBlockQueue,
      Function.update holding.lastFreed b holding.clock b' = holding.lastFreed b' := by
    intro b' hb'
    have hne : b' ≠ b := fun heq => hnotin (heq ▸ hb')
    exact Function.update_of_ne hne _ _
  have holder : ∀ b' ∈ cached,
      Function.update holding.lastFreed b holding.clock b' = holding.lastFreed b' := fun b' hb' =>
    hother b' (hlayered.queue ▸ List.mem_append_right _ hb')
  have hordered' : cached.Pairwise fun b₁ b₂ =>
      Function.update holding.lastFreed b holding.clock b₁ <
        Function.update holding.lastFreed b holding.clock b₂ := by
    refine hordered.imp_of_mem fun h₁ h₂ hlt => ?_
    rwa [holder _ h₁, holder _ h₂]
  refine ⟨hholds, ?_, fun b' hb' hhash => ?_⟩
  · by_cases hnone : pool.hashOf b = none
    · rw [if_pos hnone, hlayered.queue] at hqueue
      refine ⟨b :: fresh, cached, ⟨hqueue, fun b' hb' => ?_, fun b' hb' => ?_⟩, hordered'⟩
      · rw [hkeep]
        rcases List.mem_cons.mp hb' with rfl | hb'
        · exact hnone
        · exact hlayered.unhashed b' hb'
      · rw [hkeep]
        exact hlayered.hashed b' hb'
    · rw [if_neg hnone, hlayered.queue, List.append_assoc] at hqueue
      refine ⟨fresh, cached ++ [b], ⟨hqueue, fun b' hb' => ?_, fun b' hb' => ?_⟩, ?_⟩
      · rw [hkeep]
        exact hlayered.unhashed b' hb'
      · rw [hkeep]
        rcases List.mem_append.mp hb' with hb' | hb'
        · exact hlayered.hashed b' hb'
        · rw [List.mem_singleton.mp hb']
          exact Option.isSome_iff_ne_none.mpr hnone
      · refine List.pairwise_append.mpr ⟨hordered', List.pairwise_singleton _ _, ?_⟩
        intro b₁ h₁ b₂ h₂
        rw [List.mem_singleton.mp h₂]
        change Function.update holding.lastFreed b holding.clock b₁ <
          Function.update holding.lastFreed b holding.clock b
        rw [Function.update_self, holder b₁ h₁]
        exact h.past b₁ (hlayered.queue ▸ List.mem_append_right _ h₁) (hlayered.hashed b₁ h₁)
  · change Function.update holding.lastFreed b holding.clock b' < holding.clock + 1
    by_cases hbb : b' = b
    · rw [hbb, Function.update_self]
      exact Nat.lt_succ_self _
    · have hmem : b' ∈ pool.freeBlockQueue := by
        rw [hqueue] at hb'
        split at hb'
        · exact (List.mem_cons.mp hb').resolve_left hbb
        · exact (List.mem_append.mp hb').resolve_right fun hb' => hbb (List.mem_singleton.mp hb')
      rw [hother b' hmem]
      exact Nat.lt_succ_of_lt (h.past b' hmem (hkeep b' ▸ hhash))

/-- Indexing a block somebody holds. -/
theorem cacheFullBlock (h : pool.Aged holding) (hon : pool.enableCaching = true)
    (hb : b ∈ holding.held) (hash : BlockHash) : (pool.cacheFullBlock b hash).Aged holding := by
  obtain ⟨hnull, -⟩ := h.holds.held_bound b hb
  have hnotin : b ∉ pool.freeBlockQueue := fun hmem =>
    Multiset.count_ne_zero.mpr hb (h.holds.free_of_queue hmem).2.2
  have hqueue := (cacheFullBlock_frame pool b hash).2
  have hkeep : ∀ b' ∈ pool.freeBlockQueue, (pool.cacheFullBlock b hash).hashOf b' = pool.hashOf b' := by
    intro b' hb'
    have hne : b' ≠ b := fun heq => hnotin (heq ▸ hb')
    rw [hashOf_cacheFullBlock hnull, if_neg fun heq => hne heq.1]
  obtain ⟨fresh, cached, hlayered, hordered⟩ := h.layered
  refine ⟨h.holds.cacheFullBlock hon hb hash, ⟨fresh, cached, hlayered.congr hqueue hkeep, hordered⟩,
    fun b' hb' hhash => ?_⟩
  rw [hqueue] at hb'
  exact h.past b' hb' (hkeep b' hb' ▸ hhash)

/-- Forgetting every hash. -/
theorem resetPrefixCache (h : pool.Aged holding) : pool.resetPrefixCache.2.Aged holding := by
  unfold BlockPool.resetPrefixCache
  split
  · exact h
  · refine ⟨⟨h.holds.two_le, h.holds.null_ref, rfl, h.holds.ref, h.holds.held_bound,
      h.holds.queue_nodup, h.holds.queue_iff, by simp, by simp, by simp, fun _ _ => rfl⟩,
      ⟨pool.freeBlockQueue, [], ⟨(List.append_nil _).symm, fun _ _ => rfl, by simp⟩,
        List.Pairwise.nil⟩, fun b _ hb => ?_⟩
    simp [hashOf] at hb

end Aged

end BlockPool

end RapidLlm
