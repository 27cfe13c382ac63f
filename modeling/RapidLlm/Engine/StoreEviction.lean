import RapidLlm.Engine.EvictionOrder
import RapidLlm.Engine.KVOffload

/-!
# RapidLlm.Engine.StoreEviction

What `prepare_store` of the CPU tier reports as evicted. It compares two snapshots of the hash
index, but takes the first only if it expects the allocation to evict: it counts the free blocks
without a hash as the free blocks less the cached ones that no load pins.

* `BlockPool.Stocked` is the pool under its transfers, whatever the calls: the blocks being written,
  the pairs being read, and a queue with the hashless blocks in front.
* `CPUTier.Booked` is the tier: the transfers are the references, and `_pinned_cached` counts what
  the loads in flight read, a block once for every load of it.
* `hashless_free` is the count: the hashless free blocks, and one more for every pin beyond the
  first on a block. `prepareStore_evicted` says what becomes of the report.
-/

namespace RapidLlm

namespace BlockPool

variable {pool pool' : BlockPool} {held : Multiset BlockId} {b : BlockId} {fresh cached : List BlockId}

/-- A queue that only loses blocks keeps its two parts. -/
theorem Layered.sublist (h : pool.Layered fresh cached)
    (hqueue : pool'.freeBlockQueue.Sublist pool.freeBlockQueue)
    (hkeep : ∀ b ∈ pool'.freeBlockQueue, pool'.hashOf b = pool.hashOf b) :
    ∃ fresh' cached', pool'.Layered fresh' cached' := by
  rw [h.queue, List.sublist_append_iff] at hqueue
  obtain ⟨fresh', cached', hsplit, hfresh, hcached⟩ := hqueue
  rw [hsplit] at hkeep
  refine ⟨fresh', cached', hsplit, fun b hb => ?_, fun b hb => ?_⟩
  · rw [hkeep b (List.mem_append_left _ hb)]
    exact h.unhashed b (hfresh.subset hb)
  · rw [hkeep b (List.mem_append_right _ hb)]
    exact h.hashed b (hcached.subset hb)

/-- A block that enters the queue enters the part it belongs to. -/
theorem Layered.enter (h : pool.Layered fresh cached)
    (hqueue : pool'.freeBlockQueue = if pool.hashOf b = none then b :: pool.freeBlockQueue
      else pool.freeBlockQueue ++ [b])
    (hkeep : ∀ b', pool'.hashOf b' = pool.hashOf b') :
    ∃ fresh' cached', pool'.Layered fresh' cached' := by
  by_cases hnone : pool.hashOf b = none
  · rw [if_pos hnone, h.queue] at hqueue
    refine ⟨b :: fresh, cached, hqueue, fun b' hb' => ?_, fun b' hb' => ?_⟩
    · rw [hkeep]
      rcases List.mem_cons.mp hb' with rfl | hb'
      · exact hnone
      · exact h.unhashed b' hb'
    · rw [hkeep]
      exact h.hashed b' hb'
  · rw [if_neg hnone, h.queue, List.append_assoc] at hqueue
    refine ⟨fresh, cached ++ [b], hqueue, fun b' hb' => ?_, fun b' hb' => ?_⟩
    · rw [hkeep]
      exact h.unhashed b' hb'
    · rw [hkeep]
      rcases List.mem_append.mp hb' with hb' | hb'
      · exact h.hashed b' hb'
      · rw [List.mem_singleton.mp hb']
        exact Option.isSome_iff_ne_none.mpr hnone

/-! ### The block a key is looked up to -/

variable {key : BlockHash} {c : BlockId}

/-- Evicting a block does not change what the others are looked up by. -/
theorem getCachedBlock_maybeEvict (h : pool.getCachedBlock key = some c) (hne : c ≠ b) :
    (maybeEvictCachedBlock pool b).getCachedBlock key = some c := by
  unfold maybeEvictCachedBlock
  split
  · exact h
  rename_i hash _
  by_cases hkey : key = hash
  · rw [hkey] at h ⊢
    obtain ⟨rest, hlist⟩ := List.head?_eq_some_iff.mp h
    have herase : (c :: rest).erase b = c :: rest.erase b :=
      List.erase_cons_tail (by simpa using hne)
    simp [getCachedBlock, hlist, herase]
  · simpa [getCachedBlock, Function.update_of_ne hkey] using h

theorem getCachedBlock_takeBlock (htake : pool.takeBlock = .ok (b, pool'))
    (h : pool.getCachedBlock key = some c) (hne : c ≠ b) : pool'.getCachedBlock key = some c := by
  cases hq : pool.freeBlockQueue with
  | nil =>
    simp only [takeBlock, hq, FreeBlockQueue.popleft] at htake
    cases htake
  | cons b' rest =>
    by_cases hzero : (pool.blocks b').refCnt = 0
    · simp only [takeBlock, hq, FreeBlockQueue.popleft, hzero, maybeEvict_queue, ok_bind, ne_eq,
        not_true_eq_false, if_false, pure_eq_ok, Except.ok.injEq, Prod.mk.injEq] at htake
      obtain ⟨rfl, rfl⟩ := htake
      exact getCachedBlock_maybeEvict h hne
    · simp only [takeBlock, hq, FreeBlockQueue.popleft, hzero, ok_bind, ne_eq, not_false_eq_true,
        if_true] at htake
      cases htake

/-- Allocation leaves the lookups that hit none of the blocks it took. -/
theorem getCachedBlock_takeBlocks : ∀ (count : Nat) {pool pool' : BlockPool} {taken : List BlockId},
    pool.takeBlocks count = .ok (taken, pool') → pool.getCachedBlock key = some c → c ∉ taken →
    pool'.getCachedBlock key = some c
  | 0, pool, pool', taken, htake, h, _ => by
      simp only [takeBlocks, pure_eq_ok, Except.ok.injEq, Prod.mk.injEq] at htake
      rwa [← htake.2]
  | count + 1, pool, pool', taken, htake, h, hnot => by
      obtain ⟨⟨b, p₁⟩, h₁, hrest⟩ := bind_eq_ok.mp htake
      obtain ⟨⟨rest, p₂⟩, h₂, heq⟩ := bind_eq_ok.mp hrest
      simp only [pure_eq_ok, Except.ok.injEq, Prod.mk.injEq] at heq
      obtain ⟨rfl, rfl⟩ := heq
      rw [List.mem_cons, not_or] at hnot
      exact getCachedBlock_takeBlocks count h₂ (getCachedBlock_takeBlock h₁ h hnot.1) hnot.2

/-- Indexing a block comes after those a key is already looked up to. -/
theorem getCachedBlock_cacheFullBlock (h : pool.getCachedBlock key = some c) (hash : BlockHash) :
    (pool.cacheFullBlock b hash).getCachedBlock key = some c := by
  unfold cacheFullBlock
  split
  · exact h
  by_cases hkey : key = hash
  · rw [hkey] at h ⊢
    obtain ⟨rest, hlist⟩ := List.head?_eq_some_iff.mp h
    simp [getCachedBlock, hlist]
  · simpa [getCachedBlock, Function.update_of_ne hkey] using h

/-! ### The pool under its transfers -/

/-- `writing` are the blocks of the stores in flight, `loads` what the loads in flight read. They
are the references on the pool; a block being written carries no hash, a pair being read is what its
key is looked up to; and the free blocks without a hash stand in front. -/
structure Stocked (pool : BlockPool) (writing : Multiset BlockId)
    (loads : Multiset (OffloadKey × BlockId)) : Prop where
  holds : pool.Holds (writing + loads.map Prod.snd)
  caching : pool.enableCaching = true
  layered : ∃ fresh cached, pool.Layered fresh cached
  once : writing.Nodup
  unhashed : ∀ b ∈ writing, pool.hashOf b = none
  front : ∀ p ∈ loads, pool.getCachedBlock p.1 = some p.2

namespace Stocked

variable {writing : Multiset BlockId} {loads : Multiset (OffloadKey × BlockId)}

theorem create {numBlocks blockSize : Nat}
    (h : BlockPool.create numBlocks blockSize true = .ok pool) : pool.Stocked 0 0 := by
  obtain ⟨hholds, hgeo, hnone⟩ := create_holds h
  exact {
    holds := hholds
    caching := congrArg (·.2.2) hgeo
    layered := ⟨pool.freeBlockQueue, [], (List.append_nil _).symm, fun b _ => hnone b, by simp⟩
    once := Multiset.nodup_zero
    unhashed := by simp
    front := by simp }

/-- A key is looked up to some block exactly when a block carries it. -/
theorem isSome_iff (h : pool.Holds held) :
    (pool.getCachedBlock key).isSome ↔ ∃ b, pool.hashOf b = some key := by
  constructor
  · intro hsome
    obtain ⟨b, hb⟩ := Option.isSome_iff_exists.mp hsome
    exact ⟨b, (h.index_iff _ _).mp (getCachedBlock_mem hb)⟩
  · rintro ⟨b, hb⟩
    have hmem : b ∈ pool.cachedBlockHashToBlock key := (h.index_iff _ _).mpr hb
    unfold getCachedBlock
    rw [List.isSome_head?]
    simpa [List.isEmpty_iff] using List.ne_nil_of_mem hmem

/-- What is being read carries its key. -/
theorem hashOf_load (h : pool.Stocked writing loads) {p : OffloadKey × BlockId} (hp : p ∈ loads) :
    pool.hashOf p.2 = some p.1 :=
  (h.holds.index_iff _ _).mp (getCachedBlock_mem (h.front p hp))

/-- A real block is free, written, or read. -/
theorem held_iff (h : pool.Stocked writing loads) (hnull : b ≠ nullBlockId)
    (hlt : b < pool.numBlocks) :
    b ∉ pool.freeBlockQueue ↔ b ∈ writing ∨ b ∈ loads.map Prod.snd := by
  rw [h.holds.queue_iff, ← Multiset.mem_add, ← Multiset.count_ne_zero]
  simp [hnull, hlt]

/-! #### The operations -/

/-- Handing out blocks to be written. -/
theorem allocate (h : pool.Stocked writing loads) {count : Nat} (hle : count ≤ pool.numFreeBlocks) :
    ∃ pool', pool.getNewBlocks count = .ok (some (pool.freeBlockQueue.take count), pool') ∧
      pool'.Stocked (writing + (pool.freeBlockQueue.take count : List BlockId)) loads ∧
      (∀ b ∈ pool.freeBlockQueue.take count, pool'.hashOf b = none) ∧
      ∀ b ∉ pool.freeBlockQueue.take count, pool'.hashOf b = pool.hashOf b := by
  obtain ⟨pool', htake, hholds, hqueue, hgeo, hnone, hkeep⟩ := takeBlocks_ok count h.holds hle
  have hfree : ∀ b ∈ pool.freeBlockQueue.take count,
      (writing + loads.map Prod.snd).count b = 0 := fun b hb =>
    (h.holds.free_of_queue (List.mem_of_mem_take hb)).2.2
  have hnot : ∀ b ∈ writing + loads.map Prod.snd, b ∉ pool.freeBlockQueue.take count :=
    fun b hb hmem => Multiset.count_ne_zero.mpr hb (hfree b hmem)
  refine ⟨pool', by simp [getNewBlocks, Nat.not_lt.mpr hle, htake], ?_, hnone, hkeep⟩
  refine { holds := by rwa [add_right_comm], caching := (congrArg (·.2.2) hgeo).trans h.caching
           layered := ?_, once := ?_, unhashed := ?_, front := ?_ }
  · obtain ⟨fresh, cached, hlayered⟩ := h.layered
    refine hlayered.sublist (hqueue ▸ List.drop_sublist _ _) fun b hb => hkeep b fun hmem => ?_
    rw [hqueue] at hb
    have hnodup := h.holds.queue_nodup
    rw [← List.take_append_drop count pool.freeBlockQueue] at hnodup
    exact (List.nodup_append.mp hnodup).2.2 b hmem b hb rfl
  · refine Multiset.nodup_add.mpr ⟨h.once, (List.take_sublist _ _).nodup h.holds.queue_nodup, ?_⟩
    exact Multiset.disjoint_left.mpr fun hb hmem =>
      hnot _ (Multiset.mem_add.mpr (.inl hb)) (Multiset.mem_coe.mp hmem)
  · intro b hb
    rcases Multiset.mem_add.mp hb with hb | hb
    · rw [hkeep b (hnot b (Multiset.mem_add.mpr (.inl hb)))]
      exact h.unhashed b hb
    · exact hnone b (Multiset.mem_coe.mp hb)
  · intro p hp
    exact getCachedBlock_takeBlocks count htake (h.front p hp)
      (hnot _ (Multiset.mem_add.mpr (.inr (Multiset.mem_map_of_mem _ hp))))

/-- Pinning the blocks keys are looked up to. -/
theorem pin (h : pool.Stocked writing loads) {pairs : List (OffloadKey × BlockId)}
    (hpairs : ∀ p ∈ pairs, pool.getCachedBlock p.1 = some p.2) :
    ∃ pool', BlockPool.touch (pairs.map Prod.snd) pool = .ok pool' ∧
      pool'.Stocked writing (loads + (pairs : Multiset (OffloadKey × BlockId))) := by
  have hreal : ∀ b ∈ pairs.map Prod.snd, b ≠ nullBlockId ∧ b < pool.numBlocks := by
    intro b hb
    obtain ⟨p, hp, rfl⟩ := List.mem_map.mp hb
    have hindex := getCachedBlock_mem (hpairs p hp)
    exact ⟨h.holds.indexed_ne_null hindex, h.holds.index_bound _ _ hindex⟩
  obtain ⟨pool', htouch, hholds, hqueue, hgeo, hindex, hhash⟩ := touch_ok _ h.holds hreal
  refine ⟨pool', htouch, ?_⟩
  refine { holds := ?_, caching := (congrArg (·.2.2) hgeo).trans h.caching, layered := ?_
           once := h.once, unhashed := fun b hb => (hhash b).trans (h.unhashed b hb), front := ?_ }
  · simpa only [Multiset.map_add, Multiset.map_coe, add_assoc] using hholds
  · obtain ⟨fresh, cached, hlayered⟩ := h.layered
    exact hlayered.sublist (hqueue ▸ List.diff_sublist _ _) fun b _ => hhash b
  · intro p hp
    unfold getCachedBlock
    rw [hindex]
    rcases Multiset.mem_add.mp hp with hp | hp
    · exact h.front p hp
    · exact hpairs p (Multiset.mem_coe.mp hp)

/-- Dropping one reference keeps the queue in its two parts. -/
theorem layered_freeBlock (hholds : pool.Holds held) (hb : b ∈ held)
    (h : ∃ fresh cached, pool.Layered fresh cached) (hfree : pool.freeBlock b = .ok pool') :
    ∃ fresh cached, pool'.Layered fresh cached := by
  obtain ⟨fresh, cached, hlayered⟩ := h
  obtain ⟨hnull, -⟩ := hholds.held_bound b hb
  obtain ⟨p, hp, -, -, -, hhash⟩ := freeBlock_ok hholds hb
  cases hfree.symm.trans hp
  have hqueue := freeBlock_queue hnull hfree
  by_cases hlast : (pool.blocks b).refCnt = 1
  · rw [if_pos hlast] at hqueue
    exact hlayered.enter hqueue hhash
  · rw [if_neg hlast] at hqueue
    exact ⟨fresh, cached, hlayered.congr hqueue fun b' _ => hhash b'⟩

theorem layered_freeBlocks : ∀ (bs : List BlockId) {pool pool' : BlockPool} {held : Multiset BlockId},
    pool.Holds (held + (bs : Multiset BlockId)) → (∃ fresh cached, pool.Layered fresh cached) →
    BlockPool.freeBlocks bs pool = .ok pool' → ∃ fresh cached, pool'.Layered fresh cached
  | [], pool, pool', _, _, h, hfree => by
      cases hfree
      exact h
  | b :: bs, pool, pool', held, hholds, h, hfree => by
      obtain ⟨p₁, hp₁, hrest⟩ := bind_eq_ok.mp hfree
      have hb : b ∈ held + ((b :: bs : List BlockId) : Multiset BlockId) := by simp
      obtain ⟨p, hp, hholds₁, -⟩ := freeBlock_ok hholds hb
      cases hp₁.symm.trans hp
      rw [← Multiset.cons_coe, Multiset.add_cons, Multiset.erase_cons_head] at hholds₁
      exact layered_freeBlocks bs hholds₁ (layered_freeBlock hholds hb h hp₁) hrest

/-- Dropping the pins of one load. -/
theorem unpin {pairs : List (OffloadKey × BlockId)}
    (h : pool.Stocked writing (loads + (pairs : Multiset (OffloadKey × BlockId)))) :
    ∃ pool', BlockPool.freeBlocks (pairs.map Prod.snd) pool = .ok pool' ∧
      pool'.Stocked writing loads := by
  have hheld : pool.Holds (writing + loads.map Prod.snd + (pairs.map Prod.snd : List BlockId)) := by
    simpa only [Multiset.map_add, Multiset.map_coe, add_assoc] using h.holds
  obtain ⟨pool', hfree, hholds, hgeo, hindex, hhash⟩ := freeBlocks_ok _ hheld
  refine ⟨pool', hfree, ?_⟩
  refine { holds := hholds, caching := (congrArg (·.2.2) hgeo).trans h.caching
           layered := layered_freeBlocks _ hheld h.layered hfree, once := h.once
           unhashed := fun b hb => (hhash b).trans (h.unhashed b hb), front := fun p hp => ?_ }
  unfold getCachedBlock
  rw [hindex]
  exact h.front p (Multiset.mem_add.mpr (.inl hp))

/-- A written block lands: it carries its key and is free. -/
theorem land (h : pool.Stocked (b ::ₘ writing) loads) (key : OffloadKey) :
    ∃ p pool', pool.cacheFullBlocks [b] [key] = .ok p ∧ BlockPool.freeBlocks [b] p = .ok pool' ∧
      pool'.Stocked writing loads := by
  have hself : b ∈ b ::ₘ writing := Multiset.mem_cons_self _ _
  have hb : b ∈ b ::ₘ writing + loads.map Prod.snd := Multiset.mem_add.mpr (.inl hself)
  have hnull := (h.holds.held_bound b hb).1
  have hnotin : b ∉ pool.freeBlockQueue := fun hmem =>
    Multiset.count_ne_zero.mpr hb (h.holds.free_of_queue hmem).2.2
  have hcache := h.holds.cacheFullBlock h.caching hb key
  have hheld : (pool.cacheFullBlock b key).Holds
      (writing + loads.map Prod.snd + (([b] : List BlockId) : Multiset BlockId)) := by
    rw [Multiset.cons_add, ← Multiset.singleton_add, add_comm] at hcache
    exact hcache
  obtain ⟨hgeo₁, hqueue₁⟩ := cacheFullBlock_frame pool b key
  have hother : ∀ b' ≠ b, (pool.cacheFullBlock b key).hashOf b' = pool.hashOf b' := by
    intro b' hb'
    rw [hashOf_cacheFullBlock hnull, if_neg fun heq => hb' heq.1]
  have hlayered : ∃ fresh cached, (pool.cacheFullBlock b key).Layered fresh cached := by
    obtain ⟨fresh, cached, hlayered⟩ := h.layered
    refine ⟨fresh, cached, hlayered.congr hqueue₁ fun b' hb' => hother b' fun heq => ?_⟩
    exact hnotin (heq ▸ hb')
  obtain ⟨pool', hfree, hholds, hgeo, hindex, hhash⟩ := freeBlocks_ok [b] hheld
  refine ⟨pool.cacheFullBlock b key, pool', ?_, hfree, ?_⟩
  · simp [cacheFullBlocks, h.caching]
  have honce := Multiset.nodup_cons.mp h.once
  refine { holds := hholds, caching := (congrArg (·.2.2) (hgeo.trans hgeo₁)).trans h.caching
           layered := layered_freeBlocks _ hheld hlayered hfree, once := honce.2
           unhashed := fun b' hb' => ?_, front := fun p hp => ?_ }
  · have hne : b' ≠ b := fun heq => honce.1 (heq ▸ hb')
    rw [hhash, hother b' hne]
    exact h.unhashed b' (Multiset.mem_cons_of_mem hb')
  · unfold getCachedBlock
    rw [hindex]
    exact getCachedBlock_cacheFullBlock (h.front p hp) key

/-- `touch` sends a free block to the back, among those with a hash. -/
theorem touchKey (h : pool.Stocked writing loads) (key : OffloadKey) :
    ∃ pool', CPUTier.touchKey pool key = .ok pool' ∧ pool'.Stocked writing loads := by
  unfold CPUTier.touchKey
  cases hb : pool.getCachedBlock key with
  | none => exact ⟨pool, rfl, h⟩
  | some b =>
    by_cases href : (pool.blocks b).refCnt > 0
    · exact ⟨pool, by simp only [if_pos href], h⟩
    have hmem := getCachedBlock_mem hb
    have hnull := h.holds.indexed_ne_null hmem
    have hcount : (writing + loads.map Prod.snd).count b = 0 := by
      rw [← h.holds.ref b hnull]
      omega
    have hqueue : b ∈ pool.freeBlockQueue :=
      (h.holds.queue_iff b).mpr ⟨hnull, h.holds.index_bound _ b hmem, hcount⟩
    have hperm : (pool.freeBlockQueue.erase b ++ [b]).Perm pool.freeBlockQueue :=
      (List.perm_append_singleton _ _).trans (List.perm_cons_erase hqueue).symm
    have hsome : pool.hashOf b = some key := (h.holds.index_iff _ _).mp hmem
    refine ⟨{ pool with freeBlockQueue := pool.freeBlockQueue.erase b ++ [b] }, ?_, ?_⟩
    · simp only [if_neg href, FreeBlockQueue.remove, if_pos hqueue]
      rfl
    refine { h with
      holds := { h.holds with
        queue_nodup := hperm.nodup_iff.mpr h.holds.queue_nodup
        queue_iff := fun b' => hperm.mem_iff.trans (h.holds.queue_iff b') }
      layered := ?_ }
    obtain ⟨fresh, cached, hlayered⟩ := h.layered
    have hrest : ({ pool with
        freeBlockQueue := pool.freeBlockQueue.erase b } : BlockPool).Layered (fresh.erase b)
          (cached.erase b) := hlayered.erase h.holds.queue_nodup rfl fun _ => rfl
    refine hrest.enter (b := b) ?_ fun _ => rfl
    have hhash : ({ pool with freeBlockQueue := pool.freeBlockQueue.erase b } : BlockPool).hashOf b =
        some key := hsome
    rw [if_neg (by rw [hhash]; exact Option.some_ne_none _)]

theorem touchKeys : ∀ (keys : List OffloadKey) {pool : BlockPool}, pool.Stocked writing loads →
    ∃ pool', CPUTier.touchKeys keys pool = .ok pool' ∧ pool'.Stocked writing loads
  | [], pool, h => ⟨pool, rfl, h⟩
  | key :: keys, pool, h => by
      obtain ⟨p₁, hp₁, h₁⟩ := h.touchKey key
      obtain ⟨p₂, hp₂, h₂⟩ := touchKeys keys h₁
      exact ⟨p₂, by rw [CPUTier.touchKeys, hp₁, ok_bind, hp₂], h₂⟩

/-- Forgetting every hash, with nothing in flight. -/
theorem resetPrefixCache (h : pool.Stocked 0 0) : pool.resetPrefixCache.2.Stocked 0 0 := by
  unfold BlockPool.resetPrefixCache
  split
  · exact h
  · exact {
      holds := ⟨h.holds.two_le, h.holds.null_ref, rfl, h.holds.ref, h.holds.held_bound,
        h.holds.queue_nodup, h.holds.queue_iff, by simp, by simp, by simp, fun _ _ => rfl⟩
      caching := h.caching
      layered := ⟨pool.freeBlockQueue, [], (List.append_nil _).symm, fun _ _ => rfl, by simp⟩
      once := h.once
      unhashed := by simp
      front := by simp }

end Stocked

end BlockPool

/-! ### The tier under its transfers -/

/-- The blocks the transfers of a kind use, a block once for each of them. -/
def blocksOf (kind : TransferKind) (ts : List Transfer) : List BlockId :=
  (ts.filter fun t => decide (t.kind = kind)).flatMap Transfer.cpuBlocks

theorem blocksOf_cons (kind : TransferKind) (t : Transfer) (ts : List Transfer) :
    blocksOf kind (t :: ts) = (if t.kind = kind then t.cpuBlocks else []) ++ blocksOf kind ts := by
  by_cases h : t.kind = kind <;> simp [blocksOf, h]

theorem blocksOf_append (kind : TransferKind) (ts ts' : List Transfer) :
    blocksOf kind (ts ++ ts') = blocksOf kind ts ++ blocksOf kind ts' := by
  simp [blocksOf]

theorem Transfer.pairs_blocks {t : Transfer} (h : t.keys.length = t.cpuBlocks.length) :
    t.pairs.map Prod.snd = t.cpuBlocks := by
  rw [Transfer.pairs, List.map_snd_zip h.ge]

/-- The pairs of parallel transfers use the transfers' blocks. -/
theorem pairsOf_blocks {kind : TransferKind} {ts : List Transfer} (h : Parallel ts) :
    (pairsOf kind ts).map Prod.snd = blocksOf kind ts := by
  induction ts with
  | nil => rfl
  | cons t ts ih =>
    have ht := Transfer.pairs_blocks (h t List.mem_cons_self)
    rw [pairsOf_cons, blocksOf_cons, List.map_append, ih fun t' ht' =>
      h t' (List.mem_cons_of_mem _ ht')]
    by_cases hkind : t.kind = kind <;> simp [hkind, ht]

/-- No two stores in flight write one key. -/
def OneWriter (ts : List Transfer) : Prop :=
  ts.Pairwise fun t t' => t.kind = .store → t'.kind = .store → t.keys.Disjoint t'.keys

theorem OneWriter.disjoint {ts : List Transfer} (h : OneWriter ts) {t t' : Transfer} (ht : t ∈ ts)
    (ht' : t' ∈ ts) (hne : t ≠ t') (hkind : t.kind = .store) (hkind' : t'.kind = .store) :
    t.keys.Disjoint t'.keys := by
  have hsymm : Std.Symm fun t t' : Transfer =>
      t.kind = .store → t'.kind = .store → t.keys.Disjoint t'.keys :=
    ⟨fun _ _ hab hb ha => (hab ha hb).symm⟩
  exact List.Pairwise.forall h ht ht' hne hkind hkind'

namespace CPUTier

/-- `ts` are the transfers in flight: their blocks are the pool's references, the keys being stored
are noted, and `_pinned_cached` counts the pairs being read. -/
structure Booked (m : CPUTier) (ts : List Transfer) : Prop where
  stocked : m.pool.Stocked (blocksOf .store ts : Multiset BlockId)
    (pairsOf .load ts : Multiset (OffloadKey × BlockId))
  parallel : Parallel ts
  writers : OneWriter ts
  inflight : ∀ t ∈ ts, t.kind = .store → ∀ key ∈ t.keys, key ∈ m.inflightStores
  pinned : m.pinnedCached = (pairsOf .load ts).length

namespace Booked

variable {m m' : CPUTier} {ts ts' : List Transfer} {t : Transfer}

theorem create {numBlocks blockSize : Nat} (h : CPUTier.create numBlocks blockSize = .ok m) :
    m.pending = [] ∧ m.Booked m.pending := by
  unfold CPUTier.create at h
  split at h
  · cases h
  obtain ⟨pool, hpool, hm⟩ := bind_eq_ok.mp h
  cases hm
  exact ⟨rfl, {
    stocked := BlockPool.Stocked.create hpool
    parallel := fun t ht => by cases ht
    writers := List.Pairwise.nil
    inflight := fun t ht => by cases ht
    pinned := rfl }⟩

/-- The order of the transfers does not matter. -/
theorem perm (h : m.Booked ts) (hperm : ts.Perm ts') : m.Booked ts' where
  stocked := by
    have hstores : (blocksOf .store ts' : Multiset BlockId) = blocksOf .store ts :=
      Multiset.coe_eq_coe.mpr ((hperm.symm.filter _).flatMap_right _)
    rw [hstores, ← pairsOf_perm hperm]
    exact h.stocked
  parallel t ht := h.parallel t (hperm.mem_iff.mpr ht)
  writers := (hperm.pairwise_iff fun hab hb ha => (hab ha hb).symm).mp h.writers
  inflight t ht := h.inflight t (hperm.mem_iff.mpr ht)
  pinned := by
    have hloads : (pairsOf .load ts).Perm (pairsOf .load ts') := (hperm.filter _).flatMap_right _
    rw [h.pinned, hloads.length_eq]

/-- What a load reads is what its keys are looked up to; so its keys determine its blocks. -/
theorem load_block (h : m.Booked ts) {p p' : OffloadKey × BlockId} (hp : p ∈ pairsOf .load ts)
    (hp' : p' ∈ pairsOf .load ts) (hkey : p.1 = p'.1) : p = p' := by
  have hfront := h.stocked.front p (Multiset.mem_coe.mpr hp)
  rw [hkey, h.stocked.front p' (Multiset.mem_coe.mpr hp')] at hfront
  exact Prod.ext hkey (Option.some.inj hfront).symm

/-- Transfers of one kind over the same keys move the same blocks. -/
theorem core_eq (h : m.Booked ts) {t t' : Transfer} (ht : t ∈ ts) (ht' : t' ∈ ts)
    (hkind : t'.kind = t.kind) (hkeys : t'.keys = t.keys) : t'.core = t.core := by
  have hlen := h.parallel t ht
  have hlen' := h.parallel t' ht'
  have hblocks : t'.cpuBlocks = t.cpuBlocks := by
    cases hk : t.kind with
    | load =>
      rw [hkeys] at hlen'
      refine blocks_eq_of_zip (S := (pairsOf .load ts : Multiset (OffloadKey × BlockId)))
        (fun hp hp' => h.load_block (Multiset.mem_coe.mp hp) (Multiset.mem_coe.mp hp')) hlen' hlen
        (fun p hp => ?_) fun p hp => mem_pairsOf.mpr ⟨t, ht, hk, hp⟩
      rw [← hkeys] at hp
      exact mem_pairsOf.mpr ⟨t', ht', hkind.trans hk, hp⟩
    | store =>
      by_cases heq : t' = t
      · rw [heq]
      -- two stores share no key, so these have none, and no block either
      have hdisjoint := h.writers.disjoint ht' ht heq (hkind.trans hk) hk
      rw [hkeys] at hdisjoint
      have hnil : t.keys = [] :=
        List.eq_nil_iff_forall_not_mem.mpr fun key hkey => hdisjoint hkey hkey
      rw [hnil] at hlen
      rw [hkeys, hnil] at hlen'
      rw [List.length_eq_zero_iff.mp hlen.symm, List.length_eq_zero_iff.mp hlen'.symm]
  simp only [Transfer.core, hkind, hkeys, hblocks]

end Booked

variable {m : CPUTier} {ts : List Transfer} {t t' : Transfer}

/-- The loop of `complete_store`: every block lands, and no key but these stops being in flight. -/
theorem completePairs_stocked {writing : Multiset BlockId}
    {loads : Multiset (OffloadKey × BlockId)} : ∀ (pairs : List (OffloadKey × BlockId)) {m : CPUTier},
    m.pool.Stocked ((pairs.map Prod.snd : List BlockId) + writing) loads →
    ∃ m', completePairs pairs m = .ok m' ∧ m'.pool.Stocked writing loads ∧
      m'.pending = m.pending ∧ m'.pinnedCached = m.pinnedCached ∧
      ∀ key ∈ m.inflightStores, key ∉ pairs.map Prod.fst → key ∈ m'.inflightStores
  | [], m, h => ⟨m, rfl, by simpa using h, rfl, rfl, fun _ hkey _ => hkey⟩
  | (key, b) :: pairs, m, h => by
      rw [List.map_cons, ← Multiset.cons_coe, Multiset.cons_add] at h
      obtain ⟨p, pool, hp, hfree, hstocked⟩ := h.land key
      obtain ⟨m', hm', hstocked', hpending, hpinned, hin⟩ := completePairs_stocked pairs
        (m := { m with pool, inflightStores := m.inflightStores.erase key }) hstocked
      refine ⟨m', ?_, hstocked', hpending, hpinned, fun key' hkey hnot => ?_⟩
      · simp only [completePairs, completePair, hp, hfree, ok_bind, pure_eq_ok, hm']
      · rw [List.map_cons, List.mem_cons, not_or] at hnot
        exact hin key' (Finset.mem_erase.mpr ⟨hnot.1, hkey⟩) hnot.2

/-- A store lands. -/
theorem Booked.landStore (h : m.Booked (t :: ts)) (hkind : t.kind = .store) (hcore : t'.core = t.core)
    (rest : List Transfer) : ∃ m', completePairs t'.pairs { m with pending := rest } = .ok m' ∧
      m'.Booked ts ∧ m'.pending = rest := by
  have hpairs : t'.pairs = t.pairs := by
    have hkeys : t'.keys = t.keys := congrArg (·.2.1) hcore
    have hblocks : t'.cpuBlocks = t.cpuBlocks := congrArg (·.2.2) hcore
    rw [Transfer.pairs, Transfer.pairs, hkeys, hblocks]
  have hlen := h.parallel t List.mem_cons_self
  have hstocked := h.stocked
  simp only [blocksOf_cons, pairsOf_cons, hkind, reduceCtorEq, if_true, if_false,
    List.nil_append] at hstocked
  rw [← Transfer.pairs_blocks hlen, ← Multiset.coe_add] at hstocked
  obtain ⟨m', hm', hstocked', hpending, hpinned, hin⟩ :=
    completePairs_stocked (m := { m with pending := rest }) t.pairs hstocked
  obtain ⟨hhead, hwriters⟩ := List.pairwise_cons.mp h.writers
  refine ⟨m', hpairs ▸ hm', ?_, hpending⟩
  exact {
    stocked := hstocked'
    parallel := fun t₁ ht₁ => h.parallel t₁ (List.mem_cons_of_mem _ ht₁)
    writers := hwriters
    inflight := fun t₁ ht₁ hk key hkey => by
      refine hin key (h.inflight t₁ (List.mem_cons_of_mem _ ht₁) hk key hkey) fun hmem => ?_
      rw [Transfer.pairs, List.map_fst_zip hlen.le] at hmem
      exact hhead t₁ ht₁ hkind hk hmem hkey
    pinned := by
      rw [hpinned]
      have := h.pinned
      rwa [pairsOf_cons, if_neg (by simp [hkind]), List.nil_append] at this }

/-- A load lands. -/
theorem Booked.landLoad (h : m.Booked (t :: ts)) (hkind : t.kind = .load) (hcore : t'.core = t.core)
    (rest : List Transfer) : ∃ pool, BlockPool.freeBlocks t'.cpuBlocks m.pool = .ok pool ∧
      { m with
        pool
        pending := rest
        pinnedCached := m.pinnedCached - t'.cpuBlocks.length }.Booked ts := by
  have hblocks : t'.cpuBlocks = t.cpuBlocks := congrArg (·.2.2) hcore
  have hlen := h.parallel t List.mem_cons_self
  have hstocked := h.stocked
  simp only [blocksOf_cons, pairsOf_cons, hkind, reduceCtorEq, if_true, if_false,
    List.nil_append] at hstocked
  rw [← Multiset.coe_add, add_comm (t.pairs : Multiset (OffloadKey × BlockId))] at hstocked
  obtain ⟨pool, hfree, hstocked'⟩ := hstocked.unpin
  rw [Transfer.pairs_blocks hlen, ← hblocks] at hfree
  refine ⟨pool, hfree, ?_⟩
  exact {
    stocked := hstocked'
    parallel := fun t₁ ht₁ => h.parallel t₁ (List.mem_cons_of_mem _ ht₁)
    writers := (List.pairwise_cons.mp h.writers).2
    inflight := fun t₁ ht₁ => h.inflight t₁ (List.mem_cons_of_mem _ ht₁)
    pinned := by
      have hpinned := h.pinned
      rw [pairsOf_cons, if_pos hkind, List.length_append,
        ← @List.length_map _ _ t.pairs Prod.snd, Transfer.pairs_blocks hlen, ← hblocks] at hpinned
      simp only [hpinned]
      omega }

/-- What `take_events` completes. -/
theorem Booked.complete (h : m.Booked (t :: ts))
    (hcore : (m.pending.map Transfer.core).Perm ((t :: ts).map Transfer.core)) :
    ∃ m', m.complete t = .ok m' ∧ m'.Booked ts ∧
      (m'.pending.map Transfer.core).Perm (ts.map Transfer.core) := by
  obtain ⟨t', rest, hpop, hsame, hrest⟩ := popPending_ok
    (fun t₁ ht₁ => h.core_eq List.mem_cons_self ht₁) hcore
  cases hkind : t.kind with
  | store =>
    obtain ⟨m', hm', hbooked, hpending⟩ := h.landStore hkind hsame rest
    rw [hkind] at hpop
    exact ⟨m', by simp only [CPUTier.complete, hkind, completeStore, hpop, hm'], hbooked,
      hpending ▸ hrest⟩
  | load =>
    obtain ⟨pool, hfree, hbooked⟩ := h.landLoad hkind hsame rest
    rw [hkind] at hpop
    exact ⟨_, by simp only [CPUTier.complete, hkind, completeLoad, hpop, hfree, ok_bind, pure_eq_ok],
      hbooked, hrest⟩

/-- The loop of `take_events`: `kept` is what it has set aside before this point. -/
theorem Booked.drain (landed : Finset Nat) : ∀ (rest kept : List Transfer) {m : CPUTier},
    m.Booked (kept ++ rest) → (m.pending.map Transfer.core).Perm ((kept ++ rest).map Transfer.core) →
    ∃ events m', CPUTier.drain landed rest m =
        .ok (events, rest.filter (fun t => !t.isDone landed), m') ∧
      m'.Booked (kept ++ rest.filter fun t => !t.isDone landed)
  | [], kept, m, h, _ => ⟨[], m, rfl, h⟩
  | t :: rest, kept, m, h, hcore => by
      cases hdone : t.isDone landed with
      | true =>
        have hmid : (kept ++ t :: rest).Perm (t :: (kept ++ rest)) := List.perm_middle
        obtain ⟨m₁, hm₁, h₁, hcore₁⟩ := (h.perm hmid).complete (hcore.trans (hmid.map _))
        obtain ⟨events, m₂, hm₂, h₂⟩ := Booked.drain landed rest kept h₁ hcore₁
        refine ⟨t.toEvent :: events, m₂, ?_, ?_⟩
        · simp only [CPUTier.drain, hdone, if_true, hm₁, ok_bind, hm₂, pure_eq_ok, List.filter_cons,
            Bool.not_true, Bool.false_eq_true, if_false]
        · simpa only [List.filter_cons, hdone, Bool.not_true, Bool.false_eq_true, if_false]
            using h₂
      | false =>
        have hsplit : kept ++ t :: rest = (kept ++ [t]) ++ rest := by simp
        rw [hsplit] at h hcore
        obtain ⟨events, m₂, hm₂, h₂⟩ := Booked.drain landed rest (kept ++ [t]) h hcore
        refine ⟨events, m₂, ?_, ?_⟩
        · simp only [CPUTier.drain, hdone, Bool.false_eq_true, if_false, hm₂, ok_bind, pure_eq_ok,
            List.filter_cons, Bool.not_false, if_true]
        · simpa only [List.filter_cons, hdone, Bool.not_false, if_true, List.append_assoc,
            List.singleton_append] using h₂

/-- `Booked` does not read the pending list itself. -/
theorem Booked.setPending (h : m.Booked ts) (pending : List Transfer) :
    { m with pending }.Booked ts :=
  ⟨h.stocked, h.parallel, h.writers, h.inflight, h.pinned⟩

theorem Booked.takeEvents (h : m.Booked m.pending) (landed : Finset Nat) :
    ∃ events m', m.takeEvents landed = .ok (events, m') ∧ m'.Booked m'.pending := by
  obtain ⟨events, m', hm', hbooked⟩ := Booked.drain landed m.pending [] h (List.Perm.refl _)
  refine ⟨events, { m' with pending := m.pending.filter fun t => !t.isDone landed }, ?_,
    hbooked.setPending _⟩
  simp only [CPUTier.takeEvents, hm', ok_bind, pure_eq_ok]

/-! #### The calls -/

/-- `_pop_pending` takes one transfer out. -/
theorem popPending_perm {kind : TransferKind} {keys : List OffloadKey} {m' : CPUTier}
    (h : m.popPending kind keys = some (t, m')) :
    t.kind = kind ∧ ∃ rest, m' = { m with pending := rest } ∧ m.pending.Perm (t :: rest) := by
  unfold popPending at h
  dsimp only at h
  split at h
  · cases h
  · rename_i t₀ hfind
    obtain ⟨rfl, rfl⟩ := Prod.mk.inj (Option.some.inj h)
    have hwanted : t₀.kind = kind ∧ t₀.keys = keys := by simpa using List.find?_some hfind
    refine ⟨hwanted.1, _, rfl, ?_⟩
    obtain ⟨-, before, after, hsplit, hbefore⟩ := List.find?_eq_some_iff_append.mp hfind
    rw [hsplit, List.eraseP_append_right _ (fun a ha => by simpa [or_iff_not_imp_left] using hbefore a ha),
      List.eraseP_cons_of_pos (by simpa using hwanted)]
    exact List.perm_middle

/-- Outside a drain: the first pending load over these keys is unpinned, if there is one. -/
theorem Booked.completeLoad (h : m.Booked m.pending) (keys : List OffloadKey) :
    ∃ m', m.completeLoad keys = .ok m' ∧ m'.Booked m'.pending := by
  cases hpop : m.popPending .load keys with
  | none => exact ⟨m, by simp only [CPUTier.completeLoad, hpop], h⟩
  | some popped =>
    obtain ⟨t, m₁⟩ := popped
    obtain ⟨hkind, rest, rfl, hperm⟩ := popPending_perm hpop
    obtain ⟨pool, hfree, hbooked⟩ := (h.perm hperm).landLoad hkind rfl rest
    exact ⟨_, by simp only [CPUTier.completeLoad, hpop, hfree, ok_bind, pure_eq_ok], hbooked⟩

/-- Outside a drain: the first pending store over these keys is indexed, if there is one. -/
theorem Booked.completeStore (h : m.Booked m.pending) (keys : List OffloadKey) :
    ∃ m', m.completeStore keys = .ok m' ∧ m'.Booked m'.pending := by
  cases hpop : m.popPending .store keys with
  | none => exact ⟨m, by simp only [CPUTier.completeStore, hpop], h⟩
  | some popped =>
    obtain ⟨t, m₁⟩ := popped
    obtain ⟨hkind, rest, rfl, hperm⟩ := popPending_perm hpop
    obtain ⟨m', hm', hbooked, hpending⟩ := (h.perm hperm).landStore hkind rfl rest
    exact ⟨m', by simp only [CPUTier.completeStore, hpop, hm'], hpending ▸ hbooked⟩

theorem Booked.touch (h : m.Booked m.pending) (keys : List OffloadKey) :
    ∃ m', m.touch keys = .ok m' ∧ m'.Booked m'.pending := by
  obtain ⟨pool, hpool, hstocked⟩ := h.stocked.touchKeys keys
  exact ⟨{ m with pool }, by simp only [CPUTier.touch, hpool, ok_bind, pure_eq_ok],
    hstocked, h.parallel, h.writers, h.inflight, h.pinned⟩

/-- A load that pins something pins a block for every key, and counts each. -/
theorem Booked.prepareLoad (h : m.Booked m.pending) {keys : List OffloadKey} {gpuBlocks : List Nat}
    {event : Option Nat} {spec : Option LoadSpec} {m' : CPUTier}
    (hload : m.prepareLoad keys gpuBlocks event = .ok (spec, m')) : m'.Booked m'.pending := by
  unfold CPUTier.prepareLoad at hload
  split at hload
  · cases hload
  split at hload
  · cases hload
    exact h
  rename_i blocks hblocks
  obtain ⟨hlen, hzip⟩ := mapM_zip hblocks
  obtain ⟨pool, hpool, hstocked⟩ := h.stocked.pin hzip
  rw [List.map_snd_zip hlen.ge] at hpool
  simp only [hpool, ok_bind, pure_eq_ok, Except.ok.injEq, Prod.mk.injEq] at hload
  obtain ⟨-, rfl⟩ := hload
  have hpairs : pairsOf .load (m.pending ++ [loadTransfer keys gpuBlocks blocks event]) =
      pairsOf .load m.pending ++ keys.zip blocks := by
    rw [pairsOf_append]
    simp [pairsOf, Transfer.pairs, loadTransfer]
  exact {
    stocked := by
      have hblocksOf : blocksOf .store (m.pending ++ [loadTransfer keys gpuBlocks blocks event]) =
          blocksOf .store m.pending := by
        rw [blocksOf_append]
        simp [blocksOf, loadTransfer]
      rw [hblocksOf, hpairs]
      exact hstocked
    parallel := fun t ht => by
      rcases List.mem_append.mp ht with ht | ht
      · exact h.parallel t ht
      · rw [List.mem_singleton.mp ht]
        exact hlen
    writers := by
      refine List.pairwise_append.mpr ⟨h.writers, List.pairwise_singleton _ _, ?_⟩
      intro t _ t' ht' _ hkind
      rw [List.mem_singleton.mp ht'] at hkind
      cases hkind
    inflight := fun t ht hkind => by
      rcases List.mem_append.mp ht with ht | ht
      · exact h.inflight t ht hkind
      · rw [List.mem_singleton.mp ht] at hkind
        cases hkind
    pinned := by
      rw [hpairs, List.length_append, List.length_zip, hlen, Nat.min_self]
      simp only [h.pinned]
      omega }

/-- `reset_cache` drains, and forgets the resident keys if nothing is left in flight. -/
def resetCache (m : CPUTier) (landed : Finset Nat) : Except Raised (Bool × CPUTier) := do
  let (_, m) ← m.takeEvents landed
  if m.pending ≠ [] then return (false, m)
  let (done, pool) := m.pool.resetPrefixCache
  return (done, { m with pool })

theorem Booked.resetCache (h : m.Booked m.pending) (landed : Finset Nat) :
    ∃ done m', m.resetCache landed = .ok (done, m') ∧ m'.Booked m'.pending := by
  obtain ⟨events, m', hm', hbooked⟩ := h.takeEvents landed
  by_cases hpending : m'.pending = []
  · have hstocked := hbooked.stocked
    rw [hpending] at hstocked
    refine ⟨m'.pool.resetPrefixCache.1, { m' with pool := m'.pool.resetPrefixCache.2 }, ?_, ?_⟩
    · simp only [CPUTier.resetCache, hm', ok_bind, hpending, ne_eq, not_true_eq_false, if_false,
        pure_eq_ok]
    · refine ⟨?_, hbooked.parallel, hbooked.writers, hbooked.inflight, hbooked.pinned⟩
      rw [hpending]
      exact hstocked.resetPrefixCache
  · refine ⟨false, m', ?_, hbooked⟩
    simp only [CPUTier.resetCache, hm', ok_bind, hpending, ne_eq, not_false_eq_true, if_true,
      pure_eq_ok]

/-! ### The prediction

Blocks are handed out from the front of the queue, so `count` of them cost a key exactly when every
block under the key is among the first `count`. The code asks instead whether `count` exceeds what
it takes for the number of hashless free blocks. -/

/-- The hashless free blocks. -/
def hashlessFree (m : CPUTier) : Nat :=
  m.pool.freeBlockQueue.countP fun b => (m.pool.hashOf b).isNone

/-- The loads in flight of a block beyond the first, over all blocks. -/
def surplusPins (m : CPUTier) : Nat :=
  (blocksOf .load m.pending).length - (blocksOf .load m.pending).dedup.length

/-- Handing out `count` blocks costs this key: all its blocks are among them. -/
def Costs (m : CPUTier) (count : Nat) (key : OffloadKey) : Prop :=
  m.pool.cachedBlockHashToBlock key ≠ [] ∧
    ∀ b ∈ m.pool.cachedBlockHashToBlock key, b ∈ m.pool.freeBlockQueue.take count

/-- There is room for `count` blocks, they cost some key, and blocks pinned more than once make up
for the hashless ones missing. -/
def Overlooked (m : CPUTier) (count : Nat) : Prop :=
  count ≤ m.pool.numFreeBlocks ∧ count ≤ m.hashlessFree + m.surplusPins ∧
    ∃ key, m.Costs count key

/-- The report names the keys `lookup` answered `hit` for before the call and `miss` after it. -/
def Exact (m : CPUTier) (spec : StoreSpec) (m' : CPUTier) : Prop :=
  ∀ key, key ∈ spec.evicted ↔ m.lookup key = .hit ∧ m'.lookup key = .miss

theorem lookup_hit {key : OffloadKey} :
    m.lookup key = .hit ↔ (m.pool.getCachedBlock key).isSome = true := by
  unfold lookup
  split <;> simp_all

theorem lookup_miss {key : OffloadKey} :
    m.lookup key = .miss ↔ ¬(m.pool.getCachedBlock key).isSome = true := by
  unfold lookup
  split <;> simp_all

/-- A report of nothing is right when nothing moved. -/
theorem exact_refl (m : CPUTier) : m.Exact {} m := fun key => by
  rw [lookup_hit, lookup_miss]
  exact iff_of_false (Finset.notMem_empty key) fun hmoved => hmoved.2 hmoved.1

/-- The cached blocks are the free ones with a hash, and those some load pins. -/
theorem numCachedBlocks_eq {pool : BlockPool} {writing : Multiset BlockId}
    {pairs : List (OffloadKey × BlockId)}
    (h : pool.Stocked writing (pairs : Multiset (OffloadKey × BlockId))) {fresh cached : List BlockId}
    (hlayered : pool.Layered fresh cached) :
    pool.numCachedBlocks = cached.length + (pairs.map Prod.snd).dedup.length := by
  have hpinned : ∀ b, b ∈ pairs.map Prod.snd ↔
      b ∈ (pairs : Multiset (OffloadKey × BlockId)).map Prod.snd := fun b => by simp
  have hfree : ∀ b ∈ cached, b ∈ pool.freeBlockQueue := fun b hb =>
    hlayered.queue ▸ List.mem_append_right _ hb
  have hheld : ∀ b ∈ pairs.map Prod.snd, b ∉ pool.freeBlockQueue := fun b hb hmem =>
    Multiset.count_ne_zero.mpr (Multiset.mem_add.mpr (.inr ((hpinned b).mp hb)))
      (h.holds.free_of_queue hmem).2.2
  have hnodup : (cached ++ (pairs.map Prod.snd).dedup).Nodup := by
    refine List.nodup_append.mpr ⟨?_, List.nodup_dedup _, ?_⟩
    · exact (List.nodup_append.mp (hlayered.nodup h.holds)).2.1
    · rintro b hb b' hb' rfl
      exact hheld b (List.mem_dedup.mp hb') (hfree b hb)
  have hmem : ∀ b, b ∈ pool.cachedBlocks ↔ b ∈ cached ++ (pairs.map Prod.snd).dedup := by
    intro b
    have hcached : b ∈ pool.cachedBlocks ↔ b < pool.numBlocks ∧ (pool.hashOf b).isSome := by
      rw [BlockPool.cachedBlocks, List.mem_filter, List.mem_range]
      cases hb : pool.hashOf b with
      | none => simp
      | some key => simpa using fun _ => (h.holds.index_iff key b).mpr hb
    rw [hcached, List.mem_append, List.mem_dedup]
    constructor
    · rintro ⟨hlt, hsome⟩
      have hnull : b ≠ nullBlockId := by
        rintro rfl
        rw [BlockPool.hashOf, h.holds.null_hash] at hsome
        cases hsome
      by_cases hqueue : b ∈ pool.freeBlockQueue
      · rw [hlayered.queue, List.mem_append] at hqueue
        refine .inl (hqueue.resolve_left fun hb => ?_)
        rw [hlayered.unhashed b hb] at hsome
        cases hsome
      · refine .inr ((hpinned b).mpr (((h.held_iff hnull hlt).mp hqueue).resolve_left fun hb => ?_))
        rw [h.unhashed b hb] at hsome
        cases hsome
    · rintro (hb | hb)
      · exact ⟨(h.holds.free_of_queue (hfree b hb)).2.1, hlayered.hashed b hb⟩
      · obtain ⟨p, hp, rfl⟩ := List.mem_map.mp hb
        have hhash := h.hashOf_load (Multiset.mem_coe.mpr hp)
        exact ⟨h.holds.index_bound _ _ ((h.holds.index_iff _ _).mpr hhash), by simp [hhash]⟩
  have hnodup' : pool.cachedBlocks.Nodup := List.nodup_range.filter _
  rw [BlockPool.numCachedBlocks, ((List.perm_ext_iff_of_nodup hnodup' hnodup).mpr hmem).length_eq,
    List.length_append]

/-- **What the code compares with.** Its count of hashless free blocks is off by the surplus
pins. -/
theorem casualties_eq (h : m.Booked m.pending) (count : Nat) (pool : BlockPool) :
    m.casualties count pool = if m.hashlessFree + m.surplusPins < count then
      m.pool.cachedHashes \ pool.cachedHashes else ∅ := by
  obtain ⟨fresh, cached, hlayered⟩ := h.stocked.layered
  have hcached := numCachedBlocks_eq h.stocked hlayered
  have hhashless : m.hashlessFree = fresh.length := by
    rw [hashlessFree, List.countP_eq_length_filter, hlayered.filter_unhashed]
  have hfree : m.pool.numFreeBlocks = fresh.length + cached.length := by
    rw [BlockPool.numFreeBlocks, hlayered.queue, List.length_append]
  have hpins : (pairsOf .load m.pending).length = (blocksOf .load m.pending).length := by
    rw [← pairsOf_blocks h.parallel, List.length_map]
  have hle : (blocksOf .load m.pending).dedup.length ≤ (blocksOf .load m.pending).length :=
    (List.dedup_sublist _).length_le
  rw [pairsOf_blocks h.parallel] at hcached
  have hpinned := h.pinned
  rw [hpins] at hpinned
  unfold casualties
  dsimp only
  refine if_congr ?_ rfl rfl
  rw [hpinned, hcached, hfree, hhashless, surplusPins]
  omega

theorem mem_cachedHashes {pool : BlockPool} {held : Multiset BlockId} (h : pool.Holds held)
    {key : OffloadKey} : key ∈ pool.cachedHashes ↔ (pool.getCachedBlock key).isSome = true := by
  rw [BlockPool.Stocked.isSome_iff h, BlockPool.cachedHashes, List.mem_toFinset, List.mem_filterMap]
  constructor
  · rintro ⟨b, -, hb⟩
    exact ⟨b, hb⟩
  · rintro ⟨b, hb⟩
    have hindex := (h.index_iff key b).mpr hb
    refine ⟨b, List.mem_filter.mpr ⟨List.mem_range.mpr (h.index_bound _ _ hindex), ?_⟩, hb⟩
    simp [hb, hindex]

/-- The keys that an allocation costs are those a lookup misses after it and not before. -/
theorem costs_iff {held held' : Multiset BlockId} {pool : BlockPool} {count : Nat} {key : OffloadKey}
    (h : m.pool.Holds held) (h' : pool.Holds held')
    (hnone : ∀ b ∈ m.pool.freeBlockQueue.take count, pool.hashOf b = none)
    (hkeep : ∀ b ∉ m.pool.freeBlockQueue.take count, pool.hashOf b = m.pool.hashOf b) :
    m.Costs count key ↔ (m.pool.getCachedBlock key).isSome = true ∧
      ¬(pool.getCachedBlock key).isSome = true := by
  rw [BlockPool.Stocked.isSome_iff h, BlockPool.Stocked.isSome_iff h']
  constructor
  · rintro ⟨hne, hall⟩
    obtain ⟨b, hb⟩ := List.exists_mem_of_ne_nil _ hne
    refine ⟨⟨b, (h.index_iff _ _).mp hb⟩, fun ⟨b', hb'⟩ => ?_⟩
    by_cases htaken : b' ∈ m.pool.freeBlockQueue.take count
    · rw [hnone b' htaken] at hb'
      cases hb'
    · rw [hkeep b' htaken] at hb'
      exact htaken (hall b' ((h.index_iff _ _).mpr hb'))
  · rintro ⟨⟨b, hb⟩, hgone⟩
    refine ⟨List.ne_nil_of_mem ((h.index_iff _ _).mpr hb), fun b' hb' => ?_⟩
    by_contra htaken
    refine hgone ⟨b', ?_⟩
    rw [hkeep b' htaken]
    exact (h.index_iff _ _).mp hb'

/-- Submitting a store. -/
theorem Booked.submitStore (h : m.Booked m.pending) {entries : List (Nat × OffloadKey)}
    {event : Option Nat} {pool : BlockPool} {blocks : List BlockId}
    (hstocked : pool.Stocked ((blocksOf .store m.pending : Multiset BlockId) + (blocks : List BlockId))
      (pairsOf .load m.pending : Multiset (OffloadKey × BlockId)))
    (hlen : (m.fresh entries).length = blocks.length) :
    { m with
      pool
      pending := m.pending ++ [storeTransfer (m.fresh entries) blocks event]
      inflightStores := m.inflightStores ∪ ((m.fresh entries).map Prod.snd).toFinset }.Booked
      (m.pending ++ [storeTransfer (m.fresh entries) blocks event]) where
  stocked := by
    have hstores : blocksOf .store (m.pending ++ [storeTransfer (m.fresh entries) blocks event]) =
        blocksOf .store m.pending ++ blocks := by
      rw [blocksOf_append]
      simp [blocksOf, storeTransfer]
    have hloads : pairsOf .load (m.pending ++ [storeTransfer (m.fresh entries) blocks event]) =
        pairsOf .load m.pending := by
      rw [pairsOf_append]
      simp [pairsOf, storeTransfer]
    rw [hstores, hloads, ← Multiset.coe_add]
    exact hstocked
  parallel t ht := by
    rcases List.mem_append.mp ht with ht | ht
    · exact h.parallel t ht
    · rw [List.mem_singleton.mp ht]
      simpa [storeTransfer] using hlen
  writers := by
    refine List.pairwise_append.mpr ⟨h.writers, List.pairwise_singleton _ _, ?_⟩
    intro t ht t' ht' hkind _ key hkey hkey'
    rw [List.mem_singleton.mp ht'] at hkey'
    -- a key that is being stored is not fresh
    obtain ⟨entry, hentry, rfl⟩ := List.mem_map.mp hkey'
    have hpass := (List.mem_filter.mp hentry).2
    simp [h.inflight t ht hkind _ hkey] at hpass
  inflight t ht hkind key hkey := by
    rcases List.mem_append.mp ht with ht | ht
    · exact Finset.mem_union_left _ (h.inflight t ht hkind key hkey)
    · rw [List.mem_singleton.mp ht] at hkey
      exact Finset.mem_union_right _ (List.mem_toFinset.mpr hkey)
  pinned := by
    rw [pairsOf_append]
    simpa [pairsOf, storeTransfer] using h.pinned

/-- **One store.** It returns, keeps the accounts, and its report is exact unless the call is
overlooked. -/
theorem prepareStore_evicted (h : m.Booked m.pending) (entries : List (Nat × OffloadKey))
    (event : Option Nat) : ∃ spec m', m.prepareStore entries event = .ok (spec, m') ∧
      m'.Booked m'.pending ∧ (m.Exact spec m' ↔ ¬m.Overlooked (m.fresh entries).length) := by
  by_cases hfresh : m.fresh entries = []
  · refine ⟨{}, m, by simp only [prepareStore, if_pos hfresh], h, iff_of_true (exact_refl m) ?_⟩
    rintro ⟨-, -, key, hne, hall⟩
    obtain ⟨b, hb⟩ := List.exists_mem_of_ne_nil _ hne
    have := hall b hb
    rw [hfresh, List.length_nil, List.take_zero] at this
    cases this
  by_cases hshort : m.pool.numFreeBlocks < (m.fresh entries).length
  · refine ⟨{}, m, ?_, h, iff_of_true (exact_refl m) fun hover => Nat.not_le.mpr hshort hover.1⟩
    simp only [prepareStore, if_neg hfresh, BlockPool.getNewBlocks_short hshort, ok_bind, pure_eq_ok]
  have hroom := Nat.not_lt.mp hshort
  obtain ⟨pool, hnew, hstocked, hnone, hkeep⟩ := h.stocked.allocate hroom
  have hlen : (m.fresh entries).length =
      (m.pool.freeBlockQueue.take (m.fresh entries).length).length := by
    rw [List.length_take]
    exact (Nat.min_eq_left hroom).symm
  refine ⟨_, _, by simp only [prepareStore, if_neg hfresh, hnew, ok_bind, pure_eq_ok]; rfl,
    h.submitStore hstocked hlen, ?_⟩
  have hcosts : ∀ key, m.Costs (m.fresh entries).length key ↔
      (m.pool.getCachedBlock key).isSome = true ∧ ¬(pool.getCachedBlock key).isSome = true :=
    fun key => costs_iff h.stocked.holds hstocked.holds hnone hkeep
  simp only [Exact, lookup_hit, lookup_miss, casualties_eq h, ← hcosts]
  by_cases hsnapshot : m.hashlessFree + m.surplusPins < (m.fresh entries).length
  · rw [if_pos hsnapshot]
    refine iff_of_true (fun key => ?_) fun hover => Nat.not_le.mpr hsnapshot hover.2.1
    rw [Finset.mem_sdiff, mem_cachedHashes h.stocked.holds, mem_cachedHashes hstocked.holds, hcosts]
  · rw [if_neg hsnapshot]
    constructor
    · rintro hexact ⟨-, -, key, hcost⟩
      exact absurd ((hexact key).mpr hcost) (Finset.notMem_empty key)
    · intro hover key
      refine iff_of_false (Finset.notMem_empty key) fun hcost => hover ⟨hroom, ?_, key, hcost⟩
      exact Nat.not_lt.mp hsnapshot

/-! ### Runs -/

/-- A call of the manager; `landed` are the copies whose event has fired by then. -/
inductive TierCall
  | lookup (key : OffloadKey)
  | touch (keys : List OffloadKey)
  | prepareLoad (keys : List OffloadKey) (gpuBlocks : List Nat) (event : Option Nat)
  | completeLoad (keys : List OffloadKey)
  | prepareStore (entries : List (Nat × OffloadKey)) (event : Option Nat)
  | completeStore (keys : List OffloadKey)
  | takeEvents (landed : Finset Nat)
  | resetCache (landed : Finset Nat)

/-- The manager after a call. -/
def call (m : CPUTier) : TierCall → Except Raised CPUTier
  | .lookup _ => .ok m
  | .touch keys => m.touch keys
  | .prepareLoad keys gpuBlocks event => do return (← m.prepareLoad keys gpuBlocks event).2
  | .completeLoad keys => m.completeLoad keys
  | .prepareStore entries event => do return (← m.prepareStore entries event).2
  | .completeStore keys => m.completeStore keys
  | .takeEvents landed => do return (← m.takeEvents landed).2
  | .resetCache landed => do return (← m.resetCache landed).2

/-- Any call keeps the accounts. -/
theorem Booked.call {m' : CPUTier} {c : TierCall} (h : m.Booked m.pending) (hcall : m.call c = .ok m') :
    m'.Booked m'.pending := by
  cases c with
  | lookup key =>
    cases hcall
    exact h
  | touch keys =>
    obtain ⟨m₁, hm₁, hbooked⟩ := h.touch keys
    cases hm₁.symm.trans hcall
    exact hbooked
  | prepareLoad keys gpuBlocks event =>
    obtain ⟨⟨spec, m₁⟩, hload, hm⟩ := bind_eq_ok.mp hcall
    cases hm
    exact h.prepareLoad hload
  | completeLoad keys =>
    obtain ⟨m₁, hm₁, hbooked⟩ := h.completeLoad keys
    cases hm₁.symm.trans hcall
    exact hbooked
  | prepareStore entries event =>
    obtain ⟨spec, m₁, hstore, hbooked, -⟩ := prepareStore_evicted h entries event
    obtain ⟨result, hresult, hm⟩ := bind_eq_ok.mp hcall
    cases hstore.symm.trans hresult
    cases hm
    exact hbooked
  | completeStore keys =>
    obtain ⟨m₁, hm₁, hbooked⟩ := h.completeStore keys
    cases hm₁.symm.trans hcall
    exact hbooked
  | takeEvents landed =>
    obtain ⟨events, m₁, htake, hbooked⟩ := h.takeEvents landed
    obtain ⟨result, hresult, hm⟩ := bind_eq_ok.mp hcall
    cases htake.symm.trans hresult
    cases hm
    exact hbooked
  | resetCache landed =>
    obtain ⟨done, m₁, hreset, hbooked⟩ := h.resetCache landed
    obtain ⟨result, hresult, hm⟩ := bind_eq_ok.mp hcall
    cases hreset.symm.trans hresult
    cases hm
    exact hbooked

/-- A fresh manager of two blocks. -/
def freshManager : CPUTier where
  pool.numBlocks := 3
  pool.blockSize := 16
  pool.enableCaching := true
  pool.blocks := Function.update (fun _ => {}) nullBlockId { refCnt := 1 }
  pool.freeBlockQueue := [1, 2]
  pool.cachedBlockHashToBlock := fun _ => []

/-- Two keys resident, one of them being loaded twice. -/
def loadedTwice : List TierCall :=
  [.prepareStore [(0, 7), (1, 8)] none, .takeEvents ∅, .prepareLoad [7] [5] (some 0),
    .prepareLoad [7] [6] (some 1)]

end CPUTier

end RapidLlm
