import Mathlib.Data.Finset.Union
import Mathlib.Data.Multiset.AddSub
import RapidLlm.Lib.Run
import RapidLlm.Engine.BlockPool

/-!
# RapidLlm.Engine.KVOffload

The CPU primary tier (`engine/kv_offload/cpu.py`): a second `BlockPool` behind the GPU's, the
transfers between them, and what a key that `lookup` answers `hit` for is worth.

* `CPUTier` is the manager. `_inflight_stores` is its key set (nothing reads the transfers it
  maps to), `event` is what the copier's `submit` returned: `none` for a copy that is done.
* `Pinned pool inflight stores loads` is what the tier is for: the (key, block) pairs being
  written and the pairs being read are exactly the references on the pool, a block being
  written is nobody's yet, and one CPU block serves a key. Every operation is a move on `stores`
  and `loads`.
* `OffloadWorld` adds the copies themselves: which have landed, what each CPU block holds. Its
  fields beside the tier are what the code cannot see.

`OffloadingStats` and `bytes_per_block` count and are left out.
-/

namespace RapidLlm

/-! ### Vocabulary -/

/-- A block's identity in a tier: its chained hash. -/
abbrev OffloadKey := BlockHash

/-- `LookupResult` -/
inductive LookupResult
  | miss
  | hit
  | hitPending
  | retry
  deriving DecidableEq, Repr

/-- `CopyRun` -/
structure CopyRun where
  gpuBlock : Nat
  cpuBlock : BlockId
  deriving DecidableEq, Repr

/-- `LoadSpec` -/
structure LoadSpec where
  cpuBlocks : List BlockId
  gpuBlocks : List Nat
  keys : List OffloadKey
  deriving DecidableEq, Repr

/-- `StoreSpec`. The evicted keys come in no order. -/
structure StoreSpec where
  moves : List CopyRun := []
  keys : List OffloadKey := []
  evicted : Finset OffloadKey := ∅
  deriving DecidableEq

/-- `kind` of a transfer and of an event. -/
inductive TransferKind
  | store
  | load
  deriving DecidableEq, Repr

/-- `OffloadEvent` -/
structure OffloadEvent where
  kind : TransferKind
  keys : List OffloadKey
  cpuBlocks : List BlockId
  gpuBlocks : List Nat
  deriving DecidableEq, Repr

/-- `_Transfer`. `event` names the copier's event, `none` for a copy done on submission. -/
structure Transfer where
  kind : TransferKind
  keys : List OffloadKey
  cpuBlocks : List BlockId
  gpuBlocks : List Nat
  event : Option Nat
  moves : List CopyRun
  deriving DecidableEq, Repr

/-- The event `take_events` hands back for a transfer. -/
def Transfer.toEvent (t : Transfer) : OffloadEvent := ⟨t.kind, t.keys, t.cpuBlocks, t.gpuBlocks⟩

/-- The keys a transfer moves, each with its CPU block. -/
def Transfer.pairs (t : Transfer) : List (OffloadKey × BlockId) := t.keys.zip t.cpuBlocks

/-- `_is_done`, on the events that have fired. -/
def Transfer.isDone (t : Transfer) (landed : Finset Nat) : Bool :=
  match t.event with
  | none => true
  | some event => decide (event ∈ landed)

/-- The load event of a job. -/
def LoadSpec.toEvent (spec : LoadSpec) : OffloadEvent :=
  ⟨.load, spec.keys, spec.cpuBlocks, spec.gpuBlocks⟩

namespace BlockPool

/-- The blocks reachable through the hash index. -/
def cachedBlocks (pool : BlockPool) : List BlockId :=
  (List.range pool.numBlocks).filter fun b =>
    match pool.hashOf b with
    | none => false
    | some blockHash => decide (b ∈ pool.cachedBlockHashToBlock blockHash)

/-- `num_cached_blocks` -/
def numCachedBlocks (pool : BlockPool) : Nat := pool.cachedBlocks.length

/-- `set(self.pool.cached_block_hash_to_block)` -/
def cachedHashes (pool : BlockPool) : Finset BlockHash :=
  (pool.cachedBlocks.filterMap pool.hashOf).toFinset

end BlockPool

/-! ### The manager -/

/-- `CPUPrimaryTierOffloadingManager` -/
structure CPUTier where
  pool : BlockPool
  pending : List Transfer := []
  inflightStores : Finset OffloadKey := ∅
  pinnedCached : Int := 0

namespace CPUTier

/-- `__init__` -/
def create (numBlocks blockSize : Nat) : Except Raised CPUTier := do
  if numBlocks < 2 then
    throw (.valueError s!"num_blocks must be >= 2 (one is the null block), got {numBlocks}")
  let pool ← BlockPool.create numBlocks blockSize true
  return { pool }

/-- `lookup` -/
def lookup (m : CPUTier) (key : OffloadKey) : LookupResult :=
  if (m.pool.getCachedBlock key).isSome then .hit else .miss

/-- One round of the loop of `touch`. -/
def touchKey (pool : BlockPool) (key : OffloadKey) : Except Raised BlockPool :=
  match pool.getCachedBlock key with
  | none => .ok pool
  | some block =>
      if (pool.blocks block).refCnt > 0 then .ok pool
      else do
        let queue ← FreeBlockQueue.remove pool.freeBlockQueue block
        return { pool with freeBlockQueue := queue.append block }

/-- The loop of `touch`. -/
def touchKeys : List OffloadKey → BlockPool → Except Raised BlockPool
  | [], pool => .ok pool
  | key :: keys, pool => do touchKeys keys (← touchKey pool key)

/-- `touch` -/
def touch (m : CPUTier) (keys : List OffloadKey) : Except Raised CPUTier := do
  return { m with pool := ← touchKeys keys m.pool }

/-- The transfer `prepare_load` submits. -/
def loadTransfer (keys : List OffloadKey) (gpuBlocks : List Nat) (blocks : List BlockId)
    (event : Option Nat) : Transfer where
  kind := .load
  keys := keys
  cpuBlocks := blocks
  gpuBlocks := gpuBlocks
  event := event
  moves := gpuBlocks.zipWith CopyRun.mk blocks

/-- `prepare_load`. `event` is what `submit` returns, should it be called. -/
def prepareLoad (m : CPUTier) (keys : List OffloadKey) (gpuBlocks : List Nat)
    (event : Option Nat) : Except Raised (Option LoadSpec × CPUTier) :=
  if keys.length ≠ gpuBlocks.length then
    .error (.valueError "keys and gpu_blocks must describe the same blocks")
  else match keys.mapM m.pool.getCachedBlock with
    -- One gone, nothing pinned.
    | none => .ok (none, m)
    | some blocks => do
        let pool ← BlockPool.touch blocks m.pool
        return (some ⟨blocks, gpuBlocks, keys⟩,
          { m with
            pool
            pinnedCached := m.pinnedCached + blocks.length
            pending := m.pending ++ [loadTransfer keys gpuBlocks blocks event] })

/-- The entries of a `prepare_store` call that are neither resident nor in flight. -/
def fresh (m : CPUTier) (entries : List (Nat × OffloadKey)) : List (Nat × OffloadKey) :=
  entries.filter fun entry =>
    !(decide (entry.2 ∈ m.inflightStores) || (m.pool.getCachedBlock entry.2).isSome)

/-- The keys `prepare_store` reports as evicted: it compares two snapshots of the index, but only if
its count of hash-less free blocks says that some key had to go. -/
def casualties (m : CPUTier) (count : Nat) (pool : BlockPool) : Finset OffloadKey :=
  let cachedFree : Int := m.pool.numCachedBlocks - m.pinnedCached
  let hashLessFree : Int := m.pool.numFreeBlocks - cachedFree
  if (count : Int) > hashLessFree then m.pool.cachedHashes \ pool.cachedHashes else ∅

/-- The transfer `prepare_store` submits for its fresh entries. -/
def storeTransfer (fresh : List (Nat × OffloadKey)) (blocks : List BlockId) (event : Option Nat) :
    Transfer where
  kind := .store
  keys := fresh.map Prod.snd
  cpuBlocks := blocks
  gpuBlocks := fresh.map Prod.fst
  event := event
  moves := (fresh.map Prod.fst).zipWith CopyRun.mk blocks

/-- `prepare_store`. `event` is what `submit` returns, should it be called. -/
def prepareStore (m : CPUTier) (entries : List (Nat × OffloadKey)) (event : Option Nat) :
    Except Raised (StoreSpec × CPUTier) :=
  if m.fresh entries = [] then .ok ({}, m)
  else do
    let (blocks, pool) ← m.pool.getNewBlocks (m.fresh entries).length
    match blocks with
    -- Every free block is pinned by an in-flight load.
    | none => return ({}, { m with pool })
    | some blocks =>
        let transfer := storeTransfer (m.fresh entries) blocks event
        return (
          { moves := transfer.moves
            keys := transfer.keys
            evicted := m.casualties (m.fresh entries).length pool },
          { m with
            pool
            pending := m.pending ++ [transfer]
            inflightStores := m.inflightStores ∪ transfer.keys.toFinset })

/-- `_pop_pending`: the first pending transfer of this kind over these keys. -/
def popPending (m : CPUTier) (kind : TransferKind) (keys : List OffloadKey) :
    Option (Transfer × CPUTier) :=
  let wanted := fun t : Transfer => decide (t.kind = kind ∧ t.keys = keys)
  match m.pending.find? wanted with
  | none => none
  | some t => some (t, { m with pending := m.pending.eraseP wanted })

/-- `complete_load` -/
def completeLoad (m : CPUTier) (keys : List OffloadKey) : Except Raised CPUTier :=
  match m.popPending .load keys with
  | none => .ok m
  | some (t, m) => do
      let pool ← BlockPool.freeBlocks t.cpuBlocks m.pool
      return { m with pool, pinnedCached := m.pinnedCached - t.cpuBlocks.length }

/-- One round of the loop of `complete_store`. -/
def completePair (m : CPUTier) (key : OffloadKey) (cpuBlock : BlockId) : Except Raised CPUTier := do
  let pool ← m.pool.cacheFullBlocks [cpuBlock] [key]
  let pool ← BlockPool.freeBlocks [cpuBlock] pool
  return { m with pool, inflightStores := m.inflightStores.erase key }

/-- The loop of `complete_store`. -/
def completePairs : List (OffloadKey × BlockId) → CPUTier → Except Raised CPUTier
  | [], m => .ok m
  | (key, cpuBlock) :: pairs, m => do completePairs pairs (← m.completePair key cpuBlock)

/-- `complete_store` -/
def completeStore (m : CPUTier) (keys : List OffloadKey) : Except Raised CPUTier :=
  match m.popPending .store keys with
  | none => .ok m
  | some (t, m) => completePairs t.pairs m

/-- What `take_events` calls for a transfer that has landed. -/
def complete (m : CPUTier) (t : Transfer) : Except Raised CPUTier :=
  match t.kind with
  | .store => m.completeStore t.keys
  | .load => m.completeLoad t.keys

/-- The loop of `take_events` over its snapshot: the events, the transfers it keeps, the tier. -/
def drain (landed : Finset Nat) :
    List Transfer → CPUTier → Except Raised (List OffloadEvent × List Transfer × CPUTier)
  | [], m => .ok ([], [], m)
  | t :: rest, m =>
      if t.isDone landed then do
        let (events, kept, m) ← drain landed rest (← m.complete t)
        return (t.toEvent :: events, kept, m)
      else do
        let (events, kept, m) ← drain landed rest m
        return (events, t :: kept, m)

/-- `take_events` -/
def takeEvents (m : CPUTier) (landed : Finset Nat) : Except Raised (List OffloadEvent × CPUTier) := do
  let (events, kept, m) ← drain landed m.pending m
  return (events, { m with pending := kept })

end CPUTier

/-! ### What the tier is for -/

/-- The references on the pool are the (key, block) pairs being stored and being loaded. A block
being stored into carries no hash, and its key is indexed nowhere; a block being loaded from
carries its key; no two blocks carry one key. -/
structure Pinned (pool : BlockPool) (inflight : Finset OffloadKey)
    (stores loads : Multiset (OffloadKey × BlockId)) : Prop where
  holds : pool.Holds (stores.map Prod.snd + loads.map Prod.snd)
  caching : pool.enableCaching = true
  unique : ∀ {b b' key}, pool.hashOf b = some key → pool.hashOf b' = some key → b = b'
  keys_nodup : (stores.map Prod.fst).Nodup
  blocks_nodup : (stores.map Prod.snd).Nodup
  unhashed : ∀ p ∈ stores, pool.hashOf p.2 = none
  unindexed : ∀ p ∈ stores, ∀ b, pool.hashOf b ≠ some p.1
  hashed : ∀ p ∈ loads, pool.hashOf p.2 = some p.1
  inflight_iff : ∀ key, key ∈ inflight ↔ ∃ b, (key, b) ∈ stores

namespace Pinned

variable {pool : BlockPool} {inflight : Finset OffloadKey}
  {stores loads : Multiset (OffloadKey × BlockId)}

/-- A resident key is one some block carries. -/
theorem getCachedBlock_iff (h : Pinned pool inflight stores loads) {key : OffloadKey} {b : BlockId} :
    pool.getCachedBlock key = some b ↔ pool.hashOf b = some key := by
  constructor
  · intro hb
    exact (h.holds.index_iff _ _).mp (BlockPool.getCachedBlock_mem hb)
  · intro hb
    have hmem : b ∈ pool.cachedBlockHashToBlock key := (h.holds.index_iff _ _).mpr hb
    unfold BlockPool.getCachedBlock
    cases hl : pool.cachedBlockHashToBlock key with
    | nil => rw [hl] at hmem; cases hmem
    | cons b' rest =>
      have hb' : pool.hashOf b' = some key := (h.holds.index_iff _ _).mp (by simp [hl])
      rw [List.head?_cons, h.unique hb' hb]

/-- The block a store of this key writes into. -/
theorem store_block (h : Pinned pool inflight stores loads) {p p' : OffloadKey × BlockId}
    (hp : p ∈ stores) (hp' : p' ∈ stores) (hkey : p.1 = p'.1) : p = p' :=
  Multiset.inj_on_of_nodup_map h.keys_nodup p hp p' hp' hkey

/-- The key a block is being stored for. -/
theorem store_key (h : Pinned pool inflight stores loads) {p p' : OffloadKey × BlockId}
    (hp : p ∈ stores) (hp' : p' ∈ stores) (hblock : p.2 = p'.2) : p = p' :=
  Multiset.inj_on_of_nodup_map h.blocks_nodup p hp p' hp' hblock

/-- All loads of a key read one block. -/
theorem load_block (h : Pinned pool inflight stores loads) {p p' : OffloadKey × BlockId}
    (hp : p ∈ loads) (hp' : p' ∈ loads) (hkey : p.1 = p'.1) : p = p' :=
  Prod.ext hkey (h.unique (h.hashed p hp) (hkey ▸ h.hashed p' hp'))

/-- A fresh pool: nothing moves. -/
theorem create {numBlocks blockSize : Nat} (h : BlockPool.create numBlocks blockSize true = .ok pool) :
    Pinned pool ∅ 0 0 := by
  obtain ⟨hholds, hgeo, hnone⟩ := BlockPool.create_holds h
  refine ⟨by simpa using hholds, congrArg (·.2.2) hgeo, ?_, by simp, by simp, by simp, by simp,
    by simp, by simp⟩
  intro b b' key hb
  rw [hnone b] at hb
  cases hb

/-- `Pinned` reads the pool through its references, its index and its hashes. -/
theorem congr {pool' : BlockPool} (h : Pinned pool inflight stores loads)
    {loads' : Multiset (OffloadKey × BlockId)}
    (hholds : pool'.Holds (stores.map Prod.snd + loads'.map Prod.snd))
    (hgeo : pool'.geometry = pool.geometry) (hhash : ∀ b, pool'.hashOf b = pool.hashOf b)
    (hloads : ∀ p ∈ loads', pool.hashOf p.2 = some p.1) : Pinned pool' inflight stores loads' where
  holds := hholds
  caching := (congrArg (·.2.2) hgeo).trans h.caching
  unique hb hb' := h.unique ((hhash _).symm.trans hb) ((hhash _).symm.trans hb')
  keys_nodup := h.keys_nodup
  blocks_nodup := h.blocks_nodup
  unhashed p hp := (hhash _).trans (h.unhashed p hp)
  unindexed p hp b hb := h.unindexed p hp b ((hhash b).symm.trans hb)
  hashed p hp := (hhash _).trans (hloads p hp)
  inflight_iff := h.inflight_iff

/-! #### Touch -/

/-- `touch` only reorders the free queue. -/
theorem touchKey (h : Pinned pool inflight stores loads) (key : OffloadKey) :
    ∃ pool', CPUTier.touchKey pool key = .ok pool' ∧ Pinned pool' inflight stores loads ∧
      pool'.geometry = pool.geometry ∧ ∀ b, pool'.hashOf b = pool.hashOf b := by
  unfold CPUTier.touchKey
  cases hb : pool.getCachedBlock key with
  | none => exact ⟨pool, rfl, h, rfl, fun _ => rfl⟩
  | some b =>
    by_cases href : (pool.blocks b).refCnt > 0
    · exact ⟨pool, by simp only [if_pos href], h, rfl, fun _ => rfl⟩
    have hmem := BlockPool.getCachedBlock_mem hb
    have hnull := h.holds.indexed_ne_null hmem
    have hcount : (stores.map Prod.snd + loads.map Prod.snd).count b = 0 := by
      rw [← h.holds.ref b hnull]
      omega
    have hqueue : b ∈ pool.freeBlockQueue :=
      (h.holds.queue_iff b).mpr ⟨hnull, h.holds.index_bound _ b hmem, hcount⟩
    have hperm : (pool.freeBlockQueue.erase b ++ [b]).Perm pool.freeBlockQueue :=
      (List.perm_append_singleton _ _).trans (List.perm_cons_erase hqueue).symm
    refine ⟨{ pool with freeBlockQueue := pool.freeBlockQueue.erase b ++ [b] }, ?_, ?_, rfl,
      fun _ => rfl⟩
    · simp only [if_neg href, FreeBlockQueue.remove, if_pos hqueue]
      rfl
    · refine h.congr ?_ rfl (fun _ => rfl) h.hashed
      exact { h.holds with
        queue_nodup := hperm.nodup_iff.mpr h.holds.queue_nodup
        queue_iff := fun b' => hperm.mem_iff.trans (h.holds.queue_iff b') }

theorem touchKeys : ∀ (keys : List OffloadKey) {pool : BlockPool},
    Pinned pool inflight stores loads → ∃ pool', CPUTier.touchKeys keys pool = .ok pool' ∧
      Pinned pool' inflight stores loads ∧
      pool'.geometry = pool.geometry ∧ ∀ b, pool'.hashOf b = pool.hashOf b
  | [], pool, h => ⟨pool, rfl, h, rfl, fun _ => rfl⟩
  | key :: keys, pool, h => by
      obtain ⟨p₁, hp₁, h₁, hg₁, hh₁⟩ := h.touchKey key
      obtain ⟨p₂, hp₂, h₂, hg₂, hh₂⟩ := touchKeys keys h₁
      refine ⟨p₂, ?_, h₂, hg₂.trans hg₁, fun b => (hh₂ b).trans (hh₁ b)⟩
      rw [CPUTier.touchKeys, hp₁, ok_bind, hp₂]

/-! #### Loads -/

/-- Pinning the blocks of resident keys. -/
theorem pin (h : Pinned pool inflight stores loads) {pairs : List (OffloadKey × BlockId)}
    (hpairs : ∀ p ∈ pairs, pool.hashOf p.2 = some p.1) :
    ∃ pool', BlockPool.touch (pairs.map Prod.snd) pool = .ok pool' ∧
      Pinned pool' inflight stores (loads + (pairs : Multiset (OffloadKey × BlockId))) ∧
      pool'.geometry = pool.geometry ∧ ∀ b, pool'.hashOf b = pool.hashOf b := by
  have hreal : ∀ b ∈ pairs.map Prod.snd, b ≠ nullBlockId ∧ b < pool.numBlocks := by
    intro b hb
    obtain ⟨p, hp, rfl⟩ := List.mem_map.mp hb
    have hindex : p.2 ∈ pool.cachedBlockHashToBlock p.1 :=
      (h.holds.index_iff _ _).mpr (hpairs p hp)
    exact ⟨h.holds.indexed_ne_null hindex, h.holds.index_bound _ _ hindex⟩
  obtain ⟨pool', htouch, hholds, -, hgeo, -, hhash⟩ := BlockPool.touch_ok _ h.holds hreal
  refine ⟨pool', htouch, h.congr ?_ hgeo hhash ?_, hgeo, hhash⟩
  · simpa only [Multiset.map_add, Multiset.map_coe, add_assoc] using hholds
  · intro p hp
    rcases Multiset.mem_add.mp hp with hp | hp
    · exact h.hashed p hp
    · exact hpairs p (Multiset.mem_coe.mp hp)

/-- Dropping the pins of one load. -/
theorem unpin {pairs : List (OffloadKey × BlockId)}
    (h : Pinned pool inflight stores (loads + (pairs : Multiset (OffloadKey × BlockId)))) :
    ∃ pool', BlockPool.freeBlocks (pairs.map Prod.snd) pool = .ok pool' ∧
      Pinned pool' inflight stores loads ∧
      pool'.geometry = pool.geometry ∧ ∀ b, pool'.hashOf b = pool.hashOf b := by
  have hheld : pool.Holds (stores.map Prod.snd + loads.map Prod.snd +
      (pairs.map Prod.snd : List BlockId)) := by
    simpa only [Multiset.map_add, Multiset.map_coe, add_assoc] using h.holds
  obtain ⟨pool', hfree, hholds, hgeo, -, hhash⟩ := BlockPool.freeBlocks_ok _ hheld
  exact ⟨pool', hfree, h.congr hholds hgeo hhash fun p hp =>
    h.hashed p (Multiset.mem_add.mpr (.inl hp)), hgeo, hhash⟩

/-! #### Stores -/

/-- Handing out blocks for keys nobody has. -/
theorem allocate (h : Pinned pool inflight stores loads) {pool' : BlockPool}
    {pairs : List (OffloadKey × BlockId)}
    (hgrew : BlockPool.Grew pool pool' (stores.map Prod.snd + loads.map Prod.snd)
      (pairs.map Prod.snd))
    (hkeys : (pairs.map Prod.fst).Nodup)
    (hfresh : ∀ p ∈ pairs, p.1 ∉ inflight ∧ ∀ b, pool.hashOf b ≠ some p.1) :
    Pinned pool' (inflight ∪ (pairs.map Prod.fst).toFinset)
      (stores + (pairs : Multiset (OffloadKey × BlockId))) loads where
  holds := by
    have hholds := hgrew.holds
    rw [add_right_comm] at hholds
    simpa only [Multiset.map_add, Multiset.map_coe] using hholds
  caching := (congrArg (·.2.2) hgrew.geometry).trans h.caching
  unique hb hb' := h.unique (hgrew.hashOf_some hb) (hgrew.hashOf_some hb')
  keys_nodup := by
    rw [Multiset.map_add, Multiset.map_coe, Multiset.nodup_add]
    refine ⟨h.keys_nodup, hkeys, ?_⟩
    rw [Multiset.disjoint_left]
    intro key hkey hkey'
    obtain ⟨p, hp, rfl⟩ := Multiset.mem_map.mp hkey
    obtain ⟨p', hp', heq⟩ := List.mem_map.mp (Multiset.mem_coe.mp hkey')
    refine (hfresh p' hp').1 ?_
    rw [heq]
    exact (h.inflight_iff _).mpr ⟨p.2, hp⟩
  blocks_nodup := by
    rw [Multiset.map_add, Multiset.map_coe, Multiset.nodup_add]
    refine ⟨h.blocks_nodup, hgrew.nodup, ?_⟩
    rw [Multiset.disjoint_left]
    intro b hb hb'
    have hzero := hgrew.unheld b (Multiset.mem_coe.mp hb')
    rw [Multiset.count_add, Nat.add_eq_zero_iff, Multiset.count_eq_zero] at hzero
    exact hzero.1 hb
  unhashed p hp := by
    rcases Multiset.mem_add.mp hp with hp | hp
    · cases hb : pool'.hashOf p.2 with
      | none => rfl
      | some key =>
        have hold := hgrew.hashOf_some hb
        rw [h.unhashed p hp] at hold
        cases hold
    · exact hgrew.unhashed _ (List.mem_map_of_mem (Multiset.mem_coe.mp hp))
  unindexed p hp b hb := by
    have hold := hgrew.hashOf_some hb
    rcases Multiset.mem_add.mp hp with hp | hp
    · exact h.unindexed p hp b hold
    · exact (hfresh p (Multiset.mem_coe.mp hp)).2 b hold
  hashed p hp := by
    have hpin : p.2 ∉ pairs.map Prod.snd := by
      intro hmem
      have hzero := hgrew.unheld _ hmem
      rw [Multiset.count_add, Nat.add_eq_zero_iff, Multiset.count_eq_zero,
        Multiset.count_eq_zero] at hzero
      exact hzero.2 (Multiset.mem_map_of_mem _ hp)
    rw [hgrew.others _ hpin]
    exact h.hashed p hp
  inflight_iff key := by
    rw [Finset.mem_union, h.inflight_iff, List.mem_toFinset]
    constructor
    · rintro (⟨b, hb⟩ | hkey)
      · exact ⟨b, Multiset.mem_add.mpr (.inl hb)⟩
      · obtain ⟨p, hp, rfl⟩ := List.mem_map.mp hkey
        exact ⟨p.2, Multiset.mem_add.mpr (.inr hp)⟩
    · rintro ⟨b, hb⟩
      rcases Multiset.mem_add.mp hb with hb | hb
      · exact .inl ⟨b, hb⟩
      · exact .inr (List.mem_map.mpr ⟨_, Multiset.mem_coe.mp hb, rfl⟩)

end Pinned

/-! ### The operations under `Pinned` -/

namespace CPUTier

variable {m : CPUTier} {stores loads : Multiset (OffloadKey × BlockId)}

/-- The moves of a tier are these. -/
abbrev Moves (m : CPUTier) (stores loads : Multiset (OffloadKey × BlockId)) : Prop :=
  Pinned m.pool m.inflightStores stores loads

/-- One stored pair lands: its block now carries its key, and is nobody's. -/
theorem completePair_ok {key : OffloadKey} {b : BlockId} (h : m.Moves ((key, b) ::ₘ stores) loads) :
    ∃ m', m.completePair key b = .ok m' ∧ m'.Moves stores loads ∧ m'.pending = m.pending ∧
      m'.pool.geometry = m.pool.geometry ∧
      ∀ b' key', m'.pool.hashOf b' = some key' ↔
        m.pool.hashOf b' = some key' ∨ (key', b') = (key, b) := by
  have hself : (key, b) ∈ (key, b) ::ₘ stores := Multiset.mem_cons_self _ _
  have hb : b ∈ ((key, b) ::ₘ stores).map Prod.snd + loads.map Prod.snd := by simp
  have hnone : m.pool.hashOf b = none := h.unhashed _ hself
  have hnull := (h.holds.held_bound b hb).1
  have hcache := h.holds.cacheFullBlock h.caching hb key
  have hheld : (m.pool.cacheFullBlock b key).Holds
      (stores.map Prod.snd + loads.map Prod.snd + ([b] : List BlockId)) := by
    rw [Multiset.map_cons, Multiset.cons_add, ← Multiset.singleton_add, add_comm] at hcache
    exact hcache
  obtain ⟨pool', hfree, hholds, hgeo, -, hhash⟩ := BlockPool.freeBlocks_ok [b] hheld
  have hgeo' := hgeo.trans (BlockPool.cacheFullBlock_frame m.pool b key).1
  -- the one hash that changes is that of `b`, which had none
  have hhash' : ∀ b' key', pool'.hashOf b' = some key' ↔
      m.pool.hashOf b' = some key' ∨ (key', b') = (key, b) := by
    intro b' key'
    rw [hhash, BlockPool.hashOf_cacheFullBlock hnull]
    by_cases hbb : b' = b
    · rw [if_pos ⟨hbb, hnone⟩, hbb, hnone]
      simp [eq_comm]
    · rw [if_neg fun hif => hbb hif.1]
      simp [hbb]
  have hdone : pool'.hashOf b = some key := (hhash' b key).mpr (.inr rfl)
  refine ⟨{ m with pool := pool', inflightStores := m.inflightStores.erase key }, ?_, ?_, rfl,
    hgeo', hhash'⟩
  · simp only [completePair, BlockPool.cacheFullBlocks, h.caching, Bool.not_true,
      Bool.false_eq_true, if_false, List.length_singleton, ne_eq, not_true_eq_false,
      List.zip_cons_cons, List.zip_nil_right, List.foldl_cons, List.foldl_nil, ok_bind, hfree,
      pure_eq_ok]
  have hkeys := h.keys_nodup
  have hblocks := h.blocks_nodup
  rw [Multiset.map_cons, Multiset.nodup_cons] at hkeys hblocks
  refine ⟨hholds, (congrArg (·.2.2) hgeo').trans h.caching, ?_, hkeys.2, hblocks.2, ?_, ?_, ?_, ?_⟩
  · intro b₁ b₂ key' h₁ h₂
    have hunindexed := h.unindexed _ hself
    rcases (hhash' b₁ key').mp h₁ with old₁ | new₁ <;>
      rcases (hhash' b₂ key').mp h₂ with old₂ | new₂
    · exact h.unique old₁ old₂
    · exact absurd ((Prod.mk.inj new₂).1 ▸ old₁) (hunindexed b₁)
    · exact absurd ((Prod.mk.inj new₁).1 ▸ old₂) (hunindexed b₂)
    · rw [(Prod.mk.inj new₁).2, (Prod.mk.inj new₂).2]
  · intro p hp
    cases hp' : pool'.hashOf p.2 with
    | none => rfl
    | some key' =>
      rcases (hhash' _ _).mp hp' with hold | heq
      · rw [h.unhashed p (Multiset.mem_cons_of_mem hp)] at hold
        cases hold
      · exact absurd (Multiset.mem_map_of_mem Prod.snd hp) ((Prod.mk.inj heq).2 ▸ hblocks.1)
  · intro p hp b' hb'
    rcases (hhash' _ _).mp hb' with hold | heq
    · exact h.unindexed p (Multiset.mem_cons_of_mem hp) b' hold
    · exact absurd (Multiset.mem_map_of_mem Prod.fst hp) ((Prod.mk.inj heq).1 ▸ hkeys.1)
  · intro p hp
    exact (hhash' _ _).mpr (.inl (h.hashed p hp))
  · intro key'
    rw [Finset.mem_erase, h.inflight_iff]
    constructor
    · rintro ⟨hne, b', hb'⟩
      rcases Multiset.mem_cons.mp hb' with heq | hb'
      · exact absurd (Prod.mk.inj heq).1 hne
      · exact ⟨b', hb'⟩
    · rintro ⟨b', hb'⟩
      refine ⟨?_, b', Multiset.mem_cons_of_mem hb'⟩
      rintro rfl
      exact hkeys.1 (Multiset.mem_map.mpr ⟨_, hb', rfl⟩)

theorem completePairs_ok : ∀ (pairs : List (OffloadKey × BlockId)) {m : CPUTier},
    m.Moves ((pairs : Multiset (OffloadKey × BlockId)) + stores) loads →
    ∃ m', completePairs pairs m = .ok m' ∧ m'.Moves stores loads ∧ m'.pending = m.pending ∧
      m'.pool.geometry = m.pool.geometry ∧
      ∀ b key, m'.pool.hashOf b = some key ↔ m.pool.hashOf b = some key ∨ (key, b) ∈ pairs
  | [], m, h => ⟨m, rfl, by simpa using h, rfl, rfl, by simp⟩
  | (key, b) :: pairs, m, h => by
      rw [← Multiset.cons_coe, Multiset.cons_add] at h
      obtain ⟨m₁, hm₁, h₁, hp₁, hg₁, hh₁⟩ := completePair_ok h
      obtain ⟨m₂, hm₂, h₂, hp₂, hg₂, hh₂⟩ := completePairs_ok pairs h₁
      refine ⟨m₂, ?_, h₂, hp₂.trans hp₁, hg₂.trans hg₁, fun b' key' => ?_⟩
      · rw [completePairs, hm₁, ok_bind, hm₂]
      · rw [hh₂, hh₁, List.mem_cons, or_assoc]

/-! #### Draining

`complete_store` and `complete_load` are handed keys, not a transfer, and take the first pending
transfer over these keys. Two transfers of one kind over the same keys move the same blocks, so it
does not matter which one they take: `core` is what the two have in common. -/

end CPUTier

/-- What `_pop_pending` finds a transfer by, and the blocks that follow from it. -/
def Transfer.core (t : Transfer) : TransferKind × List OffloadKey × List BlockId :=
  (t.kind, t.keys, t.cpuBlocks)

/-- The pairs the transfers of a kind move. -/
def pairsOf (kind : TransferKind) (ts : List Transfer) : List (OffloadKey × BlockId) :=
  (ts.filter fun t => decide (t.kind = kind)).flatMap Transfer.pairs

/-- Each transfer names as many CPU blocks as keys. -/
def Parallel (ts : List Transfer) : Prop := ∀ t ∈ ts, t.keys.length = t.cpuBlocks.length

theorem mem_pairsOf {kind : TransferKind} {ts : List Transfer} {p : OffloadKey × BlockId} :
    p ∈ pairsOf kind ts ↔ ∃ t ∈ ts, t.kind = kind ∧ p ∈ t.pairs := by
  simp [pairsOf, List.mem_flatMap, List.mem_filter, and_assoc]

theorem pairsOf_append (kind : TransferKind) (ts ts' : List Transfer) :
    pairsOf kind (ts ++ ts') = pairsOf kind ts ++ pairsOf kind ts' := by
  simp [pairsOf]

theorem pairsOf_cons (kind : TransferKind) (t : Transfer) (ts : List Transfer) :
    pairsOf kind (t :: ts) = (if t.kind = kind then t.pairs else []) ++ pairsOf kind ts := by
  by_cases h : t.kind = kind <;> simp [pairsOf, h]

/-- Block lists paired with the same keys are equal once a key determines its block. -/
theorem blocks_eq_of_zip {S : Multiset (OffloadKey × BlockId)}
    (hfun : ∀ {p p'}, p ∈ S → p' ∈ S → p.1 = p'.1 → p = p') :
    ∀ {keys : List OffloadKey} {bs bs' : List BlockId}, keys.length = bs.length →
      keys.length = bs'.length → (∀ p ∈ keys.zip bs, p ∈ S) → (∀ p ∈ keys.zip bs', p ∈ S) → bs = bs'
  | [], [], [], _, _, _, _ => rfl
  | key :: keys, b :: bs, b' :: bs', hlen, hlen', hbs, hbs' => by
      have hhead : (key, b) = (key, b') :=
        hfun (hbs _ List.mem_cons_self) (hbs' _ List.mem_cons_self) rfl
      have htail : bs = bs' := blocks_eq_of_zip hfun (Nat.succ.inj hlen) (Nat.succ.inj hlen')
        (fun p hp => hbs p (List.mem_cons_of_mem _ hp))
        fun p hp => hbs' p (List.mem_cons_of_mem _ hp)
      rw [(Prod.mk.inj hhead).2, htail]

namespace CPUTier

variable {m : CPUTier}

/-- The moves of these transfers are the moves of the tier. -/
def Carries (m : CPUTier) (ts : List Transfer) : Prop :=
  m.Moves (pairsOf .store ts : Multiset (OffloadKey × BlockId))
    (pairsOf .load ts : Multiset (OffloadKey × BlockId))

/-- The moves as a multiset do not depend on the order of the transfers. -/
theorem pairsOf_perm {kind : TransferKind} {ts ts' : List Transfer} (h : ts.Perm ts') :
    (pairsOf kind ts : Multiset (OffloadKey × BlockId)) = pairsOf kind ts' :=
  Multiset.coe_eq_coe.mpr ((h.filter _).flatMap_right _)

theorem Carries.perm {ts ts' : List Transfer} (h : m.Carries ts) (hperm : ts.Perm ts') :
    m.Carries ts' := by
  unfold Carries at h ⊢
  rwa [← pairsOf_perm hperm, ← pairsOf_perm hperm]

/-- **Keys determine blocks.** Two of the transfers of one kind over the same keys move the same
CPU blocks. -/
theorem Carries.core_eq {ts : List Transfer} (h : m.Carries ts) (hlen : Parallel ts)
    {t t' : Transfer} (ht : t ∈ ts) (ht' : t' ∈ ts) (hkind : t.kind = t'.kind)
    (hkeys : t.keys = t'.keys) : t.core = t'.core := by
  have hmem : ∀ p ∈ t.keys.zip t.cpuBlocks, p ∈ pairsOf t.kind ts := fun p hp =>
    mem_pairsOf.mpr ⟨t, ht, rfl, hp⟩
  have hmem' : ∀ p ∈ t.keys.zip t'.cpuBlocks, p ∈ pairsOf t.kind ts := fun p hp =>
    mem_pairsOf.mpr ⟨t', ht', hkind.symm, by rwa [hkeys] at hp⟩
  have hlen' : t.keys.length = t'.cpuBlocks.length := by rw [hkeys]; exact hlen t' ht'
  have hblocks : t.cpuBlocks = t'.cpuBlocks := by
    cases hk : t.kind with
    | store =>
      rw [hk] at hmem hmem'
      exact blocks_eq_of_zip h.store_block (hlen t ht) hlen' hmem hmem'
    | load =>
      rw [hk] at hmem hmem'
      exact blocks_eq_of_zip h.load_block (hlen t ht) hlen' hmem hmem'
  simp only [Transfer.core, hkind, hkeys, hblocks]

/-- `_pop_pending` takes a transfer with the core of the one that landed, once kind and keys
determine the core. -/
theorem popPending_ok {ts : List Transfer} {t : Transfer}
    (hdetermines : ∀ t₁ ∈ t :: ts, t₁.kind = t.kind → t₁.keys = t.keys → t₁.core = t.core)
    (hcore : (m.pending.map Transfer.core).Perm ((t :: ts).map Transfer.core)) :
    ∃ t' rest, m.popPending t.kind t.keys = some (t', { m with pending := rest }) ∧
      t'.core = t.core ∧ (rest.map Transfer.core).Perm (ts.map Transfer.core) := by
  -- some pending transfer is wanted, so `find?` returns one
  have hmem : t.core ∈ m.pending.map Transfer.core :=
    hcore.mem_iff.mpr (List.mem_cons_self)
  obtain ⟨t₀, ht₀, heq₀⟩ := List.mem_map.mp hmem
  have hwanted : decide (t₀.kind = t.kind ∧ t₀.keys = t.keys) = true := by
    simp only [Transfer.core, Prod.mk.injEq] at heq₀
    simp [heq₀.1, heq₀.2.1]
  obtain ⟨t', hfind⟩ : ∃ t', m.pending.find? (fun t' => decide (t'.kind = t.kind ∧
      t'.keys = t.keys)) = some t' :=
    Option.isSome_iff_exists.mp (List.find?_isSome.mpr ⟨t₀, ht₀, hwanted⟩)
  have hfound := List.find?_some hfind
  obtain ⟨hkind, hkeys⟩ : t'.kind = t.kind ∧ t'.keys = t.keys := by simpa using hfound
  -- its core is one of those of the list, and so that of `t`
  have hmem' : t'.core ∈ (t :: ts).map Transfer.core :=
    hcore.mem_iff.mp (List.mem_map_of_mem (List.mem_of_find?_eq_some hfind))
  obtain ⟨t₁, ht₁, heq₁⟩ := List.mem_map.mp hmem'
  have hsame : t₁.core = t.core := by
    have hparts := heq₁
    simp only [Transfer.core, Prod.mk.injEq] at hparts
    exact hdetermines t₁ ht₁ (hparts.1.trans hkind) (hparts.2.1.trans hkeys)
  have hcore' : t'.core = t.core := heq₁.symm.trans hsame
  refine ⟨t', m.pending.eraseP fun t' => decide (t'.kind = t.kind ∧ t'.keys = t.keys), ?_, hcore', ?_⟩
  · simp only [popPending, hfind]
  · have hperm := List.find?_eq_some_iff_append.mp hfind
    obtain ⟨-, before, after, hsplit, hbefore⟩ := hperm
    have herase : m.pending.eraseP (fun t' => decide (t'.kind = t.kind ∧ t'.keys = t.keys)) =
        before ++ after := by
      rw [hsplit, List.eraseP_append_right _ (fun a ha => by simpa [or_iff_not_imp_left] using hbefore a ha),
        List.eraseP_cons_of_pos (by simp [hkind, hkeys])]
    rw [herase]
    have hcons : ((t' :: (before ++ after)).map Transfer.core).Perm ((t :: ts).map Transfer.core) := by
      refine List.Perm.trans (List.Perm.map _ ?_) hcore
      rw [hsplit]
      exact List.perm_middle.symm
    rw [List.map_cons, List.map_cons, hcore'] at hcons
    exact (List.perm_cons _).mp hcons

/-- **One transfer lands.** Its pairs leave the tier's moves, and those of a store are indexed. -/
theorem complete_ok {ts : List Transfer} {t : Transfer} (hlen : Parallel (t :: ts))
    (h : m.Carries (t :: ts)) (hcore : (m.pending.map Transfer.core).Perm ((t :: ts).map Transfer.core)) :
    ∃ m', m.complete t = .ok m' ∧ m'.Carries ts ∧
      (m'.pending.map Transfer.core).Perm (ts.map Transfer.core) ∧
      m'.pool.geometry = m.pool.geometry ∧
      ∀ b key, m'.pool.hashOf b = some key ↔
        m.pool.hashOf b = some key ∨ (key, b) ∈ pairsOf .store [t] := by
  obtain ⟨t', rest, hpop, hcore', hrest⟩ := popPending_ok
    (fun t₁ ht₁ => h.core_eq hlen ht₁ List.mem_cons_self) hcore
  have hblocks : t'.cpuBlocks = t.cpuBlocks := congrArg (·.2.2) hcore'
  have hkeys : t'.keys = t.keys := congrArg (·.2.1) hcore'
  have hpairs : t'.pairs = t.pairs := by rw [Transfer.pairs, Transfer.pairs, hkeys, hblocks]
  unfold Carries Moves at h
  rw [pairsOf_cons, pairsOf_cons] at h
  cases hkind : t.kind with
  | store =>
    rw [hkind] at hpop
    simp only [hkind, if_true, reduceCtorEq, if_false, List.nil_append] at h
    rw [← Multiset.coe_add, ← hpairs] at h
    obtain ⟨m', hm', hmoves, hpending, hgeo, hhash⟩ :=
      completePairs_ok t'.pairs (m := { m with pending := rest }) h
    refine ⟨m', ?_, hmoves, hpending ▸ hrest, hgeo, fun b key => (hhash b key).trans ?_⟩
    · simp only [complete, hkind, completeStore, hpop, hm']
    · rw [pairsOf_cons, if_pos hkind, hpairs]
      simp [pairsOf]
  | load =>
    rw [hkind] at hpop
    simp only [hkind, if_true, reduceCtorEq, if_false, List.nil_append] at h
    rw [← Multiset.coe_add, add_comm (t.pairs : Multiset (OffloadKey × BlockId))] at h
    obtain ⟨pool', hfree, hpinned, hgeo, hhash⟩ := h.unpin
    have hsnd : t.pairs.map Prod.snd = t'.cpuBlocks := by
      rw [hblocks, Transfer.pairs, List.map_snd_zip (hlen t List.mem_cons_self).ge]
    rw [hsnd] at hfree
    refine ⟨{ m with
        pending := rest
        pool := pool'
        pinnedCached := m.pinnedCached - t'.cpuBlocks.length }, ?_, hpinned, hrest, hgeo,
      fun b key => ?_⟩
    · simp only [complete, hkind, completeLoad, hpop, hfree, ok_bind, pure_eq_ok]
    · rw [pairsOf_cons, if_neg (by simp [hkind])]
      simp [pairsOf, hhash]

/-- The loop of `take_events`: `kept` is what it has set aside before this point. -/
theorem drain_ok (landed : Finset Nat) : ∀ (rest kept : List Transfer) {m : CPUTier},
    Parallel (kept ++ rest) → m.Carries (kept ++ rest) →
    (m.pending.map Transfer.core).Perm ((kept ++ rest).map Transfer.core) →
    ∃ m', drain landed rest m = .ok
        ((rest.filter (·.isDone landed)).map Transfer.toEvent,
          rest.filter (fun t => !t.isDone landed), m') ∧
      m'.Carries (kept ++ rest.filter fun t => !t.isDone landed) ∧
      m'.pool.geometry = m.pool.geometry ∧
      ∀ b key, m'.pool.hashOf b = some key ↔ m.pool.hashOf b = some key ∨
        (key, b) ∈ pairsOf .store (rest.filter (·.isDone landed))
  | [], kept, m, _, h, _ => ⟨m, rfl, by simpa using h, rfl, by simp [pairsOf]⟩
  | t :: rest, kept, m, hlen, h, hcore => by
      cases hdone : t.isDone landed with
      | true =>
        -- `t` is completed, wherever it stands in the list
        have hmid : (kept ++ t :: rest).Perm (t :: (kept ++ rest)) := List.perm_middle
        have hlen' : Parallel (t :: (kept ++ rest)) := fun t' ht' =>
          hlen t' (hmid.mem_iff.mpr ht')
        obtain ⟨m₁, hm₁, h₁, hc₁, hg₁, hh₁⟩ :=
          complete_ok hlen' (h.perm hmid) (hcore.trans (hmid.map _))
        obtain ⟨m₂, hm₂, h₂, hg₂, hh₂⟩ := drain_ok landed rest kept
          (fun t' ht' => hlen' t' (List.mem_cons_of_mem _ ht')) h₁ hc₁
        refine ⟨m₂, ?_, ?_, hg₂.trans hg₁, fun b key => ?_⟩
        · simp only [drain, hdone, if_true, hm₁, ok_bind, hm₂, pure_eq_ok,
            List.filter_cons_of_pos, List.map_cons, Bool.not_true, Bool.false_eq_true,
            not_false_eq_true, List.filter_cons_of_neg]
        · simpa only [List.filter_cons, hdone, Bool.not_true, Bool.false_eq_true, if_false]
            using h₂
        · have hcons : pairsOf .store ((t :: rest).filter (·.isDone landed)) =
              pairsOf .store [t] ++ pairsOf .store (rest.filter (·.isDone landed)) := by
            simp only [List.filter_cons, hdone, if_true]
            exact pairsOf_append _ [t] _
          rw [hh₂, hh₁, hcons, or_assoc, List.mem_append]
      | false =>
        -- `t` is kept
        have hsplit : kept ++ t :: rest = (kept ++ [t]) ++ rest := by simp
        rw [hsplit] at hlen h hcore
        obtain ⟨m₂, hm₂, h₂, hg₂, hh₂⟩ := drain_ok landed rest (kept ++ [t]) hlen h hcore
        refine ⟨m₂, ?_, ?_, hg₂, fun b key => ?_⟩
        · simp only [drain, hdone, Bool.false_eq_true, if_false, hm₂, ok_bind, pure_eq_ok,
            not_false_eq_true, List.filter_cons_of_neg, Bool.not_false, List.filter_cons_of_pos]
        · simpa only [List.filter_cons, hdone, Bool.not_false, if_true, List.append_assoc,
            List.singleton_append] using h₂
        · simp only [hh₂, List.filter_cons, hdone, Bool.false_eq_true, if_false]

/-- `take_events` hands back the transfers that have landed and keeps the others. -/
theorem takeEvents_ok (landed : Finset Nat) (hlen : Parallel m.pending) (h : m.Carries m.pending) :
    ∃ m', m.takeEvents landed = .ok
        ((m.pending.filter (·.isDone landed)).map Transfer.toEvent, m') ∧
      m'.pending = m.pending.filter (fun t => !t.isDone landed) ∧ m'.Carries m'.pending ∧
      m'.pool.geometry = m.pool.geometry ∧
      ∀ b key, m'.pool.hashOf b = some key ↔ m.pool.hashOf b = some key ∨
        (key, b) ∈ pairsOf .store (m.pending.filter (·.isDone landed)) := by
  obtain ⟨m', hm', h', hgeo, hhash⟩ :=
    drain_ok landed m.pending [] hlen h (List.Perm.refl _)
  refine ⟨{ m' with pending := m.pending.filter fun t => !t.isDone landed }, ?_, rfl, h', hgeo,
    hhash⟩
  simp only [takeEvents, hm', ok_bind, pure_eq_ok]

/-! #### Submitting -/

/-- A hit on every key pairs each with the block it hit. -/
theorem mapM_zip {f : OffloadKey → Option BlockId} : ∀ {keys : List OffloadKey} {blocks : List BlockId},
    keys.mapM f = some blocks →
    keys.length = blocks.length ∧ ∀ p ∈ keys.zip blocks, f p.1 = some p.2
  | [], blocks, h => by
      simp only [List.mapM_nil, Option.pure_def, Option.some.injEq] at h
      subst h
      exact ⟨rfl, by simp⟩
  | key :: keys, blocks, h => by
      simp only [List.mapM_cons, Option.bind_eq_bind, Option.bind_eq_some_iff, Option.pure_def,
        Option.some.injEq] at h
      obtain ⟨b, hb, rest, hrest, rfl⟩ := h
      obtain ⟨hlen, hzip⟩ := mapM_zip hrest
      refine ⟨by simp [hlen], fun p hp => ?_⟩
      rcases List.mem_cons.mp hp with rfl | hp
      · exact hb
      · exact hzip p hp

/-- `prepare_load` pins nothing, or pins the block of every key and submits them all. -/
theorem prepareLoad_ok (h : m.Carries m.pending) {keys : List OffloadKey} {gpuBlocks : List Nat}
    (hlen : keys.length = gpuBlocks.length) (event : Option Nat) :
    m.prepareLoad keys gpuBlocks event = .ok (none, m) ∨
      ∃ blocks m', m.prepareLoad keys gpuBlocks event = .ok (some ⟨blocks, gpuBlocks, keys⟩, m') ∧
        m'.pending = m.pending ++ [loadTransfer keys gpuBlocks blocks event] ∧
        keys.length = blocks.length ∧ m'.Carries m'.pending ∧
        m'.pool.geometry = m.pool.geometry ∧ ∀ b, m'.pool.hashOf b = m.pool.hashOf b := by
  cases hblocks : keys.mapM m.pool.getCachedBlock with
  | none => exact .inl (by simp only [prepareLoad, hlen, ne_eq, not_true_eq_false, if_false, hblocks])
  | some blocks =>
    obtain ⟨hcount, hzip⟩ := mapM_zip hblocks
    have hhashed : ∀ p ∈ keys.zip blocks, m.pool.hashOf p.2 = some p.1 := fun p hp =>
      h.getCachedBlock_iff.mp (hzip p hp)
    obtain ⟨pool', htouch, hpinned, hgeo, hhash⟩ := h.pin hhashed
    rw [List.map_snd_zip hcount.ge] at htouch
    refine .inr ⟨blocks, { m with
        pool := pool'
        pinnedCached := m.pinnedCached + blocks.length
        pending := m.pending ++ [loadTransfer keys gpuBlocks blocks event] },
      ?_, rfl, hcount, ?_, hgeo, hhash⟩
    · simp only [prepareLoad, hlen, ne_eq, not_true_eq_false, if_false, hblocks, htouch, ok_bind,
        pure_eq_ok]
    · unfold Carries Moves
      rw [pairsOf_append, pairsOf_append]
      simpa [pairsOf, Transfer.pairs, loadTransfer] using hpinned

theorem fresh_sublist (m : CPUTier) (entries : List (Nat × OffloadKey)) :
    (m.fresh entries).Sublist entries := List.filter_sublist

/-- `prepare_store` submits nothing, or allocates a block for every fresh key. -/
theorem prepareStore_ok (h : m.Carries m.pending) {entries : List (Nat × OffloadKey)}
    (hdistinct : (entries.map Prod.snd).Nodup) (event : Option Nat) :
    m.prepareStore entries event = .ok ({}, m) ∨
      ∃ blocks m', m.prepareStore entries event = .ok (
          ⟨(storeTransfer (m.fresh entries) blocks event).moves, (m.fresh entries).map Prod.snd,
            m.casualties (m.fresh entries).length m'.pool⟩, m') ∧
        m'.pending = m.pending ++ [storeTransfer (m.fresh entries) blocks event] ∧
        ((m.fresh entries).map Prod.snd).length = blocks.length ∧ m'.Carries m'.pending ∧
        BlockPool.Grew m.pool m'.pool
          ((pairsOf .store m.pending : Multiset (OffloadKey × BlockId)).map Prod.snd +
            (pairsOf .load m.pending : Multiset (OffloadKey × BlockId)).map Prod.snd) blocks := by
  by_cases hfresh : m.fresh entries = []
  · exact .inl (by simp only [prepareStore, if_pos hfresh])
  by_cases hshort : m.pool.numFreeBlocks < (m.fresh entries).length
  · refine .inl ?_
    simp only [prepareStore, if_neg hfresh, BlockPool.getNewBlocks_short hshort, ok_bind,
      pure_eq_ok]
  have hroom : (m.fresh entries).length ≤ m.pool.freeBlockQueue.length := Nat.not_lt.mp hshort
  obtain ⟨pool', hnew, hgrew⟩ := BlockPool.getNewBlocks_ok h.holds hroom
  generalize hblocks : m.pool.freeBlockQueue.take (m.fresh entries).length = blocks at hnew hgrew
  have hlen : ((m.fresh entries).map Prod.snd).length = blocks.length := by
    rw [List.length_map, ← hblocks, List.length_take, Nat.min_eq_left hroom]
  -- the keys of the entries that passed the filter are distinct, idle and not resident
  have hkeys : ((m.fresh entries).map Prod.snd).Nodup :=
    ((m.fresh_sublist entries).map Prod.snd).nodup hdistinct
  have hidle : ∀ key ∈ (m.fresh entries).map Prod.snd,
      key ∉ m.inflightStores ∧ ∀ b, m.pool.hashOf b ≠ some key := by
    intro key hkey
    obtain ⟨entry, hentry, rfl⟩ := List.mem_map.mp hkey
    have hpass := (List.mem_filter.mp hentry).2
    simp only [Bool.not_eq_true', Bool.or_eq_false_iff, decide_eq_false_iff_not,
      Option.isSome_eq_false_iff, Option.isNone_iff_eq_none] at hpass
    refine ⟨hpass.1, fun b hb => ?_⟩
    rw [h.getCachedBlock_iff.mpr hb] at hpass
    cases hpass.2
  have hpinned : Pinned pool'
      (m.inflightStores ∪ ((((m.fresh entries).map Prod.snd).zip blocks).map Prod.fst).toFinset)
      ((pairsOf .store m.pending : Multiset (OffloadKey × BlockId)) +
        (((m.fresh entries).map Prod.snd).zip blocks : List (OffloadKey × BlockId)))
      (pairsOf .load m.pending : Multiset (OffloadKey × BlockId)) :=
    h.allocate (by rwa [List.map_snd_zip hlen.ge]) (by rwa [List.map_fst_zip hlen.le])
      fun p hp => hidle p.1 (List.of_mem_zip hp).1
  rw [List.map_fst_zip hlen.le] at hpinned
  refine .inr ⟨blocks, { m with
      pool := pool'
      pending := m.pending ++ [storeTransfer (m.fresh entries) blocks event]
      inflightStores := m.inflightStores ∪ ((m.fresh entries).map Prod.snd).toFinset },
    ?_, rfl, hlen, ?_, hgrew⟩
  · simp only [prepareStore, if_neg hfresh, hnew, ok_bind, pure_eq_ok]
    rfl
  · unfold Carries Moves
    rw [pairsOf_append, pairsOf_append]
    simpa [pairsOf, Transfer.pairs, storeTransfer] using hpinned

end CPUTier

end RapidLlm
