import RapidLlm.Engine.KVCacheGroups

/-!
# RapidLlm.Engine.GroupCoordinator

The coordinator over any number of groups: `allocate`, `cache_blocks`, `free` and
`remove_skipped_blocks` of `KVCacheCoordinator` in `engine/kv_cache_spec.py`. `KVCacheSpec` has the
one group the planner runs with, `KVCacheGroups` the cache hits of several.

* A request holds one list of blocks a group, with the null block where a windowed group has given
  a block back or never had one. `references` are the real entries of all its lists.
* `Sound` says that the pool's references are those of the requests, and that a request has blocks
  in all its lists or in none. `Sound.split` is the frame rule: one request against the rest.
* `allocate_granted` and `allocate_refused` compute `allocate` when the pool has the blocks and when
  it is short. Indexing and the windows are in `GroupIndexing`, runs in `GroupAllocation`.
-/

namespace RapidLlm

/-- Blocks needed to hold `numTokens` tokens of one sequence. -/
def GroupSpec.numBlocksFor (spec : GroupSpec) (numTokens : Nat) : Nat := cdiv numTokens spec.blockSize

/-- `window`: positions a query can reach back, `0` for all. -/
def GroupSpec.window (spec : GroupSpec) : Nat :=
  match spec.kind with
  | .full | .mla => 0
  | .slidingWindow window => window

/-- `_RequestBlocks`: the blocks of a request, per group, and how many of them are indexed. -/
structure GroupBlocks where
  perGroup : List (List BlockId)
  numCached : List Nat
  deriving DecidableEq, Repr

/-- `KVCacheCoordinator` -/
structure GroupCoordinator where
  config : KVCacheConfig
  pool : BlockPool
  requests : RequestId → Option GroupBlocks

/-! ### The coordinator -/

/-- Drop one reference per block of every list, tail blocks first. -/
def freeGroups : List (List BlockId) → BlockPool → Except Raised BlockPool
  | [], pool => .ok pool
  | blocks :: perGroup, pool => do
    freeGroups perGroup (← BlockPool.freeBlocks blocks.reverse pool)

/-- The loop of `allocate` over the adopted blocks. -/
def adoptGroups (requestId : RequestId) :
    Nat → List (List BlockId) → List (List BlockId) → BlockPool → Except Raised BlockPool
  | groupId, blocks :: adopted, own :: perGroup, pool =>
    if own ≠ [] then
      .error (.valueError s!"request {requestId} already holds blocks in group {groupId}")
    else do adoptGroups requestId (groupId + 1) adopted perGroup (← BlockPool.touch blocks pool)
  | _, _, _, pool => .ok pool

/-- Blocks every group still lacks. -/
def blocksNeeded (numTokens : Nat) : List GroupSpec → List (List BlockId) → List Nat
  | group :: groups, blocks :: perGroup =>
    (group.numBlocksFor numTokens - blocks.length) :: blocksNeeded numTokens groups perGroup
  | _, _ => []

/-- `sum(needed)` -/
def totalNeeded : List Nat → Nat
  | [] => 0
  | count :: needed => count + totalNeeded needed

/-- Hand every group its share of one draw. -/
def dealBlocks : List (List BlockId) → List Nat → List BlockId → List (List BlockId)
  | blocks :: perGroup, count :: needed, fresh =>
    (blocks ++ fresh.take count) :: dealBlocks perGroup needed (fresh.drop count)
  | perGroup, _, _ => perGroup

/-- One round of the loop of `cache_blocks`. -/
def cacheGroup (index : Nat) (spec : GroupSpec) (hashes : List BlockHash) (numComputedTokens : Nat)
    (blocks : List BlockId) (start : Nat) (pool : BlockPool) :
    Except Raised (List (Nat × BlockId × BlockHash) × BlockPool × Nat) :=
  let full := min (numComputedTokens / spec.blockSize) hashes.length
  let slice := (blocks.take full).drop start
  if full ≤ start then .ok ([], pool, start)
  -- blocks not allocated yet; a later step will index them
  else if slice.length < full - start then .ok ([], pool, start)
  else do
    let gained := (slice.zip ((hashes.take full).drop start)).filter fun entry =>
      (pool.blocks entry.1).blockHash.isNone
    let pool ← pool.cacheFullBlocks slice ((hashes.take full).drop start)
    return (gained.map fun entry => (index, entry.1, entry.2), pool, full)

/-- The loop of `cache_blocks`. -/
def cacheGroups (blockHashes : List BlockHash) (hashBlockSize numComputedTokens : Nat) :
    Nat → List GroupSpec → List (List BlockId) → List Nat → BlockPool →
      Except Raised (List (Nat × BlockId × BlockHash) × BlockPool × List Nat)
  | index, spec :: groups, blocks :: perGroup, start :: numCached, pool => do
    let hashes ← spec.groupBlockHashes blockHashes hashBlockSize
    let (gained, pool, full) ← cacheGroup index spec hashes numComputedTokens blocks start pool
    let (fresh, pool, numCached) ←
      cacheGroups blockHashes hashBlockSize numComputedTokens (index + 1) groups perGroup numCached pool
    return (gained ++ fresh, pool, full :: numCached)
  | _, _, _, numCached, pool => .ok ([], pool, numCached)

/-- One round of the loop of `remove_skipped_blocks`: the list with its dead blocks nulled. -/
def skipGroup (spec : GroupSpec) (numComputedTokens : Nat) (blocks : List BlockId) (pool : BlockPool) :
    Except Raised (List BlockId × BlockPool) :=
  if spec.window = 0 then .ok (blocks, pool)
  else
    -- the block of the oldest position still readable is live, those before it are not
    let keepFrom := min ((numComputedTokens - spec.window) / spec.blockSize) blocks.length
    let dead := (blocks.take keepFrom).filter fun b => decide (b ≠ nullBlockId)
    if dead = [] then .ok (blocks, pool)
    else do
      let pool ← BlockPool.freeBlocks dead.reverse pool
      return (List.replicate keepFrom nullBlockId ++ blocks.drop keepFrom, pool)

/-- The loop of `remove_skipped_blocks`. -/
def skipGroups (numComputedTokens : Nat) : List GroupSpec → List (List BlockId) → BlockPool →
    Except Raised (List (List BlockId) × BlockPool)
  | spec :: groups, blocks :: perGroup, pool => do
    let (blocks, pool) ← skipGroup spec numComputedTokens blocks pool
    let (perGroup, pool) ← skipGroups numComputedTokens groups perGroup pool
    return (blocks :: perGroup, pool)
  | _, perGroup, pool => .ok (perGroup, pool)

namespace GroupCoordinator

/-- `__init__` -/
def create (config : KVCacheConfig) (pool : BlockPool) : GroupCoordinator :=
  { config, pool, requests := fun _ => none }

/-- A request's blocks as `allocate` starts from them. -/
def stateOf (coord : GroupCoordinator) (requestId : RequestId) : GroupBlocks :=
  (coord.requests requestId).getD
    { perGroup := coord.config.groups.map fun _ => [], numCached := coord.config.groups.map fun _ => 0 }

/-- `block_ids` -/
def blockIds (coord : GroupCoordinator) (requestId : RequestId) : List (List BlockId) :=
  (coord.stateOf requestId).perGroup

/-- `free` -/
def free (coord : GroupCoordinator) (requestId : RequestId) : Except Raised GroupCoordinator :=
  match coord.requests requestId with
  | none => .ok coord
  | some state => do
    let pool ← freeGroups state.perGroup coord.pool
    return { coord with
      pool
      requests := Function.update coord.requests requestId none }

/-- The start of `allocate`: the adopted blocks are referenced before any fresh block is drawn. -/
def adopt (coord : GroupCoordinator) (requestId : RequestId) (adopted : List (List BlockId)) :
    Except Raised (BlockPool × GroupBlocks) :=
  if adopted = [] then .ok (coord.pool, coord.stateOf requestId)
  else if adopted.length ≠ coord.config.groups.length then
    .error (.valueError "new_computed_blocks must have one entry per group")
  else do
    let pool ← adoptGroups requestId 0 adopted (coord.blockIds requestId) coord.pool
    return (pool, { perGroup := adopted, numCached := adopted.map List.length })

/-- `allocate` -/
def allocate (coord : GroupCoordinator) (requestId : RequestId) (numTokens : Nat)
    (newComputedBlocks : Option (List (List BlockId))) : Except Raised (Bool × GroupCoordinator) := do
  let adopted := newComputedBlocks.getD []
  let (pool, state) ← coord.adopt requestId adopted
  let coord := { coord with
    pool
    requests := Function.update coord.requests requestId (some state) }
  -- a group that cannot be served must not leave the others half-extended
  let needed := blocksNeeded numTokens coord.config.groups state.perGroup
  if totalNeeded needed = 0 then return (true, coord)
  match ← pool.getNewBlocks (totalNeeded needed) with
  | (none, _) =>
    if adopted ≠ [] then return (false, ← coord.free requestId)
    else return (false, coord)
  | (some fresh, pool) =>
    let state := { state with perGroup := dealBlocks state.perGroup needed fresh }
    return (true, { coord with
      pool
      requests := Function.update coord.requests requestId (some state) })

/-- `cache_blocks` -/
def cacheBlocks (coord : GroupCoordinator) (requestId : RequestId) (blockHashes : List BlockHash)
    (numComputedTokens : Nat) : Except Raised (List (Nat × BlockId × BlockHash) × GroupCoordinator) :=
  match coord.requests requestId with
  | none => .ok ([], coord)
  | some state => do
    let (fresh, pool, numCached) ← cacheGroups blockHashes coord.config.hashBlockSize
      numComputedTokens 0 coord.config.groups state.perGroup state.numCached coord.pool
    return (fresh, { coord with
      pool
      requests := Function.update coord.requests requestId (some { state with numCached }) })

/-- `remove_skipped_blocks` -/
def removeSkippedBlocks (coord : GroupCoordinator) (requestId : RequestId) (numComputedTokens : Nat) :
    Except Raised GroupCoordinator :=
  match coord.requests requestId with
  | none => .ok coord
  | some state => do
    let (perGroup, pool) ←
      skipGroups numComputedTokens coord.config.groups state.perGroup coord.pool
    return { coord with
      pool
      requests := Function.update coord.requests requestId (some { state with perGroup }) }

/-- `find_longest_cache_hit`, its blocks as `allocate` is given them. -/
def hit (coord : GroupCoordinator) (blockHashes : List BlockHash) (maxLength : Nat) :
    List (List BlockId) :=
  (coord.config.findLongestCacheHit coord.pool blockHashes maxLength).1

/-- What the callers do: `matched` are the hashes and the ceiling of the lookup whose hit a request
is admitted with. -/
inductive Call
  | allocate (requestId : RequestId) (numTokens : Nat) (matched : Option (List BlockHash × Nat))
  | cacheBlocks (requestId : RequestId) (blockHashes : List BlockHash) (numComputedTokens : Nat)
  | removeSkippedBlocks (requestId : RequestId) (numComputedTokens : Nat)
  | free (requestId : RequestId)
  | resetPrefixCache

/-- The hit a lookup made now would hand to `allocate`. -/
def matchNow (coord : GroupCoordinator) (matched : Option (List BlockHash × Nat)) :
    Option (List (List BlockId)) := matched.map fun lookup => coord.hit lookup.1 lookup.2

def step (coord : GroupCoordinator) : Call → Except Raised GroupCoordinator
  | .allocate requestId numTokens matched => do
    return (← coord.allocate requestId numTokens (coord.matchNow matched)).2
  | .cacheBlocks requestId blockHashes numComputedTokens => do
    return (← coord.cacheBlocks requestId blockHashes numComputedTokens).2
  | .removeSkippedBlocks requestId numComputedTokens =>
    coord.removeSkippedBlocks requestId numComputedTokens
  | .free requestId => coord.free requestId
  | .resetPrefixCache => .ok { coord with pool := coord.pool.resetPrefixCache.2 }

end GroupCoordinator

/-! ### Real blocks

The null block takes no reference, so touching and freeing read the other entries only. -/

/-- The entries of a list that are blocks. -/
def realBlocks (blocks : List BlockId) : List BlockId :=
  blocks.filter fun b => decide (b ≠ nullBlockId)

@[simp] theorem realBlocks_nil : realBlocks [] = [] := rfl

theorem realBlocks_append (xs ys : List BlockId) :
    realBlocks (xs ++ ys) = realBlocks xs ++ realBlocks ys := List.filter_append ..

theorem mem_realBlocks {b : BlockId} {blocks : List BlockId} :
    b ∈ realBlocks blocks ↔ b ∈ blocks ∧ b ≠ nullBlockId := by
  simp [realBlocks]

/-- Blocks of which none is null are all real. -/
theorem realBlocks_eq_self {blocks : List BlockId} (h : ∀ b ∈ blocks, b ≠ nullBlockId) :
    realBlocks blocks = blocks := List.filter_eq_self.mpr fun b hb => by simpa using h b hb

namespace BlockPool

theorem touch_append (xs ys : List BlockId) (pool : BlockPool) :
    touch (xs ++ ys) pool = (touch xs pool >>= fun pool => touch ys pool) := by
  induction xs generalizing pool with
  | nil => rfl
  | cons b xs ih => simp only [List.cons_append, touch, bind_assoc, ih]

theorem touch_realBlocks (blocks : List BlockId) (pool : BlockPool) :
    touch blocks pool = touch (realBlocks blocks) pool := by
  induction blocks generalizing pool with
  | nil => rfl
  | cons b blocks ih =>
    by_cases hb : b = nullBlockId
    · have hskip : pool.touchBlock b = .ok pool := by simp [touchBlock, hb]
      rw [touch, hskip, ok_bind, ih, realBlocks, realBlocks, List.filter_cons_of_neg (by simp [hb])]
    · rw [realBlocks, List.filter_cons_of_pos (by simp [hb]), touch, touch]
      exact congrArg _ (funext fun pool => ih pool)

theorem freeBlocks_realBlocks (blocks : List BlockId) (pool : BlockPool) :
    freeBlocks blocks pool = freeBlocks (realBlocks blocks) pool := by
  induction blocks generalizing pool with
  | nil => rfl
  | cons b blocks ih =>
    by_cases hb : b = nullBlockId
    · have hskip : pool.freeBlock b = .ok pool := by simp [freeBlock, hb]
      rw [freeBlocks, hskip, ok_bind, ih, realBlocks, realBlocks,
        List.filter_cons_of_neg (by simp [hb])]
    · rw [realBlocks, List.filter_cons_of_pos (by simp [hb]), freeBlocks, freeBlocks]
      exact congrArg _ (funext fun pool => ih pool)

end BlockPool

theorem freeGroups_eq (perGroup : List (List BlockId)) (pool : BlockPool) :
    freeGroups perGroup pool = BlockPool.freeBlocks (perGroup.flatMap List.reverse) pool := by
  induction perGroup generalizing pool with
  | nil => rfl
  | cons blocks perGroup ih =>
    rw [freeGroups, List.flatMap_cons, BlockPool.freeBlocks_append]
    exact congrArg _ (funext fun pool => ih pool)

/-- The references of a request: the real entries of all its lists. -/
def GroupBlocks.references (state : GroupBlocks) : List BlockId := realBlocks state.perGroup.flatten

/-- All lists are empty, or none is. -/
def AllOrNone (perGroup : List (List BlockId)) : Prop :=
  (∀ blocks ∈ perGroup, blocks = []) ∨ ∀ blocks ∈ perGroup, blocks ≠ []

/-- Freeing what a request holds. -/
theorem freeGroups_ok {pool : BlockPool} {others : Multiset BlockId} {state : GroupBlocks}
    (h : pool.Holds ((state.references : Multiset BlockId) + others)) :
    ∃ pool', freeGroups state.perGroup pool = .ok pool' ∧ pool'.Holds others ∧
      pool'.geometry = pool.geometry ∧
      pool'.cachedBlockHashToBlock = pool.cachedBlockHashToBlock ∧
      ∀ b, pool'.hashOf b = pool.hashOf b := by
  have hperm : (realBlocks (state.perGroup.flatMap List.reverse)).Perm state.references := by
    refine List.Perm.filter _ ?_
    rw [List.flatten_eq_flatMap]
    exact List.Perm.flatMap_left _ fun blocks _ => List.reverse_perm blocks
  rw [freeGroups_eq, BlockPool.freeBlocks_realBlocks]
  rw [add_comm, ← Multiset.coe_eq_coe.mpr hperm] at h
  exact BlockPool.freeBlocks_ok _ h

/-! ### Dealing out a draw -/

/-- One draw cut into the groups' shares. -/
def shares : List Nat → List BlockId → List (List BlockId)
  | [], _ => []
  | count :: needed, fresh => fresh.take count :: shares needed (fresh.drop count)

theorem shares_length : ∀ (needed : List Nat) (fresh : List BlockId),
    (shares needed fresh).length = needed.length
  | [], _ => rfl
  | _ :: needed, _ => congrArg Nat.succ (shares_length needed _)

theorem shares_flatten : ∀ {needed : List Nat} {fresh : List BlockId},
    fresh.length = totalNeeded needed → (shares needed fresh).flatten = fresh
  | [], _, h => by
      rw [totalNeeded, List.length_eq_zero_iff] at h
      rw [h]
      rfl
  | count :: needed, fresh, h => by
      have hrest : (fresh.drop count).length = totalNeeded needed := by
        rw [totalNeeded] at h
        rw [List.length_drop]
        omega
      rw [shares, List.flatten_cons, shares_flatten hrest, List.take_append_drop]

theorem shares_getElem? : ∀ {needed : List Nat} {fresh : List BlockId} {i count : Nat},
    fresh.length = totalNeeded needed → needed[i]? = some count →
    ∃ share, (shares needed fresh)[i]? = some share ∧ share.length = count
  | count :: needed, fresh, 0, _, h, hi => by
      cases hi
      rw [totalNeeded] at h
      refine ⟨fresh.take count, rfl, ?_⟩
      rw [List.length_take]
      omega
  | count :: needed, fresh, i + 1, _, h, hi => by
      have hrest : (fresh.drop count).length = totalNeeded needed := by
        rw [totalNeeded] at h
        rw [List.length_drop]
        omega
      simpa [shares] using shares_getElem? hrest hi

theorem dealBlocks_eq : ∀ {perGroup : List (List BlockId)} {needed : List Nat} (fresh : List BlockId),
    needed.length = perGroup.length →
    dealBlocks perGroup needed fresh = perGroup.zipWith (fun own share => own ++ share) (shares needed fresh)
  | [], [], _, _ => rfl
  | _ :: _, _ :: _, _, h => by
      rw [dealBlocks, dealBlocks_eq _ (Nat.succ.inj h), shares, List.zipWith_cons_cons]

/-- Nothing drawn is nothing dealt. -/
theorem dealBlocks_nil : ∀ {perGroup : List (List BlockId)} {needed : List Nat},
    needed.length = perGroup.length → dealBlocks perGroup needed [] = perGroup
  | [], [], _ => rfl
  | _ :: _, _ :: _, h => by
      rw [dealBlocks, List.drop_nil, dealBlocks_nil (Nat.succ.inj h), List.take_nil, List.append_nil]

theorem dealBlocks_flatten : ∀ {perGroup : List (List BlockId)} {needed : List Nat}
    {fresh : List BlockId}, needed.length = perGroup.length → fresh.length = totalNeeded needed →
    (dealBlocks perGroup needed fresh).flatten.Perm (perGroup.flatten ++ fresh)
  | [], [], _, _, h => by
      rw [totalNeeded, List.length_eq_zero_iff] at h
      rw [h]
      exact List.Perm.refl _
  | blocks :: perGroup, count :: needed, fresh, hlen, h => by
      have hrest : (fresh.drop count).length = totalNeeded needed := by
        rw [totalNeeded] at h
        rw [List.length_drop]
        omega
      have hperm := dealBlocks_flatten (Nat.succ.inj hlen) hrest
      rw [dealBlocks, List.flatten_cons, List.flatten_cons, List.append_assoc, List.append_assoc]
      refine List.Perm.append_left _ ?_
      have hswap : (fresh.take count ++ (perGroup.flatten ++ fresh.drop count)).Perm
          (perGroup.flatten ++ (fresh.take count ++ fresh.drop count)) := by
        rw [← List.append_assoc, ← List.append_assoc]
        exact List.perm_append_comm.append_right _
      rw [List.take_append_drop] at hswap
      exact (hperm.append_left _).trans hswap

theorem blocksNeeded_length : ∀ {numTokens : Nat} {groups : List GroupSpec}
    {perGroup : List (List BlockId)}, perGroup.length = groups.length →
    (blocksNeeded numTokens groups perGroup).length = perGroup.length
  | _, [], [], _ => rfl
  | _, _ :: _, _ :: _, h => congrArg Nat.succ (blocksNeeded_length (Nat.succ.inj h))

theorem blocksNeeded_getElem? : ∀ {numTokens : Nat} {groups : List GroupSpec}
    {perGroup : List (List BlockId)} {i : Nat} {group : GroupSpec} {blocks : List BlockId},
    groups[i]? = some group → perGroup[i]? = some blocks →
    (blocksNeeded numTokens groups perGroup)[i]? = some (group.numBlocksFor numTokens - blocks.length)
  | _, _ :: _, _ :: _, 0, _, _, hg, hb => by
      cases hg
      cases hb
      rfl
  | _, _ :: _, _ :: _, i + 1, _, _, hg, hb => by
      rw [List.getElem?_cons_succ] at hg hb
      rw [blocksNeeded, List.getElem?_cons_succ]
      exact blocksNeeded_getElem? hg hb

/-! ### The accounts -/

namespace GroupCoordinator

variable {coord coord' : GroupCoordinator} {rid : RequestId} {others : Multiset BlockId}

/-- The references of a request. -/
def references (coord : GroupCoordinator) (rid : RequestId) : List BlockId :=
  (coord.stateOf rid).references

/-- A request has one list and one cursor per group, and blocks in all of them or in none. -/
structure Shaped (config : KVCacheConfig) (state : GroupBlocks) : Prop where
  perGroup : state.perGroup.length = config.groups.length
  numCached : state.numCached.length = config.groups.length
  even : AllOrNone state.perGroup

/-- The pool's references are those of the requests, and every request has its lists. -/
structure Sound (coord : GroupCoordinator) : Prop where
  holds : ∃ ids : List RequestId, ids.Nodup ∧ (∀ rid ∉ ids, coord.requests rid = none) ∧
    coord.pool.Holds (ids.flatMap coord.references : List BlockId)
  shaped : ∀ rid, Shaped coord.config (coord.stateOf rid)

theorem references_congr (h : coord'.blockIds rid = coord.blockIds rid) :
    coord'.references rid = coord.references rid := by
  unfold blockIds at h
  rw [references, references, GroupBlocks.references, GroupBlocks.references, h]

/-- A request the coordinator does not know holds nothing. -/
theorem references_none (h : coord.requests rid = none) : coord.references rid = [] := by
  have hflat : (coord.config.groups.map fun _ => ([] : List BlockId)).flatten = [] := by
    rw [List.flatten_eq_nil_iff]
    intro blocks hblocks
    obtain ⟨_, -, rfl⟩ := List.mem_map.mp hblocks
    rfl
  simp only [references, stateOf, h, Option.getD_none, GroupBlocks.references, hflat, realBlocks_nil]

/-- What a request holds as `references` lists it. -/
theorem mem_references {b : BlockId} :
    b ∈ coord.references rid ↔ b ≠ nullBlockId ∧ ∃ blocks ∈ coord.blockIds rid, b ∈ blocks := by
  rw [references, GroupBlocks.references, mem_realBlocks, List.mem_flatten, and_comm]
  rfl

/-- The other requests do not notice what one of them does. -/
structure Frame (coord coord' : GroupCoordinator) (rid : RequestId) : Prop where
  config : coord'.config = coord.config
  requests : ∀ rid' ≠ rid, coord'.requests rid' = coord.requests rid'

theorem Frame.stateOf (h : coord.Frame coord' rid) {rid' : RequestId} (hne : rid' ≠ rid) :
    coord'.stateOf rid' = coord.stateOf rid' := by
  unfold GroupCoordinator.stateOf
  rw [h.requests rid' hne, h.config]

theorem Frame.references (h : coord.Frame coord' rid) {rid' : RequestId} (hne : rid' ≠ rid) :
    coord'.references rid' = coord.references rid' := by
  unfold GroupCoordinator.references
  rw [h.stateOf hne]

/-- **One request against the rest.** The pool holds what the request holds and what the others do;
a call that moves only this request's references keeps the accounts. -/
theorem Sound.split (h : coord.Sound) (rid : RequestId) : ∃ others : Multiset BlockId,
    coord.pool.Holds ((coord.references rid : Multiset BlockId) + others) ∧
    (∀ rid' ≠ rid, ∀ b ∈ coord.references rid', b ∈ others) ∧
    ∀ coord' : GroupCoordinator, coord.Frame coord' rid →
      coord'.pool.Holds ((coord'.references rid : Multiset BlockId) + others) →
      Shaped coord.config (coord'.stateOf rid) → coord'.Sound := by
  obtain ⟨ids, hnodup, hnone, hholds⟩ := h.holds
  have hperm : (ids.flatMap coord.references).Perm
      (coord.references rid ++ (ids.erase rid).flatMap coord.references) := by
    by_cases hmem : rid ∈ ids
    · rw [← List.flatMap_cons]
      exact (List.perm_cons_erase hmem).flatMap_right _
    · rw [references_none (hnone rid hmem), List.nil_append, List.erase_of_not_mem hmem]
  rw [Multiset.coe_eq_coe.mpr hperm, ← Multiset.coe_add] at hholds
  refine ⟨((ids.erase rid).flatMap coord.references : List BlockId), hholds, fun rid' hne b hb => ?_,
    fun coord' hframe hholds' hshaped => ?_⟩
  · have hmem : rid' ∈ ids := by
      by_contra hnot
      rw [references_none (hnone rid' hnot)] at hb
      cases hb
    rw [Multiset.mem_coe, List.mem_flatMap]
    exact ⟨rid', (List.mem_erase_of_ne hne).mpr hmem, hb⟩
  · refine { holds := ⟨rid :: ids.erase rid, ?_, fun rid' hnot => ?_, ?_⟩, shaped := fun rid' => ?_ }
    · exact List.nodup_cons.mpr ⟨hnodup.not_mem_erase, hnodup.erase rid⟩
    · rw [List.mem_cons, not_or] at hnot
      rw [hframe.requests rid' hnot.1]
      exact hnone rid' fun hmem => hnot.2 ((List.mem_erase_of_ne hnot.1).mpr hmem)
    · have hsame : (ids.erase rid).flatMap coord'.references =
          (ids.erase rid).flatMap coord.references := by
        rw [List.flatMap_def, List.flatMap_def]
        refine congrArg List.flatten (List.map_congr_left fun rid' hmem => ?_)
        exact hframe.references fun heq => hnodup.not_mem_erase (heq ▸ hmem)
      rw [List.flatMap_cons, hsame, ← Multiset.coe_add]
      exact hholds'
    · by_cases hrid : rid' = rid
      · rw [hrid, hframe.config]
        exact hshaped
      · rw [hframe.stateOf hrid, hframe.config]
        exact h.shaped rid'

/-- A fresh coordinator holds nothing. -/
theorem create_sound {config : KVCacheConfig} {pool : BlockPool} (h : pool.Holds 0) :
    (create config pool).Sound where
  holds := ⟨[], List.nodup_nil, fun _ _ => rfl, h⟩
  shaped rid :=
    { perGroup := List.length_map ..
      numCached := List.length_map ..
      even := .inl fun blocks hblocks => by
        obtain ⟨_, -, rfl⟩ := List.mem_map.mp hblocks
        rfl }

/-! ### Adopting a hit -/

/-- The blocks of a hit can be adopted: one list per group, its real entries blocks of the pool. -/
structure Adoptable (coord : GroupCoordinator) (adopted : List (List BlockId)) : Prop where
  length : adopted.length = coord.config.groups.length
  even : AllOrNone adopted
  real : ∀ b ∈ realBlocks adopted.flatten, b < coord.pool.numBlocks

theorem blockSize_le_stride {config : KVCacheConfig} {group : GroupSpec}
    (hgroup : group ∈ config.groups) : group.blockSize ≤ config.stride := by
  have hmem : group.blockSize ∈ config.groups.map GroupSpec.blockSize := List.mem_map_of_mem hgroup
  obtain ⟨widest, hwidest⟩ := Option.isSome_iff_exists.mp
    (List.isSome_max?_of_ne_nil (List.ne_nil_of_mem hmem))
  rw [KVCacheConfig.stride, hwidest, Option.getD_some]
  exact (List.max?_eq_some_iff.mp hwidest).2 _ hmem

/-- A hit reaches into every group or into none. -/
theorem hit_even (coord : GroupCoordinator) (blockHashes : List BlockHash) (maxLength : Nat) :
    AllOrNone (coord.hit blockHashes maxLength) := by
  have hgreatest := KVCacheConfig.length_isGreatest coord.config coord.pool blockHashes maxLength
  rw [hit, KVCacheConfig.findLongestCacheHit_eq rfl]
  obtain ⟨⟨hdvd, hle⟩, -⟩ := hgreatest
  generalize coord.config.shortestHit coord.pool blockHashes maxLength -
    coord.config.shortestHit coord.pool blockHashes maxLength % coord.config.stride = length at hdvd hle
  split
  · left
    intro blocks hblocks
    obtain ⟨_, -, rfl⟩ := List.mem_map.mp hblocks
    rfl
  · rename_i hlength
    right
    intro blocks hblocks hnil
    obtain ⟨group, hgroup, rfl⟩ := List.mem_map.mp hblocks
    have hstride : group.blockSize ≤ length :=
      (blockSize_le_stride hgroup).trans (Nat.le_of_dvd (Nat.pos_of_ne_zero hlength) hdvd)
    have hblock : 0 < length / group.blockSize := Nat.div_pos hstride group.one_le_blockSize
    rcases List.take_eq_nil_iff.mp hnil with hzero | hempty
    · exact absurd hzero (Nat.ne_of_gt hblock)
    · have := hle group hgroup
      rw [hempty, List.length_nil, Nat.zero_mul, Nat.le_zero] at this
      exact hlength this

/-- What a lookup hands over can be adopted, and its real entries are indexed. -/
theorem hit_indexed {held : Multiset BlockId} (h : coord.pool.Holds held)
    (blockHashes : List BlockHash) (maxLength : Nat) :
    ∀ b ∈ realBlocks (coord.hit blockHashes maxLength).flatten, ∃ hash,
      b ∈ coord.pool.cachedBlockHashToBlock hash := by
  have hnull : coord.pool.NullUnindexed := fun hash hmem => h.indexed_ne_null hmem rfl
  intro b hb
  obtain ⟨hmem, hreal⟩ := mem_realBlocks.mp hb
  obtain ⟨blocks, hblocks, hb⟩ := List.mem_flatten.mp hmem
  -- an entry of the hit is an entry of some group's own hit
  have hentry : ∃ group, b ∈ coord.config.hitOf coord.pool blockHashes maxLength group := by
    rw [hit, KVCacheConfig.findLongestCacheHit_eq rfl] at hblocks
    split at hblocks
    · obtain ⟨_, -, rfl⟩ := List.mem_map.mp hblocks
      cases hb
    · obtain ⟨group, -, rfl⟩ := List.mem_map.mp hblocks
      exact ⟨group, List.mem_of_mem_take hb⟩
  obtain ⟨group, hgroup⟩ := hentry
  obtain ⟨j, hj⟩ := List.mem_iff_getElem?.mp hgroup
  rcases KVCacheConfig.hitOf_entry hnull hj with ⟨⟨hash, -, -, hindexed⟩, -⟩ | ⟨heq, -⟩
  · exact ⟨hash, hindexed⟩
  · exact absurd heq hreal

theorem hit_adoptable {held : Multiset BlockId} (h : coord.pool.Holds held)
    (blockHashes : List BlockHash) (maxLength : Nat) :
    coord.Adoptable (coord.hit blockHashes maxLength) where
  length := by
    rw [hit, KVCacheConfig.findLongestCacheHit_eq rfl]
    split <;> exact List.length_map ..
  even := coord.hit_even blockHashes maxLength
  real b hb := by
    obtain ⟨hash, hmem⟩ := hit_indexed h blockHashes maxLength b hb
    exact h.index_bound _ _ hmem

/-- The request's blocks once the hit is adopted. -/
def adoptedState (coord : GroupCoordinator) (rid : RequestId) (adopted : List (List BlockId)) :
    GroupBlocks :=
  if adopted = [] then coord.stateOf rid
  else { perGroup := adopted, numCached := adopted.map List.length }

/-- A request without blocks adopts every list. -/
theorem adoptGroups_eq : ∀ (groupId : Nat) {adopted perGroup : List (List BlockId)} (pool : BlockPool),
    adopted.length = perGroup.length → (∀ blocks ∈ perGroup, blocks = []) →
    adoptGroups rid groupId adopted perGroup pool = BlockPool.touch adopted.flatten pool
  | _, [], [], _, _, _ => rfl
  | groupId, blocks :: adopted, own :: perGroup, pool, hlen, hempty => by
      have hown : own = [] := hempty own List.mem_cons_self
      have hrest : ∀ pool, adoptGroups rid (groupId + 1) adopted perGroup pool =
          BlockPool.touch adopted.flatten pool := fun pool =>
        adoptGroups_eq (groupId + 1) pool (Nat.succ.inj hlen) fun blocks hblocks =>
          hempty blocks (List.mem_cons_of_mem _ hblocks)
      simp only [adoptGroups, hown, ne_eq, not_true_eq_false, if_false, hrest, List.flatten_cons,
        BlockPool.touch_append]

/-- A request that holds a block in its first group adopts nothing. -/
theorem adoptGroups_error {adopted perGroup : List (List BlockId)} {own : List BlockId}
    (pool : BlockPool) (hne : adopted ≠ []) (hown : own ≠ []) :
    adoptGroups rid 0 adopted (own :: perGroup) pool =
      .error (.valueError s!"request {rid} already holds blocks in group {0}") := by
  obtain ⟨blocks, adopted, rfl⟩ := List.exists_cons_of_ne_nil hne
  rw [adoptGroups, if_pos hown]

/-- Adopting: one reference on each real block of the hit, and nothing else moves. -/
theorem adopt_ok (hholds : coord.pool.Holds ((coord.references rid : Multiset BlockId) + others))
    (hsize : (coord.stateOf rid).perGroup.length = coord.config.groups.length)
    {adopted : List (List BlockId)} (hadopt : adopted ≠ [] → coord.Adoptable adopted ∧
      ∀ blocks ∈ coord.blockIds rid, blocks = []) :
    ∃ pool', coord.adopt rid adopted = .ok (pool', coord.adoptedState rid adopted) ∧
      pool'.Holds (((coord.adoptedState rid adopted).references : Multiset BlockId) + others) ∧
      pool'.geometry = coord.pool.geometry ∧
      pool'.cachedBlockHashToBlock = coord.pool.cachedBlockHashToBlock ∧
      ∀ b, pool'.hashOf b = coord.pool.hashOf b := by
  by_cases hnil : adopted = []
  · rw [adoptedState, if_pos hnil]
    exact ⟨coord.pool, by rw [adopt, if_pos hnil], hholds, rfl, rfl, fun _ => rfl⟩
  obtain ⟨hadoptable, hempty⟩ := hadopt hnil
  have hlen : adopted.length = (coord.blockIds rid).length := hadoptable.length.trans hsize.symm
  have hnone : coord.references rid = [] := by
    refine List.eq_nil_iff_forall_not_mem.mpr fun b hb => ?_
    obtain ⟨-, blocks, hblocks, hb⟩ := mem_references.mp hb
    rw [hempty blocks hblocks] at hb
    cases hb
  rw [hnone, Multiset.coe_nil, zero_add] at hholds
  have hreal : ∀ b ∈ realBlocks adopted.flatten, b ≠ nullBlockId ∧ b < coord.pool.numBlocks :=
    fun b hb => ⟨(mem_realBlocks.mp hb).2, hadoptable.real b hb⟩
  obtain ⟨pool', htouch, hholds', -, hgeo, hindex, hhash⟩ := BlockPool.touch_ok _ hholds hreal
  refine ⟨pool', ?_, ?_, hgeo, hindex, hhash⟩
  · rw [adopt, if_neg hnil, if_neg (not_not_intro hadoptable.length), adoptGroups_eq 0 _ hlen hempty,
      BlockPool.touch_realBlocks, htouch, ok_bind, adoptedState, if_neg hnil]
    rfl
  · rw [adoptedState, if_neg hnil, add_comm]
    exact hholds'

/-! ### Allocation -/

/-- The blocks every group of the request lacks, once the hit is adopted. -/
def lacking (coord : GroupCoordinator) (rid : RequestId) (numTokens : Nat)
    (adopted : List (List BlockId)) : List Nat :=
  blocksNeeded numTokens coord.config.groups (coord.adoptedState rid adopted).perGroup

theorem adoptedState_shaped (hshaped : Shaped coord.config (coord.stateOf rid))
    {adopted : List (List BlockId)} (hadopt : adopted ≠ [] → coord.Adoptable adopted) :
    Shaped coord.config (coord.adoptedState rid adopted) := by
  unfold adoptedState
  split
  · exact hshaped
  · rename_i hne
    have hadoptable := hadopt hne
    exact {
      perGroup := hadoptable.length
      numCached := (List.length_map ..).trans hadoptable.length
      even := hadoptable.even }

/-- The coordinator after a call that changes the pool and one request. -/
def withRequest (coord : GroupCoordinator) (pool : BlockPool) (rid : RequestId)
    (state : Option GroupBlocks) : GroupCoordinator :=
  { coord with
    pool
    requests := Function.update coord.requests rid state }

theorem withRequest_frame (coord : GroupCoordinator) (pool : BlockPool) (rid : RequestId)
    (state : Option GroupBlocks) : coord.Frame (coord.withRequest pool rid state) rid where
  config := rfl
  requests _ hne := Function.update_of_ne hne _ _

theorem stateOf_withRequest (coord : GroupCoordinator) (pool : BlockPool) (rid : RequestId)
    (state : GroupBlocks) : (coord.withRequest pool rid (some state)).stateOf rid = state := by
  simp [stateOf, withRequest]

/-- The pool has the blocks: the adopted ones are shared, and the rest come from one draw. -/
theorem allocate_granted (hholds : coord.pool.Holds ((coord.references rid : Multiset BlockId) + others))
    (hshaped : Shaped coord.config (coord.stateOf rid)) {numTokens : Nat}
    {newComputedBlocks : Option (List (List BlockId))} {adopted : List (List BlockId)}
    (hadopted : newComputedBlocks.getD [] = adopted)
    (hadopt : adopted ≠ [] → coord.Adoptable adopted ∧ ∀ blocks ∈ coord.blockIds rid, blocks = [])
    {pool₁ : BlockPool} (hpool₁ : coord.adopt rid adopted = .ok (pool₁, coord.adoptedState rid adopted))
    (hroom : totalNeeded (coord.lacking rid numTokens adopted) ≤ pool₁.numFreeBlocks) :
    ∃ pool' fresh, coord.allocate rid numTokens newComputedBlocks = .ok (true,
        coord.withRequest pool' rid (some { coord.adoptedState rid adopted with
          perGroup := dealBlocks (coord.adoptedState rid adopted).perGroup
            (coord.lacking rid numTokens adopted) fresh })) ∧
      fresh.length = totalNeeded (coord.lacking rid numTokens adopted) ∧
      BlockPool.Grew coord.pool pool'
        (((coord.adoptedState rid adopted).references : Multiset BlockId) + others) fresh := by
  obtain ⟨p, hp, hholds₁, hgeo₁, -, hhash₁⟩ := adopt_ok hholds hshaped.perGroup hadopt
  obtain ⟨rfl, -⟩ := Prod.mk.inj (Except.ok.inj (hpool₁.symm.trans hp))
  have hlen : (coord.lacking rid numTokens adopted).length =
      (coord.adoptedState rid adopted).perGroup.length :=
    blocksNeeded_length (adoptedState_shaped hshaped fun hne => (hadopt hne).1).perGroup
  by_cases hzero : totalNeeded (coord.lacking rid numTokens adopted) = 0
  · refine ⟨pool₁, [], ?_, hzero.symm,
      ⟨by simpa using hholds₁, hgeo₁, by simp, by simp, by simp, fun b _ => hhash₁ b⟩⟩
    have hsame : dealBlocks (coord.adoptedState rid adopted).perGroup
        (coord.lacking rid numTokens adopted) [] = (coord.adoptedState rid adopted).perGroup :=
      dealBlocks_nil hlen
    rw [hsame]
    have hzero' : totalNeeded (blocksNeeded numTokens coord.config.groups
        (coord.adoptedState rid adopted).perGroup) = 0 := hzero
    simp only [allocate, hadopted, hp, ok_bind, hzero', if_true, pure_eq_ok]
    rfl
  · obtain ⟨pool', hnew, hgrew⟩ := BlockPool.getNewBlocks_ok hholds₁ hroom
    refine ⟨pool', pool₁.freeBlockQueue.take (totalNeeded (coord.lacking rid numTokens adopted)), ?_,
      ?_, ⟨hgrew.holds, hgrew.geometry.trans hgeo₁, hgrew.nodup, hgrew.unheld, hgrew.unhashed,
        fun b hb => (hgrew.others b hb).trans (hhash₁ b)⟩⟩
    · have hzero' : totalNeeded (blocksNeeded numTokens coord.config.groups
          (coord.adoptedState rid adopted).perGroup) ≠ 0 := hzero
      have hnew' : pool₁.getNewBlocks (totalNeeded (blocksNeeded numTokens coord.config.groups
          (coord.adoptedState rid adopted).perGroup)) = _ := hnew
      simp only [allocate, hadopted, hp, ok_bind, hzero', if_false, hnew', pure_eq_ok,
        Function.update_idem]
      rfl
    · rw [List.length_take]
      exact Nat.min_eq_left hroom

/-- What a call that failed has left behind: nothing but another order of the free queue. -/
structure Untouched (coord coord' : GroupCoordinator) : Prop where
  blocks : coord'.pool.blocks = coord.pool.blocks
  index : coord'.pool.cachedBlockHashToBlock = coord.pool.cachedBlockHashToBlock
  queue : coord'.pool.freeBlockQueue.Perm coord.pool.freeBlockQueue
  lists : ∀ rid, coord'.blockIds rid = coord.blockIds rid

/-- Pools with the same references and the same hashes differ in the order of the queue only. -/
theorem same_of_holds {pool pool' : BlockPool} {held : Multiset BlockId} (h : pool.Holds held)
    (h' : pool'.Holds held) (hgeo : pool'.geometry = pool.geometry)
    (hhash : ∀ b, pool'.hashOf b = pool.hashOf b) :
    pool'.blocks = pool.blocks ∧ pool'.freeBlockQueue.Perm pool.freeBlockQueue := by
  have hnum : pool'.numBlocks = pool.numBlocks := congrArg Prod.fst hgeo
  refine ⟨funext fun b => ?_, ?_⟩
  · have href : (pool'.blocks b).refCnt = (pool.blocks b).refCnt := by
      by_cases hb : b = nullBlockId
      · rw [hb, h'.null_ref, h.null_ref]
      · rw [h'.ref b hb, h.ref b hb]
    have hsame : (pool'.blocks b).blockHash = (pool.blocks b).blockHash := hhash b
    calc pool'.blocks b = ⟨(pool'.blocks b).refCnt, (pool'.blocks b).blockHash⟩ := rfl
      _ = pool.blocks b := by rw [href, hsame]
  · refine (List.perm_ext_iff_of_nodup h'.queue_nodup h.queue_nodup).mpr fun b => ?_
    rw [h'.queue_iff, h.queue_iff, hnum]

theorem blockIds_nil (hempty : ∀ blocks ∈ coord.blockIds rid, blocks = [])
    (hlen : (coord.blockIds rid).length = coord.config.groups.length) :
    coord.blockIds rid = coord.config.groups.map fun _ => [] := by
  rw [List.eq_replicate_of_mem hempty, hlen, List.map_const']

/-- The pool is short: what was adopted is given back. -/
theorem allocate_refused (hholds : coord.pool.Holds ((coord.references rid : Multiset BlockId) + others))
    (hshaped : Shaped coord.config (coord.stateOf rid)) {numTokens : Nat}
    {newComputedBlocks : Option (List (List BlockId))} {adopted : List (List BlockId)}
    (hadopted : newComputedBlocks.getD [] = adopted)
    (hadopt : adopted ≠ [] → coord.Adoptable adopted ∧ ∀ blocks ∈ coord.blockIds rid, blocks = [])
    {pool₁ : BlockPool} (hpool₁ : coord.adopt rid adopted = .ok (pool₁, coord.adoptedState rid adopted))
    (hshort : pool₁.numFreeBlocks < totalNeeded (coord.lacking rid numTokens adopted)) :
    ∃ pool' state, coord.allocate rid numTokens newComputedBlocks =
        .ok (false, coord.withRequest pool' rid state) ∧
      (state = none ∨ state = some (coord.stateOf rid)) ∧
      pool'.Holds ((coord.references rid : Multiset BlockId) + others) ∧
      coord.Untouched (coord.withRequest pool' rid state) ∧
      Shaped coord.config ((coord.withRequest pool' rid state).stateOf rid) := by
  obtain ⟨p, hp, hholds₁, hgeo₁, hindex₁, hhash₁⟩ := adopt_ok hholds hshaped.perGroup hadopt
  obtain ⟨rfl, -⟩ := Prod.mk.inj (Except.ok.inj (hpool₁.symm.trans hp))
  have hzero : totalNeeded (blocksNeeded numTokens coord.config.groups
      (coord.adoptedState rid adopted).perGroup) ≠ 0 := (Nat.zero_lt_of_lt hshort).ne'
  have hnew : pool₁.getNewBlocks (totalNeeded (blocksNeeded numTokens coord.config.groups
      (coord.adoptedState rid adopted).perGroup)) = .ok (none, pool₁) :=
    BlockPool.getNewBlocks_short hshort
  have hlists : ∀ {pool' : BlockPool} {state : Option GroupBlocks},
      (coord.withRequest pool' rid state).blockIds rid = coord.blockIds rid →
      ∀ rid', (coord.withRequest pool' rid state).blockIds rid' = coord.blockIds rid' := by
    intro pool' state hself rid'
    by_cases hrid : rid' = rid
    · rw [hrid, hself]
    · unfold blockIds
      rw [(withRequest_frame coord pool' rid state).stateOf hrid]
  by_cases hnil : adopted = []
  · -- nothing was adopted, nothing moved
    subst hnil
    have hstate : coord.adoptedState rid [] = coord.stateOf rid := by rw [adoptedState, if_pos rfl]
    have hsame : pool₁ = coord.pool := by
      rw [adopt, if_pos rfl] at hp
      exact (Prod.mk.inj (Except.ok.inj hp)).1.symm
    rw [hstate] at hp hzero hnew
    refine ⟨pool₁, some (coord.stateOf rid), ?_, .inr rfl, hsame ▸ hholds, ?_, ?_⟩
    · simp only [allocate, hadopted, hp, ok_bind, hzero, if_false, hnew, ne_eq, not_true_eq_false,
        pure_eq_ok]
      rfl
    · refine ⟨congrArg BlockPool.blocks hsame, congrArg BlockPool.cachedBlockHashToBlock hsame,
        (congrArg BlockPool.freeBlockQueue hsame) ▸ List.Perm.refl _, hlists ?_⟩
      unfold blockIds
      rw [stateOf_withRequest]
    · rw [stateOf_withRequest]
      exact hshaped
  · obtain ⟨-, hempty⟩ := hadopt hnil
    have hnone : coord.references rid = [] := by
      refine List.eq_nil_iff_forall_not_mem.mpr fun b hb => ?_
      obtain ⟨-, blocks, hblocks, hb⟩ := mem_references.mp hb
      rw [hempty blocks hblocks] at hb
      cases hb
    rw [hnone, Multiset.coe_nil, zero_add] at hholds ⊢
    obtain ⟨pool', hfree, hholds', hgeo', hindex', hhash'⟩ := freeGroups_ok hholds₁
    obtain ⟨hblocks, hqueue⟩ := same_of_holds hholds hholds' (hgeo'.trans hgeo₁) fun b =>
      (hhash' b).trans (hhash₁ b)
    have hgone : (coord.withRequest pool' rid none).stateOf rid =
        { perGroup := coord.config.groups.map fun _ => []
          numCached := coord.config.groups.map fun _ => 0 } := by
      simp [stateOf, withRequest]
    refine ⟨pool', none, ?_, .inl rfl, hholds', ⟨hblocks, hindex'.trans hindex₁, hqueue, hlists ?_⟩, ?_⟩
    · simp only [allocate, hadopted, hp, ok_bind, hzero, if_false, hnew, ne_eq, hnil,
        not_false_eq_true, if_true, free, Function.update_self, hfree, pure_eq_ok,
        Function.update_idem]
      rfl
    · rw [blockIds_nil hempty hshaped.perGroup]
      unfold blockIds
      rw [hgone]
    · rw [hgone]
      exact {
        perGroup := List.length_map ..
        numCached := List.length_map ..
        even := .inl fun blocks hblocks => by
          obtain ⟨_, -, rfl⟩ := List.mem_map.mp hblocks
          rfl }

end GroupCoordinator

end RapidLlm
