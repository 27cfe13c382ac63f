import Mathlib.Logic.Encodable.Basic
import Mathlib.Logic.Equiv.List
import RapidLlm.Lib.HashChain
import RapidLlm.Engine.KVCacheSpec

/-!
# RapidLlm.Engine.PrefixCache

Prefix caching (`engine/prefix_cache.py`): the scheduler's whole view of the KV
cache. A live sequence has a chain of block hashes, which grows with it, and
blocks drawn through the coordinator; a block whose rows are computed is indexed
under its hash, and a prompt that starts with the same tokens adopts it.

* The digest of a block (`blake2b` over the parent digest and the block's tokens)
  is the parameter `BlockDigest`; the seed is the default `hash_seed` the planner
  leaves in place.
* `blockChain` is the chain as a function of the tokens; `hashTokens_eq` says the loop of the
  source computes it, and `iterBlockHashes_eq_iff` what it means for two hashes to be the same.
* With one KV cache group the per-group tuples of the source are single values;
  a table write keeps its group id, which is always `0`.
-/

namespace RapidLlm

/-- A token id; every one fits in 32 bits, as the block hash packs it. -/
abbrev Token := Nat

/-- The digest a block hash is computed with: the parent digest and the block's tokens. -/
class BlockDigest where
  digest : BlockHash → List Token → BlockHash

/-- `hash_seed`: the salt the chain starts from. -/
def hashSeed : BlockHash := 0

section Hashing

variable [BlockDigest]

/-- The chained hash of every complete block of a sequence. -/
abbrev blockChain (tokenIds : List Token) : List BlockHash :=
  HashChain.chain BlockDigest.digest hashSeed prefixCacheBlockSize tokenIds

/-- `iter_block_hashes`: one chained hash per full block; a partial block is skipped. -/
def iterBlockHashes (tokenIds : List Token) : List BlockHash :=
  HashChain.running BlockDigest.digest prefixCacheBlockSize tokenIds hashSeed 0
    (tokenIds.length / prefixCacheBlockSize)

/-- Append the hashes of blocks `tokenIds` has completed since last time. -/
def extendBlockHashes (hashes : List BlockHash) (tokenIds : List Token) : List BlockHash :=
  hashes ++ HashChain.running BlockDigest.digest prefixCacheBlockSize tokenIds
    (hashes.getLast?.getD hashSeed) hashes.length
    (tokenIds.length / prefixCacheBlockSize - hashes.length)

/-- The chain computed from scratch. -/
theorem hashTokens_eq (tokenIds : List Token) : iterBlockHashes tokenIds = blockChain tokenIds := by
  have hextend : extendBlockHashes [] tokenIds = blockChain tokenIds :=
    HashChain.extend_eq List.nil_prefix
  simpa [iterBlockHashes, extendBlockHashes] using hextend

theorem iterBlockHashes_getElem? {tokenIds : List Token} {j : Nat}
    (hj : (j + 1) * prefixCacheBlockSize ≤ tokenIds.length) : (iterBlockHashes tokenIds)[j]? =
      some (HashChain.digestAt BlockDigest.digest hashSeed prefixCacheBlockSize tokenIds (j + 1)) := by
  have hlt : j < tokenIds.length / prefixCacheBlockSize :=
    (Nat.le_div_iff_mul_le (by decide)).mpr hj
  rw [hashTokens_eq, blockChain, HashChain.chain, List.getElem?_map, List.getElem?_range hlt,
    Option.map_some]

/-- **A hash names a prefix.** Where no digests of the two sequences collide and none comes out as
the seed, two of their full blocks carry one hash exactly if they are at the same place and the
sequences start alike up to the end of it. -/
theorem iterBlockHashes_eq_iff {xs ys : List Token} {j k : Nat}
    (hfree : HashChain.CollisionFree BlockDigest.digest hashSeed prefixCacheBlockSize xs ys)
    (hj : (j + 1) * prefixCacheBlockSize ≤ xs.length)
    (hk : (k + 1) * prefixCacheBlockSize ≤ ys.length) :
    (iterBlockHashes xs)[j]? = (iterBlockHashes ys)[k]? ↔ j = k ∧
      xs.take ((j + 1) * prefixCacheBlockSize) = ys.take ((k + 1) * prefixCacheBlockSize) := by
  rw [iterBlockHashes_getElem? hj, iterBlockHashes_getElem? hk, Option.some_inj]
  constructor
  · intro h
    obtain ⟨hplace, htake⟩ := hfree.take_eq hj hk h
    exact ⟨Nat.succ.inj hplace, htake⟩
  · rintro ⟨rfl, htake⟩
    rw [← HashChain.digestAt_take le_rfl hj, htake, HashChain.digestAt_take le_rfl hk]

end Hashing

/-- A digest without collisions: the parent and the block, paired up. -/
@[reducible] def pairingDigest : BlockDigest :=
  ⟨fun parent block => Encodable.encode (parent, block) + 1⟩

/-- The same second block, behind different first ones. -/
theorem second_blocks_differ :
    (@iterBlockHashes pairingDigest (List.replicate 16 1 ++ List.replicate 16 2))[1]? ≠
      (@iterBlockHashes pairingDigest (List.replicate 16 3 ++ List.replicate 16 2))[1]? := by
  intro h
  have hfree : ∀ xs ys : List Token, HashChain.CollisionFree pairingDigest.digest hashSeed
      prefixCacheBlockSize xs ys := fun _ _ => HashChain.collisionFree_of_digest
    (fun _ _ _ _ h => by simpa using Encodable.encode_injective (Nat.succ.inj h))
    fun _ _ => Nat.succ_ne_zero _
  have hsame := (@iterBlockHashes_eq_iff pairingDigest _ _ 1 1 (hfree _ _) (by decide)
    (by decide)).mp h
  exact absurd hsame.2 (by decide)

/-! ### The cache -/

/-- `PrefixMatch`: the physical blocks a sequence may reuse, and the tokens they cover. -/
structure PrefixMatch where
  numTokens : Nat := 0
  blocks : List BlockId := []
  deriving DecidableEq, Repr

/-- What the cache remembers about one live sequence. -/
structure Sequence where
  blockHashes : List BlockHash := []
  numCachedTokens : Nat := 0
  numMappedBlocks : Nat := 0
  deriving DecidableEq, Repr

/-- Block-table entries the executor owes a request: `(group_id, start_block, block_ids)`. -/
structure TableWrite where
  groupId : Nat
  startBlock : Nat
  blockIds : List BlockId
  deriving DecidableEq, Repr

structure PrefixCache where
  enableCaching : Bool
  coordinator : KVCacheCoordinator
  sequences : RequestId → Option Sequence

namespace PrefixCache

/-- `PrefixCache.__init__` at the block size and seed the planner passes. -/
def create (numBlocks : Nat) (enableCaching : Bool) : Except Raised PrefixCache := do
  let pool ← BlockPool.create numBlocks prefixCacheBlockSize enableCaching
  return { enableCaching, coordinator := { pool, requests := fun _ => none }
           sequences := fun _ => none }

def setSequence (cache : PrefixCache) (requestId : RequestId) (state : Option Sequence) :
    PrefixCache :=
  { cache with sequences := Function.update cache.sequences requestId state }

/-- Start (or resume) tracking a sequence, returning its hash chain. -/
def track [BlockDigest] (cache : PrefixCache) (requestId : RequestId) (tokenIds : List Token) :
    List BlockHash × PrefixCache :=
  let state : Sequence := match cache.sequences requestId with
    | none => { blockHashes := iterBlockHashes tokenIds }
    | some state => { state with blockHashes := extendBlockHashes state.blockHashes tokenIds }
  (state.blockHashes, cache.setSequence requestId (some state))

/-- Extend a tracked sequence's chain over tokens it has since produced. -/
def observe [BlockDigest] (cache : PrefixCache) (requestId : RequestId) (tokenIds : List Token) :
    PrefixCache :=
  match cache.sequences requestId with
  | none => cache
  | some state => cache.setSequence requestId
      (some { state with blockHashes := extendBlockHashes state.blockHashes tokenIds })

/-- The tracked hash chain of a sequence, empty when it is not tracked. -/
def blockHashes (cache : PrefixCache) (requestId : RequestId) : List BlockHash :=
  match cache.sequences requestId with
  | none => []
  | some state => state.blockHashes

/-- The longest reusable prefix of a sequence with these hashes, short of its last token. -/
def lookup (cache : PrefixCache) (blockHashes : List BlockHash) (numTokens : Nat) : PrefixMatch :=
  if !cache.enableCaching || numTokens < 1 then {}
  else
    let (blocks, hit) := cache.coordinator.findLongestCacheHit blockHashes (numTokens - 1)
    { numTokens := hit, blocks }

/-- Give a request blocks covering its first `numTokens` tokens, adopting the match it was
looked up with; `false` when the pool cannot. -/
def allocate (cache : PrefixCache) (requestId : RequestId) (numTokens : Nat)
    (hit : Option PrefixMatch) : Except Raised (Bool × PrefixCache) := do
  let adopted := match hit with
    | none => none
    | some hit => if hit.numTokens = 0 then none else some hit.blocks
  let (granted, coordinator) ← cache.coordinator.allocate requestId numTokens adopted
  return (granted, { cache with coordinator })

/-- Index the request's blocks whose K/V the model has actually written; returns the
blocks that became indexable. -/
def commit (cache : PrefixCache) (requestId : RequestId) (numComputedTokens : Nat) :
    Except Raised (List (BlockId × BlockHash) × PrefixCache) :=
  match cache.sequences requestId with
  | none => .ok ([], cache)
  | some state =>
    if numComputedTokens ≤ state.numCachedTokens then .ok ([], cache)
    else do
      let (fresh, coordinator) ←
        cache.coordinator.cacheBlocks requestId state.blockHashes numComputedTokens
      let state := { state with numCachedTokens := numComputedTokens }
      return (fresh, { cache with coordinator }.setSequence requestId (some state))

/-- Release every block a request holds and stop tracking it. -/
def free (cache : PrefixCache) (requestId : RequestId) : Except Raised PrefixCache := do
  let coordinator ← cache.coordinator.free requestId
  return { cache with coordinator }.setSequence requestId none

/-- Block-table entries the executor has not been given yet, marked as given. -/
def takeTableWrites (cache : PrefixCache) (requestId : RequestId) :
    List TableWrite × PrefixCache :=
  match cache.sequences requestId with
  | none => ([], cache)
  | some state =>
    let blocks := cache.coordinator.blocksOf requestId
    let start := state.numMappedBlocks
    if blocks.length > start then
      ([{ groupId := 0, startBlock := start, blockIds := blocks.drop start }],
        cache.setSequence requestId (some { state with numMappedBlocks := blocks.length }))
    else ([], cache)

/-- Physical KV blocks available right now. -/
def numFreeBlocks (cache : PrefixCache) : Nat := cache.coordinator.pool.numFreeBlocks

/-! ### What each operation does

The resources move in the coordinator, whose lemmas say how; the lemmas here carry
them through the cache and say what becomes of the tracked sequence. -/

variable {cache : PrefixCache} {rid : RequestId} {held : Multiset BlockId}

@[simp] theorem setSequence_coordinator (cache : PrefixCache) (rid : RequestId)
    (state : Option Sequence) : (cache.setSequence rid state).coordinator = cache.coordinator := rfl

@[simp] theorem setSequence_self (cache : PrefixCache) (rid : RequestId)
    (state : Option Sequence) : (cache.setSequence rid state).sequences rid = state :=
  Function.update_self _ _ _

theorem setSequence_of_ne {rid' : RequestId} (h : rid' ≠ rid) (cache : PrefixCache)
    (state : Option Sequence) :
    (cache.setSequence rid state).sequences rid' = cache.sequences rid' :=
  Function.update_of_ne h _ _

/-- What a lookup returns: whole blocks short of the last token, each indexed under the
sequence's own hash. -/
theorem lookup_spec (cache : PrefixCache) (hashes : List BlockHash) (numTokens : Nat) :
    let hit := cache.lookup hashes numTokens
    hit.numTokens = 16 * hit.blocks.length ∧ hit.numTokens ≤ numTokens - 1 ∧
      hit.blocks.length ≤ hashes.length ∧
      ∀ (j : Nat) (b : BlockId), hit.blocks[j]? = some b →
        ∃ hash, hashes[j]? = some hash ∧
          b ∈ cache.coordinator.pool.cachedBlockHashToBlock hash := by
  intro hit
  by_cases hoff : (!cache.enableCaching || numTokens < 1) = true
  · have hnil : hit = {} := by simp only [hit, lookup]; rw [if_pos hoff]
    simp [hnil]
  · have heq : hit = { numTokens := (cache.coordinator.findLongestCacheHit hashes (numTokens - 1)).2
                       blocks := (cache.coordinator.findLongestCacheHit hashes (numTokens - 1)).1 } := by
      simp only [hit, lookup]; rw [if_neg hoff]
    have hspec := cache.coordinator.findLongestCacheHit_spec hashes (numTokens - 1)
    rw [heq]
    exact hspec

/-- The match as the coordinator is handed it. -/
theorem allocate_hit {hit : PrefixMatch} (h : hit.numTokens = 16 * hit.blocks.length)
    (numTokens : Nat) : cache.allocate rid numTokens (some hit) = (do
      let (granted, coordinator) ← cache.coordinator.allocate rid numTokens
        (KVCacheCoordinator.adopted hit.blocks)
      return (granted, { cache with coordinator })) := by
  have hadopt : (if hit.numTokens = 0 then none else some hit.blocks) =
      KVCacheCoordinator.adopted hit.blocks := by
    rw [KVCacheCoordinator.adopted, h]
    by_cases hnil : hit.blocks = []
    · simp [hnil]
    · have hne : hit.blocks.length ≠ 0 := by simpa using hnil
      rw [if_neg (by omega), if_neg hnil]
  simp only [allocate, hadopt]

/-- Mapping what is not mapped yet: afterwards every block of the request is. -/
theorem takeTableWrites_eq {state : Sequence} (h : cache.sequences rid = some state)
    (hle : state.numMappedBlocks ≤ (cache.coordinator.blocksOf rid).length) :
    (cache.takeTableWrites rid).2 = cache.setSequence rid
        (some { state with numMappedBlocks := (cache.coordinator.blocksOf rid).length }) ∧
      (cache.takeTableWrites rid).1 =
        if (cache.coordinator.blocksOf rid).length = state.numMappedBlocks then []
        else [⟨0, state.numMappedBlocks,
          (cache.coordinator.blocksOf rid).drop state.numMappedBlocks⟩] := by
  simp only [takeTableWrites, h]
  by_cases heq : (cache.coordinator.blocksOf rid).length = state.numMappedBlocks
  · have hsame : cache.setSequence rid (some state) = cache := by
      rw [setSequence, ← h, Function.update_eq_self]
    rw [if_neg (by omega), if_pos heq, heq]
    exact ⟨hsame.symm, rfl⟩
  · rw [if_pos (by omega), if_neg heq]
    exact ⟨rfl, rfl⟩

/-- Releasing a request that holds blocks. -/
theorem free_ok {state : RequestBlocks} (hreq : cache.coordinator.requests rid = some state)
    (h : cache.coordinator.pool.Holds (held + (state.blocks : Multiset BlockId))) :
    ∃ pool', cache.free rid = .ok ({ cache with
        coordinator := ⟨pool', Function.update cache.coordinator.requests rid none⟩ }.setSequence
          rid none) ∧
      pool'.Holds held ∧ pool'.geometry = cache.coordinator.pool.geometry ∧
      pool'.cachedBlockHashToBlock = cache.coordinator.pool.cachedBlockHashToBlock ∧
      ∀ b, pool'.hashOf b = cache.coordinator.pool.hashOf b := by
  obtain ⟨pool', hfree, hrest⟩ := KVCacheCoordinator.free_ok hreq h
  exact ⟨pool', by simp [free, hfree], hrest⟩

/-- Releasing a request that holds nothing only stops tracking it. -/
theorem free_empty (hreq : (cache.coordinator.requests rid).getD {} = {}) :
    cache.free rid = .ok ({ cache with
      coordinator := ⟨cache.coordinator.pool, Function.update cache.coordinator.requests rid none⟩
      }.setSequence rid none) := by
  simp [free, KVCacheCoordinator.free_empty hreq]

/-- Committing a request's executed tokens does not raise; the blocks indexed are its own,
at their places of its chain. -/
theorem commit_ok {seq : Sequence} {state : RequestBlocks}
    (h : cache.coordinator.pool.Holds held) (hseq : cache.sequences rid = some seq)
    (hreq : cache.coordinator.requests rid = some state)
    (hbs : ∀ b ∈ state.blocks, b ∈ held) (n : Nat) :
    ∃ fresh pool' numCached numCachedTokens, cache.commit rid n = .ok (fresh, { cache with
        coordinator := ⟨pool', Function.update cache.coordinator.requests rid
          (some { state with numCached })⟩ }.setSequence rid (some { seq with numCachedTokens })) ∧
      cache.coordinator.Indexed state seq.blockHashes n held pool' numCached := by
  by_cases hle : n ≤ seq.numCachedTokens
  · refine ⟨[], cache.coordinator.pool, state.numCached, seq.numCachedTokens, ?_, h, rfl, rfl,
      fun _ _ hb => hb, fun _ _ hb => .inl hb, Nat.le_refl _, .inl rfl⟩
    have hcoord : Function.update cache.coordinator.requests rid
        (some { state with numCached := state.numCached }) = cache.coordinator.requests := by
      rw [show ({ state with numCached := state.numCached } : RequestBlocks) = state from rfl,
        ← hreq, Function.update_eq_self]
    have hsame : Function.update cache.sequences rid
        (some { seq with numCachedTokens := seq.numCachedTokens }) = cache.sequences := by
      rw [show ({ seq with numCachedTokens := seq.numCachedTokens } : Sequence) = seq from rfl,
        ← hseq, Function.update_eq_self]
    simp only [commit, hseq]
    rw [if_pos hle]
    simp only [setSequence, hcoord, hsame]
  · obtain ⟨fresh, pool', numCached, hrun, hindexed⟩ :=
      KVCacheCoordinator.cacheBlocks_ok h hreq hbs seq.blockHashes n
    refine ⟨fresh, pool', numCached, n, ?_, hindexed⟩
    simp only [commit, hseq]
    rw [if_neg hle, hrun]
    rfl

end PrefixCache

end RapidLlm
