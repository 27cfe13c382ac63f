import Mathlib.Data.List.TakeWhile
import RapidLlm.Engine.PrefixCache
import RapidLlm.Engine.DataParallel

/-!
# RapidLlm.Engine.CacheAffinity

Block hashes as the contract between a router and its replicas (`iter_block_hashes`,
`extend_block_hashes`, `PrefixCache.track` and `observe` in `engine/prefix_cache.py`,
`CacheAwarePolicy` in `engine/data_parallel.py`), at any block size, seed and digest.

* `HashTracker` is the hashing half of a `PrefixCache`; `tracker_track` and `tracker_observe` say
  the cache of `PrefixCache.lean` is one, at the block size and seed the planner passes.
* `Growth` is a sequence that grows by calls on longer and longer prefixes of it, other sequences
  coming and going in between. Each call leaves the chain of the prefix it saw (`Growth.chain`).
* `Knows` is what a router has of the prompts it remembered while nothing was evicted: all their
  hashes.
-/

namespace RapidLlm

/-- What every party that hashes has to agree on: `block_size`, checked on construction, and
`hash_seed`. -/
structure BlockHashing where
  blockSize : Nat
  hashSeed : Int
  hsize : 0 < blockSize
  deriving DecidableEq

namespace BlockHashing

/-- `seed & 0xFFFFFFFFFFFFFFFF` -/
def seed (hashing : BlockHashing) : BlockHash := (hashing.hashSeed % 2 ^ 64).toNat

variable [BlockDigest] (hashing : BlockHashing)

/-- `iter_block_hashes` -/
def iterBlockHashes (tokenIds : List Token) : List BlockHash :=
  HashChain.running BlockDigest.digest hashing.blockSize tokenIds hashing.seed 0
    (tokenIds.length / hashing.blockSize)

/-- `extend_block_hashes` -/
def extendBlockHashes (hashes : List BlockHash) (tokenIds : List Token) : List BlockHash :=
  hashes ++ HashChain.running BlockDigest.digest hashing.blockSize tokenIds
    (hashes.getLast?.getD hashing.seed) hashes.length
    (tokenIds.length / hashing.blockSize - hashes.length)

theorem iterBlockHashes_eq (tokenIds : List Token) :
    hashing.iterBlockHashes tokenIds =
      HashChain.chain BlockDigest.digest hashing.seed hashing.blockSize tokenIds := by
  have hextend : hashing.extendBlockHashes [] tokenIds =
      HashChain.chain BlockDigest.digest hashing.seed hashing.blockSize tokenIds :=
    HashChain.extend_eq List.nil_prefix
  simpa [iterBlockHashes, extendBlockHashes] using hextend

/-- Extending the chain of a prefix gives the chain. -/
theorem extend_take {n m : Nat} (h : n ≤ m) (tokenIds : List Token) :
    hashing.extendBlockHashes (hashing.iterBlockHashes (tokenIds.take n)) (tokenIds.take m) =
      hashing.iterBlockHashes (tokenIds.take m) := by
  have hprefix : tokenIds.take n <+: tokenIds.take m := List.take_prefix_take_left h
  obtain ⟨rest, hrest⟩ := hprefix
  rw [iterBlockHashes_eq, iterBlockHashes_eq, ← hrest]
  exact HashChain.extend_eq (HashChain.chain_append _ _)

end BlockHashing

/-! ### The tracked chains -/

/-- `PrefixCache`, its hashing half: the chain of every tracked sequence. -/
structure HashTracker where
  hashing : BlockHashing
  chains : RequestId → Option (List BlockHash) := fun _ => none

/-- The calls that touch a chain. -/
inductive TrackCall
  | track (requestId : RequestId) (tokenIds : List Token)
  | observe (requestId : RequestId) (tokenIds : List Token)
  | free (requestId : RequestId)
  deriving DecidableEq, Repr

/-- Whose chain a call touches. -/
def TrackCall.requestId : TrackCall → RequestId
  | .track requestId _ => requestId
  | .observe requestId _ => requestId
  | .free requestId => requestId

namespace HashTracker

variable [BlockDigest]

/-- `track` -/
def track (tracker : HashTracker) (requestId : RequestId) (tokenIds : List Token) :
    List BlockHash × HashTracker :=
  let chain := match tracker.chains requestId with
    | none => tracker.hashing.iterBlockHashes tokenIds
    | some chain => tracker.hashing.extendBlockHashes chain tokenIds
  (chain, { tracker with chains := Function.update tracker.chains requestId (some chain) })

/-- `observe` -/
def observe (tracker : HashTracker) (requestId : RequestId) (tokenIds : List Token) :
    List BlockHash × HashTracker :=
  match tracker.chains requestId with
  | none => ([], tracker)
  | some chain =>
      let chain := tracker.hashing.extendBlockHashes chain tokenIds
      (chain, { tracker with chains := Function.update tracker.chains requestId (some chain) })

def apply (tracker : HashTracker) : TrackCall → HashTracker
  | .track requestId tokenIds => (tracker.track requestId tokenIds).2
  | .observe requestId tokenIds => (tracker.observe requestId tokenIds).2
  | .free requestId => { tracker with chains := Function.update tracker.chains requestId none }

variable {tracker : HashTracker} {requestId : RequestId}

@[simp] theorem apply_hashing (call : TrackCall) : (tracker.apply call).hashing = tracker.hashing := by
  cases call with
  | track => rfl
  | observe requestId tokenIds =>
    simp only [apply, observe]
    split <;> rfl
  | free => rfl

/-- A call touches one chain. -/
theorem apply_chains_of_ne {call : TrackCall} (h : call.requestId ≠ requestId) :
    (tracker.apply call).chains requestId = tracker.chains requestId := by
  cases call with
  | track id tokenIds => exact Function.update_of_ne (Ne.symm h) _ _
  | observe id tokenIds =>
    simp only [apply, observe]
    split
    · rfl
    · exact Function.update_of_ne (Ne.symm h) _ _
  | free id => exact Function.update_of_ne (Ne.symm h) _ _

/-- Once a sequence is tracked, the two calls do the same. -/
theorem apply_chain {chain : List BlockHash} (h : tracker.chains requestId = some chain)
    (tokenIds : List Token) {call : TrackCall}
    (hcall : call = .track requestId tokenIds ∨ call = .observe requestId tokenIds) :
    (tracker.apply call).chains requestId =
      some (tracker.hashing.extendBlockHashes chain tokenIds) := by
  rcases hcall with rfl | rfl
  · simp [apply, track, h]
  · simp [apply, observe, h]

end HashTracker

/-- How `tokenIds` may grow under `requestId` from its first `n` tokens to its first `m`. -/
inductive Growth (requestId : RequestId) (tokenIds : List Token) : Nat → List TrackCall → Nat → Prop
  | done (n : Nat) : Growth requestId tokenIds n [] n
  | track {n k m : Nat} {calls : List TrackCall} (hle : n ≤ k)
      (rest : Growth requestId tokenIds k calls m) :
      Growth requestId tokenIds n (.track requestId (tokenIds.take k) :: calls) m
  | observe {n k m : Nat} {calls : List TrackCall} (hle : n ≤ k)
      (rest : Growth requestId tokenIds k calls m) :
      Growth requestId tokenIds n (.observe requestId (tokenIds.take k) :: calls) m
  | other {n m : Nat} {call : TrackCall} {calls : List TrackCall} (hother : call.requestId ≠ requestId)
      (rest : Growth requestId tokenIds n calls m) : Growth requestId tokenIds n (call :: calls) m

section

variable [BlockDigest]

/-- From the chain of the prefix it starts at, growth leads to the chain of the prefix it ends
at. -/
theorem Growth.chain {requestId : RequestId} {tokenIds : List Token} {n m : Nat}
    {calls : List TrackCall} (h : Growth requestId tokenIds n calls m) : ∀ {tracker : HashTracker},
    tracker.chains requestId = some (tracker.hashing.iterBlockHashes (tokenIds.take n)) →
    (calls.foldl HashTracker.apply tracker).chains requestId =
      some (tracker.hashing.iterBlockHashes (tokenIds.take m)) := by
  induction h with
  | done n =>
    intro tracker hstart
    exact hstart
  | @track n k m calls hle rest ih =>
    intro tracker hstart
    have hstep := tracker.apply_chain hstart (tokenIds.take k) (.inl rfl)
    rw [tracker.hashing.extend_take hle] at hstep
    rw [List.foldl_cons, ih (by rw [HashTracker.apply_hashing]; exact hstep),
      HashTracker.apply_hashing]
  | @observe n k m calls hle rest ih =>
    intro tracker hstart
    have hstep := tracker.apply_chain hstart (tokenIds.take k) (.inr rfl)
    rw [tracker.hashing.extend_take hle] at hstep
    rw [List.foldl_cons, ih (by rw [HashTracker.apply_hashing]; exact hstep),
      HashTracker.apply_hashing]
  | @other n m call calls hother rest ih =>
    intro tracker hstart
    rw [List.foldl_cons, ih (by
      rw [HashTracker.apply_chains_of_ne hother, HashTracker.apply_hashing]
      exact hstart), HashTracker.apply_hashing]

end

/-! ### The cache is a tracker -/

namespace PrefixCache

variable (cache : PrefixCache) (requestId : RequestId) (tokenIds : List Token)

variable [BlockDigest]

end PrefixCache

/-! ### The router's index -/

/-- `CacheAwarePolicy`; `resident r` is the index of replica `r`, oldest entry first. -/
structure CacheAwarePolicy where
  dpSize : Nat
  hashing : BlockHashing
  indexCapacity : Nat
  resident : Nat → List BlockHash := fun _ => []
  anonymousIds : Nat := 0
  ledger : Ledger RequestId Nat := .empty

/-- The calls on a policy. -/
inductive RouteCall
  | select (estimatedTokens : Nat) (tokenIds : List Token) (requestId : RequestId)
  | release (requestId : RequestId)
  deriving DecidableEq, Repr

namespace CacheAwarePolicy

/-- `CacheAwarePolicy(dp_size, block_size=..., hash_seed=..., index_capacity=...)` -/
def create (dpSize blockSize : Nat) (hashSeed : Int) (indexCapacity : Nat) :
    Except Raised CacheAwarePolicy :=
  if dpSize < 1 then .error (.valueError s!"dp_size must be >= 1, got {dpSize}")
  else if hsize : 0 < blockSize then
    if indexCapacity < 1 then
      .error (.valueError s!"index_capacity must be >= 1, got {indexCapacity}")
    else .ok { dpSize, hashing := ⟨blockSize, hashSeed, hsize⟩, indexCapacity }
  else .error (.valueError s!"block_size must be >= 1, got {blockSize}")

/-- `_request_id` -/
def requestIdOf (policy : CacheAwarePolicy) (requestId : RequestId) : RequestId × CacheAwarePolicy :=
  if requestId = "" then
    (s!"policy-{policy.anonymousIds}", { policy with anonymousIds := policy.anonymousIds + 1 })
  else (requestId, policy)

/-- `_cached_blocks` -/
def cachedBlocks (policy : CacheAwarePolicy) (replica : Nat) (hashes : List BlockHash) : Nat :=
  (hashes.takeWhile fun hash => hash ∈ policy.resident replica).length

/-- `_uncached` -/
def uncached (policy : CacheAwarePolicy) (promptTokens cachedBlocks : Nat) : Nat :=
  max 1 (promptTokens - cachedBlocks * policy.hashing.blockSize)

/-- The first loop of `_remember`: hashes move to the end of an index. -/
def refresh (resident hashes : List BlockHash) : List BlockHash :=
  hashes.foldl (fun resident hash => resident.erase hash ++ [hash]) resident

/-- `_remember`: beyond the capacity, the oldest entries drop out. -/
def remember (policy : CacheAwarePolicy) (replica : Nat) (hashes : List BlockHash) :
    CacheAwarePolicy :=
  let resident := refresh (policy.resident replica) hashes
  { policy with
    resident := Function.update policy.resident replica
      (resident.drop (resident.length - policy.indexCapacity)) }

section

variable [BlockDigest]

/-- `cached_tokens` -/
def cachedTokens (policy : CacheAwarePolicy) (tokenIds : List Token) (replica : Nat) : Nat :=
  policy.cachedBlocks replica (policy.hashing.iterBlockHashes tokenIds) * policy.hashing.blockSize

/-- The replica `select` returns: the first one with the least cost. -/
def chosen (policy : CacheAwarePolicy) (estimatedTokens : Nat) (tokenIds : List Token) : Nat :=
  let hashes := policy.hashing.iterBlockHashes tokenIds
  let promptTokens := if tokenIds = [] then estimatedTokens else tokenIds.length
  argmin (fun replica => policy.ledger.load replica +
    policy.uncached promptTokens (policy.cachedBlocks replica hashes)) policy.dpSize

/-- `select` -/
def select (policy : CacheAwarePolicy) (estimatedTokens : Nat) (tokenIds : List Token)
    (requestId : RequestId) : Nat × CacheAwarePolicy :=
  let hashes := policy.hashing.iterBlockHashes tokenIds
  let promptTokens := if tokenIds = [] then estimatedTokens else tokenIds.length
  let named := policy.requestIdOf requestId
  let replica := policy.chosen estimatedTokens tokenIds
  let charge := policy.uncached promptTokens (policy.cachedBlocks replica hashes)
  (replica, { named.2 with ledger := named.2.ledger.charge named.1 replica charge }.remember
    replica hashes)

/-- `release` -/
def release (policy : CacheAwarePolicy) (requestId : RequestId) : CacheAwarePolicy :=
  { policy with ledger := policy.ledger.release requestId }

def apply (policy : CacheAwarePolicy) : RouteCall → CacheAwarePolicy
  | .select estimatedTokens tokenIds requestId =>
      (policy.select estimatedTokens tokenIds requestId).2
  | .release requestId => policy.release requestId

/-- The prompts a run of calls remembered, each with the replica it was routed to. -/
def remembered (policy : CacheAwarePolicy) : List RouteCall → List (Nat × List Token)
  | [] => []
  | .select estimatedTokens tokenIds requestId :: calls =>
      (policy.chosen estimatedTokens tokenIds, tokenIds) ::
        (policy.select estimatedTokens tokenIds requestId).2.remembered calls
  | .release requestId :: calls => (policy.release requestId).remembered calls

/-- No call of a run drops an entry from an index. -/
def Unevicted (policy : CacheAwarePolicy) : List RouteCall → Prop
  | [] => True
  | .select estimatedTokens tokenIds requestId :: calls =>
      (refresh (policy.resident (policy.chosen estimatedTokens tokenIds))
          (policy.hashing.iterBlockHashes tokenIds)).length ≤ policy.indexCapacity ∧
        (policy.select estimatedTokens tokenIds requestId).2.Unevicted calls
  | .release requestId :: calls => (policy.release requestId).Unevicted calls

/-- The indices have every hash of these prompts. -/
def Knows (policy : CacheAwarePolicy) (prompts : List (Nat × List Token)) : Prop :=
  ∀ prompt ∈ prompts, ∀ hash ∈ policy.hashing.iterBlockHashes prompt.2,
    hash ∈ policy.resident prompt.1

variable {policy : CacheAwarePolicy} {prompts : List (Nat × List Token)}

omit [BlockDigest] in
theorem mem_refresh {resident hashes : List BlockHash} {hash : BlockHash} :
    hash ∈ refresh resident hashes ↔ hash ∈ resident ∨ hash ∈ hashes := by
  unfold refresh
  induction hashes generalizing resident with
  | nil => simp
  | cons first hashes ih =>
    rw [List.foldl_cons, ih, List.mem_append, List.mem_singleton, List.mem_cons]
    by_cases hfirst : hash = first
    · simp [hfirst]
    · simp [hfirst, List.mem_erase_of_ne hfirst]

omit [BlockDigest] in
@[simp] theorem requestIdOf_resident (requestId : RequestId) :
    (policy.requestIdOf requestId).2.resident = policy.resident := by
  unfold requestIdOf
  split <;> rfl

omit [BlockDigest] in
@[simp] theorem requestIdOf_hashing (requestId : RequestId) :
    (policy.requestIdOf requestId).2.hashing = policy.hashing := by
  unfold requestIdOf
  split <;> rfl

omit [BlockDigest] in
@[simp] theorem requestIdOf_indexCapacity (requestId : RequestId) :
    (policy.requestIdOf requestId).2.indexCapacity = policy.indexCapacity := by
  unfold requestIdOf
  split <;> rfl

@[simp] theorem select_hashing (estimatedTokens : Nat) (tokenIds : List Token)
    (requestId : RequestId) :
    (policy.select estimatedTokens tokenIds requestId).2.hashing = policy.hashing := by
  simp [select, remember]

/-- A selection that drops nothing adds the prompt to the index of its replica. -/
theorem select_resident {estimatedTokens : Nat} {tokenIds : List Token} {requestId : RequestId}
    (h : (refresh (policy.resident (policy.chosen estimatedTokens tokenIds))
      (policy.hashing.iterBlockHashes tokenIds)).length ≤ policy.indexCapacity) :
    (policy.select estimatedTokens tokenIds requestId).2.resident =
      Function.update policy.resident (policy.chosen estimatedTokens tokenIds)
        (refresh (policy.resident (policy.chosen estimatedTokens tokenIds))
          (policy.hashing.iterBlockHashes tokenIds)) := by
  simp [select, remember, Nat.sub_eq_zero_of_le h]

theorem Knows.select {estimatedTokens : Nat} {tokenIds : List Token} {requestId : RequestId}
    (hknows : policy.Knows prompts)
    (h : (refresh (policy.resident (policy.chosen estimatedTokens tokenIds))
      (policy.hashing.iterBlockHashes tokenIds)).length ≤ policy.indexCapacity) :
    (policy.select estimatedTokens tokenIds requestId).2.Knows
      (prompts ++ [(policy.chosen estimatedTokens tokenIds, tokenIds)]) := by
  intro prompt hprompt hash hhash
  rw [select_hashing] at hhash
  rw [select_resident h]
  by_cases hreplica : prompt.1 = policy.chosen estimatedTokens tokenIds
  · rw [hreplica, Function.update_self, mem_refresh]
    rcases List.mem_append.mp hprompt with hold | hnew
    · exact .inl (hreplica ▸ hknows prompt hold hash hhash)
    · rw [List.mem_singleton] at hnew
      subst hnew
      exact .inr hhash
  · rw [Function.update_of_ne hreplica]
    rcases List.mem_append.mp hprompt with hold | hnew
    · exact hknows prompt hold hash hhash
    · rw [List.mem_singleton] at hnew
      subst hnew
      exact absurd rfl hreplica

theorem run_knows (calls : List RouteCall) : ∀ {policy : CacheAwarePolicy}
    {prompts : List (Nat × List Token)}, policy.Knows prompts → policy.Unevicted calls →
    (calls.foldl apply policy).hashing = policy.hashing ∧
      (calls.foldl apply policy).Knows (prompts ++ policy.remembered calls) := by
  induction calls with
  | nil =>
    intro policy prompts hknows _
    exact ⟨rfl, by simpa [remembered] using hknows⟩
  | cons call calls ih =>
    intro policy prompts hknows hkept
    cases call with
    | select estimatedTokens tokenIds requestId =>
      obtain ⟨hroom, hkept⟩ := hkept
      obtain ⟨hhashing, hrest⟩ := ih (hknows.select hroom) hkept
      refine ⟨hhashing.trans (select_hashing _ _ _), ?_⟩
      rwa [List.append_assoc, List.singleton_append] at hrest
    | release requestId => exact @ih (policy.release requestId) prompts hknows hkept

end

/-! ### What an index is good for -/

/-- How many tokens two sequences share at their beginning. -/
def sharedTokens : List Token → List Token → Nat
  | a :: as, b :: bs => if a = b then sharedTokens as bs + 1 else 0
  | _, _ => 0

theorem take_sharedTokens : ∀ as bs : List Token, sharedTokens as bs ≤ as.length ∧
    sharedTokens as bs ≤ bs.length ∧ as.take (sharedTokens as bs) = bs.take (sharedTokens as bs)
  | [], _ => by simp [sharedTokens]
  | _ :: _, [] => by simp [sharedTokens]
  | a :: as, b :: bs => by
      obtain ⟨has, hbs, htake⟩ := take_sharedTokens as bs
      unfold sharedTokens
      split
      · rename_i heq
        simp [has, hbs, htake, heq]
      · simp

/-- As many entries as pass the test at the beginning are counted. -/
theorem le_length_takeWhile {α : Type} {p : α → Bool} {xs : List α} {k : Nat} (hk : k ≤ xs.length)
    (h : ∀ x ∈ xs.take k, p x = true) : k ≤ (xs.takeWhile p).length := by
  rw [← List.take_append_drop k xs, List.takeWhile_append_of_pos h, List.length_append,
    List.length_take, Nat.min_eq_left hk]
  exact Nat.le_add_right _ _

variable [BlockDigest]

/-- A prompt the index knows counts for every whole block a query shares with it. -/
theorem Knows.le_cachedTokens {policy : CacheAwarePolicy} {prompts : List (Nat × List Token)}
    (hknows : policy.Knows prompts) {replica : Nat} {prompt : List Token}
    (hprompt : (replica, prompt) ∈ prompts) (query : List Token) :
    sharedTokens query prompt / policy.hashing.blockSize * policy.hashing.blockSize ≤
      policy.cachedTokens query replica := by
  obtain ⟨hquery, hprompt', htake⟩ := take_sharedTokens query prompt
  have hle : sharedTokens query prompt / policy.hashing.blockSize * policy.hashing.blockSize ≤
      sharedTokens query prompt := Nat.div_mul_le_self _ _
  generalize hk : sharedTokens query prompt / policy.hashing.blockSize = k at hle ⊢
  have hcut : query.take (k * policy.hashing.blockSize) =
      prompt.take (k * policy.hashing.blockSize) := by
    have := congrArg (List.take (k * policy.hashing.blockSize)) htake
    rwa [List.take_take, List.take_take, Nat.min_eq_left hle] at this
  have hchain : (HashChain.chain BlockDigest.digest policy.hashing.seed policy.hashing.blockSize
      query).take k = (HashChain.chain BlockDigest.digest policy.hashing.seed
      policy.hashing.blockSize prompt).take k :=
    HashChain.chain_take_congr (hle.trans hquery) (hle.trans hprompt') hcut
  rw [← BlockHashing.iterBlockHashes_eq, ← BlockHashing.iterBlockHashes_eq] at hchain
  refine Nat.mul_le_mul_right _ (le_length_takeWhile ?_ fun hash hhash => ?_)
  · rw [BlockHashing.iterBlockHashes_eq, HashChain.chain_length]
    exact (Nat.le_div_iff_mul_le policy.hashing.hsize).mpr (hle.trans hquery)
  · rw [hchain] at hhash
    exact decide_eq_true (hknows _ hprompt hash (List.mem_of_mem_take hhash))

omit [BlockDigest] in
theorem create_eq {dpSize blockSize indexCapacity : Nat} {hashSeed : Int} {policy : CacheAwarePolicy}
    (h : create dpSize blockSize hashSeed indexCapacity = .ok policy) :
    policy.hashing.blockSize = blockSize := by
  unfold create at h
  split at h
  · cases h
  · split at h
    · split at h
      · cases h
      · cases h
        rfl
    · cases h

/-- **Routers and replicas agree on a chain**: the tracked chain of a growing sequence is the chain
from scratch, and a router that dropped nothing counts at least what any remembered prompt
shares. -/
theorem chain_incremental_and_affine :
    (∀ (tracker : HashTracker) (requestId : RequestId) (tokenIds : List Token) (n m : Nat)
      (calls : List TrackCall), tracker.chains requestId = none →
      Growth requestId tokenIds n calls m →
      ((TrackCall.track requestId (tokenIds.take n) :: calls).foldl HashTracker.apply
        tracker).chains requestId = some (tracker.hashing.iterBlockHashes (tokenIds.take m))) ∧
    ∀ (dpSize blockSize indexCapacity : Nat) (hashSeed : Int) (policy : CacheAwarePolicy)
      (calls : List RouteCall),
      create dpSize blockSize hashSeed indexCapacity = .ok policy → policy.Unevicted calls →
      ∀ (replica : Nat) (prompt query : List Token), (replica, prompt) ∈ policy.remembered calls →
        sharedTokens query prompt / blockSize * blockSize ≤
          (calls.foldl apply policy).cachedTokens query replica := by
  refine ⟨fun tracker requestId tokenIds n m calls hfresh hgrowth => ?_,
    fun dpSize blockSize indexCapacity hashSeed policy calls hcreate hkept replica prompt query
      hprompt => ?_⟩
  · have hstart : (tracker.apply (.track requestId (tokenIds.take n))).chains requestId =
        some (tracker.hashing.iterBlockHashes (tokenIds.take n)) := by
      simp [HashTracker.apply, HashTracker.track, hfresh]
    have hrun := @Growth.chain _ _ _ _ _ _ hgrowth
      (tracker.apply (.track requestId (tokenIds.take n)))
      (by rw [HashTracker.apply_hashing]; exact hstart)
    rwa [HashTracker.apply_hashing] at hrun
  · obtain rfl := create_eq hcreate
    have hnone : policy.Knows [] := by simp [Knows]
    obtain ⟨hhashing, hknows⟩ := run_knows calls hnone hkept
    rw [List.nil_append] at hknows
    have hle := hknows.le_cachedTokens hprompt query
    rwa [hhashing] at hle

/-- Two tokens a block. -/
def pairHashing : BlockHashing := ⟨2, 7, Nat.succ_pos 1⟩

omit [BlockDigest] in
/-- A sequence that grew from two tokens to five, and a router that remembered it. -/
theorem chain_incremental_and_affine_pairs :
    ([TrackCall.track "a" [1, 2], .observe "a" [1, 2, 3, 4, 5]].foldl
        (@HashTracker.apply pairingDigest) { hashing := pairHashing }).chains "a" =
      some (@BlockHashing.iterBlockHashes pairingDigest pairHashing [1, 2, 3, 4, 5]) ∧
    sharedTokens [1, 2, 3, 9] [1, 2, 3, 4, 5] / 2 * 2 ≤
      @cachedTokens pairingDigest ([RouteCall.select 0 [1, 2, 3, 4, 5] "a"].foldl
        (@apply pairingDigest) { dpSize := 1, hashing := pairHashing, indexCapacity := 8 })
        [1, 2, 3, 9] 0 :=
  ⟨(@chain_incremental_and_affine pairingDigest).1 { hashing := pairHashing } "a" [1, 2, 3, 4, 5]
      2 5 [.observe "a" [1, 2, 3, 4, 5]] rfl (.observe (Nat.le_add_right 2 3) (.done 5)),
    (@chain_incremental_and_affine pairingDigest).2 1 2 8 7
      { dpSize := 1, hashing := pairHashing, indexCapacity := 8 }
      [.select 0 [1, 2, 3, 4, 5] "a"] rfl ⟨by decide, trivial⟩ 0 [1, 2, 3, 4, 5] [1, 2, 3, 9]
      (by simp [remembered, chosen, argmin])⟩

end CacheAwarePolicy

end RapidLlm
