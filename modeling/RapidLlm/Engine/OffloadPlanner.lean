import RapidLlm.Engine.KVOffload
import RapidLlm.Engine.BatchPlanner

/-!
# RapidLlm.Engine.OffloadPlanner

The planner of `engine/batch_planner.py` with its offloading tier: promotions of prefixes the
tier still holds, and the blocks it is handed as they are committed.

* The tier is whatever implements `OffloadingManager` (`kv_offload/base.py`), a class whose state
  is `σ`; `CopyingTier` is the CPU tier with the copies it submitted.
* `Promoting` holds the fields of the planner that only a tier uses. What a tier never touches
  (`_reserve`, `_preempt`, the stages that resume and decode) is the code of
  `Engine.BatchPlanner`.
* `_ready_promotes` is a deque of requests, `_promotion_by_blocks` a dict keyed by the
  destination blocks.
-/

namespace RapidLlm

/-- What the planner asks of an offloading tier (`OffloadingManager`). -/
class OffloadingManager (σ : Type) where
  lookup : σ → OffloadKey → Except Raised (LookupResult × σ)
  touch : σ → List OffloadKey → Except Raised σ
  prepareLoad : σ → List OffloadKey → List BlockId → Except Raised (Option LoadSpec × σ)
  prepareStore : σ → List (BlockId × OffloadKey) → Except Raised (StoreSpec × σ)
  takeEvents : σ → Except Raised (List OffloadEvent × σ)

/-- The CPU tier over a copier: `sync` is the stand-in that is done when `submit` returns, and
`landed` are the copies whose event has fired. -/
structure CopyingTier where
  tier : CPUTier
  sync : Bool := false
  nextEvent : Nat := 0
  landed : Finset Nat := ∅

namespace CopyingTier

/-- What the copier's next `submit` returns. -/
def ticket (m : CopyingTier) : Option Nat := if m.sync then none else some m.nextEvent

instance : OffloadingManager CopyingTier where
  lookup m key := .ok (m.tier.lookup key, m)
  touch m keys := do
    let tier ← m.tier.touch keys
    return { m with tier }
  prepareLoad m keys gpuBlocks := do
    let (spec, tier) ← m.tier.prepareLoad keys gpuBlocks m.ticket
    return (spec, { m with tier, nextEvent := m.nextEvent + 1 })
  prepareStore m entries := do
    let (spec, tier) ← m.tier.prepareStore entries m.ticket
    return (spec, { m with tier, nextEvent := m.nextEvent + 1 })
  takeEvents m := do
    let (events, tier) ← m.tier.takeEvents m.landed
    return (events, { m with tier })

end CopyingTier

/-- `_Promotion`: a request parked while its prefix is copied up. -/
structure Promotion where
  request : RequestRef
  gpuBlocks : List BlockId
  numTokens : Nat
  deriving DecidableEq, Repr

/-- The fields of a planner that its tier uses. -/
structure Promoting (σ : Type) where
  offloading : Option σ
  pendingPromotes : RequestId → Option Promotion := fun _ => none
  readyPromotes : List RequestRef := []
  dyingPromotes : RequestId → Option Promotion := fun _ => none
  promotionByBlocks : List BlockId → Option RequestId := fun _ => none

/-- The planner with its tier. -/
structure OffloadPlanner (σ : Type) extends BatchPlanner, Promoting σ

namespace OffloadPlanner

variable {σ : Type}

def create (config : SchedulerConfig) (numSlots : Nat) (numBlocks : Option Nat)
    (offloading : Option σ) : Except Raised (OffloadPlanner σ) := do
  let s ← BatchPlanner.create config numSlots numBlocks
  if offloading.isSome && !config.enablePrefixCache then
    throw (.valueError ("offloading keys blocks by their content hash, so it needs " ++
      "enable_prefix_cache=True"))
  return { toBatchPlanner := s, offloading }

def addRequest (p : OffloadPlanner σ) (request : Request) :
    Except Raised (RequestRef × OffloadPlanner σ) := do
  let (ref, s) ← p.toBatchPlanner.addRequest request
  return (ref, { p with toBatchPlanner := s })

/-! ### Promotions -/

/-- `_take_promotion`: pop the promotion whose copy lands in these blocks. -/
def takePromotion (p : OffloadPlanner σ) (gpuBlocks : List BlockId) :
    Option Promotion × OffloadPlanner σ :=
  if gpuBlocks.isEmpty then (none, p)
  else match p.promotionByBlocks gpuBlocks with
    | none => (none, p)
    | some rid =>
      let p := { p with promotionByBlocks := Function.update p.promotionByBlocks gpuBlocks none }
      match p.pendingPromotes rid with
      | some promotion =>
        (some promotion, { p with pendingPromotes := Function.update p.pendingPromotes rid none })
      | none =>
        (p.dyingPromotes rid, { p with dyingPromotes := Function.update p.dyingPromotes rid none })

/-- The counters of a request whose promoted prefix is readable. -/
def markPromoted (numTokens : Nat) (request : Request) : Request :=
  { request with numComputedTokens := numTokens, numCachedTokens := numTokens }

/-- One round of `_drain_offload_events`. -/
def landEvent (p : OffloadPlanner σ) (event : OffloadEvent) : Except Raised (OffloadPlanner σ) :=
  if event.kind ≠ .load then .ok p
  else match p.takePromotion event.gpuBlocks with
    | (none, p) => .ok p
    | (some promotion, p) =>
      let rid := (p.objects promotion.request).requestId
      if (p.objects promotion.request).status = .finished then do
        -- died mid-copy: its blocks were held back for this
        let prefixCache ← p.prefixCache.free rid
        return { p with prefixCache }
      else do
        let (_, prefixCache) ← p.prefixCache.commit rid promotion.numTokens
        let s := { p.toBatchPlanner with prefixCache }.modify promotion.request
          (markPromoted promotion.numTokens)
        return { p with
          toBatchPlanner := s
          readyPromotes := p.readyPromotes ++ [promotion.request] }

/-- `_drain_offload_events` -/
def drainOffloadEvents [OffloadingManager σ] (p : OffloadPlanner σ) :
    Except Raised (OffloadPlanner σ) :=
  match p.offloading with
  | none => .ok p
  | some tier => do
    let (events, tier) ← OffloadingManager.takeEvents tier
    events.foldlM landEvent { p with offloading := some tier }

/-- The loop of `_promote_ready` over the landed promotions, oldest first; returns those it
leaves. -/
def seatReady : List RequestRef → BatchPlanner → List RequestRef × BatchPlanner
  | [], s => ([], s)
  | ref :: rest, s =>
    match s.freeSlots with
    | [] => (ref :: rest, s)
    | slot :: freeSlots =>
      if s.running.length ≥ s.maxNumSeqs then (ref :: rest, s)
      else seatReady rest <|
        { s with freeSlots, running := s.running ++ [ref] }.modify ref
          fun request => { request with slot := some slot, status := .running }

/-- `_promote_ready` -/
def promoteReady (p : OffloadPlanner σ) : OffloadPlanner σ :=
  let (readyPromotes, s) := seatReady p.readyPromotes p.toBatchPlanner
  { p with toBatchPlanner := s, readyPromotes }

/-- `_retire_promotion`: whether the request's free must wait for its copy. -/
def retirePromotion (p : OffloadPlanner σ) (ref : RequestRef) : Bool × OffloadPlanner σ :=
  let rid := (p.objects ref).requestId
  match p.pendingPromotes rid with
  | some promotion =>
    (true, { p with
      pendingPromotes := Function.update p.pendingPromotes rid none
      dyingPromotes := Function.update p.dyingPromotes rid (some promotion)
      promotionByBlocks := Function.update p.promotionByBlocks promotion.gpuBlocks (some rid) })
  | none =>
    (false, { p with readyPromotes := p.readyPromotes.filter fun candidate => candidate ≠ ref })

/-- The loop of `_try_start_promotion` over the chain from `index` on: the keys the tier holds,
up to the first it does not. -/
def probe [OffloadingManager σ] (hashes : List BlockHash) :
    Nat → Nat → σ → Except Raised (List OffloadKey × σ)
  | 0, _, tier => .ok ([], tier)
  | count + 1, index, tier =>
    match hashes[index]? with
    | none => .error (.indexError "list index out of range")
    | some key => do
      let (result, tier) ← OffloadingManager.lookup tier key
      if result ≠ .hit then return ([], tier)
      else
        let (keys, tier) ← probe hashes count (index + 1) tier
        return (key :: keys, tier)

/-- `prefixCache.track` for a request of the planner. -/
def retrack [BlockDigest] (s : BatchPlanner) (ref : RequestRef) : BatchPlanner :=
  { s with prefixCache :=
      (s.prefixCache.track (s.objects ref).requestId (s.objects ref).promptTokenIds).2 }

/-- `_try_start_promotion` past its probe: `keys` extend the match `hit`. -/
def startPromotion [OffloadingManager σ] [BlockDigest] (o : Promoting σ) (tier : σ)
    (s : BatchPlanner) (ref : RequestRef) (keys : List OffloadKey) (hit : PrefixMatch) :
    Except Raised (Bool × Promoting σ × BatchPlanner) := do
  let rid := (s.objects ref).requestId
  let start := hit.numTokens / prefixCacheBlockSize
  let numTokens := (start + keys.length) * prefixCacheBlockSize
  let (granted, prefixCache) ← s.prefixCache.allocate rid numTokens (some hit)
  let s := { s with prefixCache }
  if !granted then return (false, { o with offloading := some tier }, s)
  else
    let resident := s.prefixCache.coordinator.blocksOf rid
    let gpuBlocks := (resident.drop start).take keys.length
    let (spec, tier) ← OffloadingManager.prepareLoad tier keys gpuBlocks
    let o := { o with offloading := some tier }
    if spec.isNone then
      -- a block was evicted between the probe and the pin: back to the plain path
      let s ← s.freeBlocks rid
      return (false, o, retrack s ref)
    else
      return (true, { o with
        pendingPromotes :=
          Function.update o.pendingPromotes rid (some { request := ref, gpuBlocks, numTokens })
        promotionByBlocks := Function.update o.promotionByBlocks gpuBlocks (some rid) }, s)

/-- `_try_start_promotion`: park a candidate while its prefix is copied into fresh blocks. -/
def tryStartPromotion [OffloadingManager σ] [BlockDigest] (o : Promoting σ) (s : BatchPlanner)
    (ref : RequestRef) (hashes : List BlockHash) (hit : PrefixMatch) :
    Except Raised (Bool × Promoting σ × BatchPlanner) :=
  match o.offloading with
  | none => .ok (false, o, s)
  | some tier => do
    let start := hit.numTokens / prefixCacheBlockSize
    -- at least one token must still run: it produces the first logits
    let limit := ((s.objects ref).promptLen - 1) / prefixCacheBlockSize
    let (keys, tier) ← probe hashes (limit - start) start tier
    if keys.isEmpty then return (false, { o with offloading := some tier }, s)
    else startPromotion o tier s ref keys hit

section

variable [OffloadingManager σ] [BlockDigest]

/-! ### Registration, retirement -/

/-- Hash, index, and mirror down whatever full blocks are now computed. -/
def commit (p : OffloadPlanner σ) (ref : RequestRef) (upto : Nat) :
    Except Raised (OffloadPlanner σ) := do
  let request := p.objects ref
  let rid := request.requestId
  let cache := if upto / prefixCacheBlockSize > (p.prefixCache.blockHashes rid).length then
      p.prefixCache.observe rid request.tokens
    else p.prefixCache
  let (fresh, prefixCache) ← cache.commit rid upto
  let p := { p with prefixCache }
  match p.offloading with
  | none => return p
  | some tier =>
    if fresh.isEmpty then return p
    else
      let (_, tier) ← OffloadingManager.prepareStore tier fresh
      return { p with offloading := some tier }

/-- One entry of `_commit_pending_blocks`. -/
def commitEntry (p : OffloadPlanner σ) (entry : RequestRef × Nat) :
    Except Raised (OffloadPlanner σ) :=
  if (p.objects entry.1).status = .running then p.commit entry.1 entry.2 else .ok p

/-- `_commit_pending_blocks` -/
def commitPendingBlocks (p : OffloadPlanner σ) : Except Raised (OffloadPlanner σ) := do
  let p ← p.pendingBlocks.foldlM commitEntry p
  return { p with pendingBlocks := [] }

/-- One entry of `_settle_pending_blocks`. -/
def settleEntry (ref : RequestRef) (p : OffloadPlanner σ) (entry : RequestRef × Nat) :
    Except Raised (OffloadPlanner σ) :=
  if entry.1 = ref then p.commit entry.1 entry.2 else .ok p

/-- `_settle_pending_blocks` -/
def settlePendingBlocks (p : OffloadPlanner σ) (ref : RequestRef) :
    Except Raised (OffloadPlanner σ) := do
  let kept := p.pendingBlocks.filter fun entry => entry.1 ≠ ref
  let p ← p.pendingBlocks.foldlM (settleEntry ref) p
  return { p with pendingBlocks := kept }

/-- The end of a retirement: the blocks go back, unless a copy is still landing in them. -/
def releaseRetired (p : OffloadPlanner σ) (ref : RequestRef) : Except Raised (OffloadPlanner σ) :=
  match p.retirePromotion ref with
  | (true, p) => .ok p
  | (false, p) => do
    let s ← p.toBatchPlanner.freeBlocks (p.objects ref).requestId
    return { p with toBatchPlanner := s }

/-- `finish` -/
def finish (p : OffloadPlanner σ) (ref : RequestRef) (reason : FinishReason) :
    Except Raised (OffloadPlanner σ) := do
  let request := p.objects ref
  if request.status = .finished then return p
  let freeSlots := match request.slot with
    | some slot => slot :: p.freeSlots
    | none => p.freeSlots
  let s := { p.toBatchPlanner with freeSlots }.modify ref fun request =>
    { request with status := .finished, finishReason := some reason, slot := none }
  let p ← (if request.status = .running then
      { p with toBatchPlanner := { s with running := s.running.erase ref } }.settlePendingBlocks ref
    else pure { p with toBatchPlanner := s.popWaiting request.requestId } :
      Except Raised (OffloadPlanner σ))
  let p ← p.releaseRetired ref
  if p.requests request.requestId = some ref then
    return { p with requests := Function.update p.requests request.requestId none }
  else return p

/-- `abort` -/
def abort (p : OffloadPlanner σ) (requestId : RequestId) :
    Except Raised (Option RequestRef × OffloadPlanner σ) :=
  match p.requests requestId with
  | none => .ok (none, p)
  | some ref =>
    if (p.objects ref).status = .waiting then do
      let s := (p.popWaiting requestId).modify ref fun request =>
        { request with status := .finished, finishReason := some .abort }
      let p ← { p with toBatchPlanner := s }.releaseRetired ref
      return (some ref, { p with requests := Function.update p.requests requestId none })
    else do
      let p ← p.finish ref .abort
      return (some ref, p)

/-! ### Planning -/

/-- The gates of one round of `_admit`, past the offer of a promotion. -/
def admitGated (state : BatchPlanner.PlanState) (ref : RequestRef) (hit : PrefixMatch)
    (longest : Nat) : Except Raised (BatchPlanner.PlanState × Option Nat) :=
  let planner := state.planner
  let padded := max longest (planner.chunkOf (planner.objects ref) 0) * (state.prefill.length + 1)
  if planner.running.length ≥ planner.maxNumSeqs then .ok (state, none)
  else if !state.prefill.isEmpty && padded > planner.config.maxNumBatchedTokens then
    .ok (state, none)
  else if planner.freeSlots.isEmpty then do
    match ← planner.maybePreempt (state.prefill.map Prod.fst) with
    | (none, planner) => return ({ state with planner }, none)
    | (some victim, planner) =>
      BatchPlanner.admitInto { state with planner, preempted := state.preempted ++ [victim] }
        ref hit longest
  else BatchPlanner.admitInto state ref hit longest

/-- A GPU hit keeps the tier's copies of its blocks off the eviction front. -/
def touchHit (o : Promoting σ) (hashes : List BlockHash) (hit : PrefixMatch) :
    Except Raised (Promoting σ) :=
  match o.offloading with
  | none => .ok o
  | some tier =>
    if hit.numTokens = 0 then .ok o
    else do
      let tier ← OffloadingManager.touch tier (hashes.take (hit.numTokens / prefixCacheBlockSize))
      return { o with offloading := some tier }

/-- One round of `_admit` for the request at the head of the queue. The last component is the
widest chunk so far when the loop goes on. -/
def admitCandidate (o : Promoting σ) (state : BatchPlanner.PlanState) (ref : RequestRef)
    (longest : Nat) : Except Raised (Promoting σ × BatchPlanner.PlanState × Option Nat) := do
  let request := state.planner.objects ref
  let (hashes, prefixCache) :=
    state.planner.prefixCache.track request.requestId request.promptTokenIds
  let hit := prefixCache.lookup hashes request.promptLen
  let planner := { state.planner with prefixCache }
  let o ← touchHit o hashes hit
  let (started, o, planner) ← tryStartPromotion o planner ref hashes hit
  if started then
    -- the copy consumes no seat, slot or token budget: the gates below are not for it
    return (o, { state with planner := planner.popWaiting request.requestId },
      if state.preempted.isEmpty then some longest else none)
  else
    let (state, next) ← admitGated { state with planner } ref hit longest
    return (o, state, next)

/-- The loop of `_admit`. -/
def admitLoop : Nat → Promoting σ → BatchPlanner.PlanState → Nat →
    Except Raised (Promoting σ × BatchPlanner.PlanState)
  | 0, _, _, _ => throw .loopBound
  | bound + 1, o, state, longest =>
    match state.planner.waiting with
    | [] => .ok (o, state)
    | ref :: _ => do
      match ← admitCandidate o state ref longest with
      | (o, state, none) => return (o, state)
      | (o, state, some longest) => admitLoop bound o state longest

/-- `_admit` -/
def admitWaiting (o : Promoting σ) (state : BatchPlanner.PlanState) :
    Except Raised (Promoting σ × BatchPlanner.PlanState) :=
  if BatchPlanner.deferAdmission state then
    .ok (o, { state with planner := { state.planner with
      deferredSteps := state.planner.deferredSteps + 1 } })
  else
    admitLoop (state.planner.waiting.length + 1) o
      { state with planner := { state.planner with deferredSteps := 0 } }
      ((state.prefill.map Prod.snd).foldl max 0)

/-- Everything `plan` does before stage 1. -/
def beforeStages (p : OffloadPlanner σ) : Except Raised (OffloadPlanner σ) := do
  let p ← p.drainOffloadEvents
  p.promoteReady.commitPendingBlocks

/-- Stage 1, from the first position of the running list up to the `n`-th. -/
def resumeUpTo (s : BatchPlanner) (n : Nat) : Except Raised BatchPlanner.PlanState :=
  (List.range n).foldlM BatchPlanner.resumeAt { planner := s }

/-- Decide this step's work: chunked prefill and the decode batch. -/
def plan (p : OffloadPlanner σ) : Except Raised (StepPlan × OffloadPlanner σ) := do
  let p ← p.beforeStages
  let state ← resumeUpTo p.toBatchPlanner p.running.length
  let (o, state) ← admitWaiting p.toPromoting state
  let decode := BatchPlanner.decodeRows state
  let state ← decode.foldlM BatchPlanner.growRow state
  let decode := if state.preempted.isEmpty then decode
    else decode.filter fun ref => (state.planner.objects ref).status = .running
  return ({ prefill := state.prefill, decode, preempted := state.preempted },
    { toBatchPlanner := state.planner, toPromoting := o })

end

end OffloadPlanner

end RapidLlm
