import Mathlib.Data.Rat.Defs
import RapidLlm.Engine.PrefixCache

/-!
# RapidLlm.Engine.BatchPlanner

Request scheduling (`engine/batch_planner.py`) without an offloading tier: what one
call of each method of the planner computes.

* Python mutates `Request` objects and compares them by identity. Here an object is
  a `RequestRef` and `objects` says what every object holds, so that a queue of
  requests is a list of references.
* `_waiting` is an ordered map keyed by request id; it is the list of its values, and
  popping a key drops the requests with that id.
* `_free_slots` is a stack; its top is the head of the list.
* The parallel lists `prefill` and `prefill_chunk_lens` are one list of pairs.
* `while` loops take a bound: `_reserve` evicts somebody each time round, `_admit`
  takes one request off the queue, and `Raised.loopBound` is never returned.

Timestamps, log-probability records, `num_preemptions` and the prompt text are left
out: no decision of the planner reads them.
-/

namespace RapidLlm

/-- Where a request sits in its lifecycle. -/
inductive RequestStatus
  | waiting
  | running
  | finished
  deriving DecidableEq, Repr

/-- Why a request ended. -/
inductive FinishReason
  | eos
  | length
  | repeat
  | abort
  | invalid
  deriving DecidableEq, Repr

/-- Decoding hyper-parameters for one request, as its constructor accepts them. -/
structure SamplingParams where
  temperature : ℚ := 3 / 5
  maxGenLen : Option Nat := none
  repetitionPenalty : ℚ := 11 / 10
  stopOnRepeat : Bool := true
  logprobs : Option Nat := none
  temperature_nonneg : 0 ≤ temperature := by decide +kernel
  maxGenLen_pos : maxGenLen ≠ some 0 := by decide
  penalty_pos : 0 < repetitionPenalty := by decide +kernel

namespace SamplingParams

/-- What a request that states nothing is decoded with. -/
def standard : SamplingParams := {}

/-- `is_greedy`. -/
def isGreedy (params : SamplingParams) : Bool := params.temperature = 0

end SamplingParams

/-- One generation request, from arrival to completion. -/
structure Request where
  requestId : RequestId
  promptTokenIds : List Token
  params : SamplingParams
  maxNewTokens : Int := 0
  numComputedTokens : Nat := 0
  status : RequestStatus := .waiting
  slot : Option Nat := none
  outputTokenIds : List Token := []
  text : List Char := []
  delta : List Char := []
  finishReason : Option FinishReason := none
  numCachedTokens : Nat := 0
  blockPlan : List TableWrite := []
  pendingTokens : Int := 0

namespace Request

def promptLen (request : Request) : Nat := request.promptTokenIds.length

/-- The prompt and what was generated, in order. -/
def tokens (request : Request) : List Token := request.promptTokenIds ++ request.outputTokenIds

/-- Tokens currently in this request's KV cache. -/
def seqLen (request : Request) : Nat :=
  request.promptTokenIds.length + request.outputTokenIds.length

def isFinished (request : Request) : Bool := request.status = .finished

/-- Whether the generation cap still allows another token. -/
def hasRoom (request : Request) : Bool :=
  (request.outputTokenIds.length : Int) < request.maxNewTokens

/-- Whether the whole prompt is in the cache, i.e. decode may proceed. -/
def prefillDone (request : Request) : Bool := request.numComputedTokens ≥ request.promptLen

end Request

/-- `SchedulerConfig`, as `__post_init__` leaves it: the limits it enforces are fields. -/
structure SchedulerConfig where
  maxSeqLen : Nat
  maxNumSeqs : Nat
  maxNumBatchedTokens : Nat
  enableChunkedPrefill : Bool
  maxChunkSize : Nat
  enablePrefixCache : Bool
  prefixCacheBlocks : Option Nat
  enablePreemption : Bool
  decodeWindowSteps : Nat
  two_le_maxSeqLen : 2 ≤ maxSeqLen
  one_le_maxNumSeqs : 1 ≤ maxNumSeqs
  one_le_maxNumBatchedTokens : 1 ≤ maxNumBatchedTokens
  chunk_pos : enableChunkedPrefill = true → 1 ≤ maxChunkSize
  whole_prompt_fits : enableChunkedPrefill = false → maxSeqLen ≤ maxNumBatchedTokens
  two_le_blocks : ∀ n, prefixCacheBlocks = some n → 2 ≤ n

/-- A `Request` object, by identity. -/
abbrev RequestRef := Nat

/-- What one engine step should run. `prefill` pairs each request with its chunk. -/
structure StepPlan where
  prefill : List (RequestRef × Nat) := []
  decode : List RequestRef := []
  preempted : List RequestRef := []
  deriving DecidableEq, Repr

/-- FCFS admission with chunked prefill and preemption. `objects` holds every request ever
submitted, the first `numObjects` references being in use. -/
structure BatchPlanner where
  config : SchedulerConfig
  numSlots : Nat
  maxNumSeqs : Nat
  objects : RequestRef → Request
  numObjects : Nat
  waiting : List RequestRef
  running : List RequestRef
  requests : RequestId → Option RequestRef
  freeSlots : List Nat
  prefixCache : PrefixCache
  pendingBlocks : List (RequestRef × Nat)
  deferredSteps : Nat

/-- The request a caller builds: everything but its identity, prompt and parameters is at
its default. -/
def Request.new (requestId : RequestId) (promptTokenIds : List Token) (params : SamplingParams) :
    Request :=
  { requestId, promptTokenIds, params }

namespace BatchPlanner

/-- `_default_num_blocks`: enough blocks for every slot to hold a full context. -/
def defaultNumBlocks (config : SchedulerConfig) (numSlots : Nat) : Nat :=
  max 2 (numSlots * config.maxSeqLen / prefixCacheBlockSize + 1)

/-- `config.prefix_cache_blocks or num_blocks or default`; Python's `or` skips a zero. -/
def poolSize (config : SchedulerConfig) (numSlots : Nat) (numBlocks : Option Nat) : Nat :=
  match config.prefixCacheBlocks with
  | some n => n
  | none => match numBlocks with
    | some (n + 1) => n + 1
    | _ => defaultNumBlocks config numSlots

def create (config : SchedulerConfig) (numSlots : Nat) (numBlocks : Option Nat) :
    Except Raised BatchPlanner :=
  if numSlots < 1 then .error (.valueError s!"need at least one cache slot, got {numSlots}")
  else do
    let prefixCache ←
      PrefixCache.create (poolSize config numSlots numBlocks) config.enablePrefixCache
    return { config, numSlots
             maxNumSeqs := if config.enablePreemption then config.maxNumSeqs
               else min config.maxNumSeqs numSlots
             objects := fun _ => Request.new "" [] .standard, numObjects := 0
             waiting := [], running := [], requests := fun _ => none
             freeSlots := List.range numSlots, prefixCache, pendingBlocks := []
             deferredSteps := 0 }

/-- Overwrite fields of one request object. -/
def modify (planner : BatchPlanner) (ref : RequestRef) (change : Request → Request) :
    BatchPlanner :=
  { planner with objects := Function.update planner.objects ref (change (planner.objects ref)) }

/-! ### The queue -/

/-- `min(requested, room) if requested else room`. -/
def resolveCap (requested : Option Nat) (room : Nat) : Nat :=
  match requested with
  | some requested => if requested = 0 then room else min requested room
  | none => room

/-- Queue a request, resolving its generation cap against the context window. -/
def addRequest (planner : BatchPlanner) (request : Request) :
    Except Raised (RequestRef × BatchPlanner) :=
  let limit := planner.config.maxSeqLen
  if (planner.requests request.requestId).isSome then
    .error (.valueError s!"request id '{request.requestId}' is already active")
  else if request.status ≠ .waiting ∨ request.slot.isSome then
    .error (.valueError "only a fresh waiting request can be submitted")
  else if request.promptLen = 0 then
    .error (.valueError s!"request {request.requestId} has an empty prompt")
  else if request.promptLen ≥ limit then
    .error (.valueError (s!"request {request.requestId} prompt length {request.promptLen} " ++
      s!"leaves no room under max_seq_len {limit}"))
  else
    let room := limit - request.promptLen
    let maxNewTokens := resolveCap request.params.maxGenLen room
    let ref := planner.numObjects
    .ok (ref, { planner with
      objects := Function.update planner.objects ref { request with maxNewTokens := maxNewTokens }
      numObjects := ref + 1
      requests := Function.update planner.requests request.requestId (some ref)
      waiting := planner.waiting ++ [ref] })

/-- Drop the request with this id from the queue. -/
def popWaiting (planner : BatchPlanner) (requestId : RequestId) : BatchPlanner :=
  { planner with
    waiting := planner.waiting.filter fun ref => (planner.objects ref).requestId ≠ requestId }

/-- `_prefix_cache.free`. -/
def freeBlocks (planner : BatchPlanner) (requestId : RequestId) : Except Raised BatchPlanner := do
  let prefixCache ← planner.prefixCache.free requestId
  return { planner with prefixCache }

section

variable [BlockDigest]

/-! ### Registration of computed blocks -/

/-- Hash and index whatever full blocks of a request are now computed. -/
def commit (planner : BatchPlanner) (ref : RequestRef) (upto : Nat) : Except Raised BatchPlanner := do
  let request := planner.objects ref
  let rid := request.requestId
  -- generated tokens completed a block: extend the chain over them
  let cache := if upto / prefixCacheBlockSize > (planner.prefixCache.blockHashes rid).length then
      planner.prefixCache.observe rid request.tokens
    else planner.prefixCache
  let (_, prefixCache) ← cache.commit rid upto
  return { planner with prefixCache }

/-- One entry of `_commit_pending_blocks`. -/
def commitEntry (planner : BatchPlanner) (entry : RequestRef × Nat) : Except Raised BatchPlanner :=
  if (planner.objects entry.1).status = .running then planner.commit entry.1 entry.2
  else .ok planner

/-- Index the blocks last step's passes actually filled. -/
def commitPendingBlocks (planner : BatchPlanner) : Except Raised BatchPlanner := do
  let planner ← planner.pendingBlocks.foldlM commitEntry planner
  return { planner with pendingBlocks := [] }

/-- One entry of `_settle_pending_blocks`. -/
def settleEntry (ref : RequestRef) (planner : BatchPlanner) (entry : RequestRef × Nat) :
    Except Raised BatchPlanner :=
  if entry.1 = ref then planner.commit entry.1 entry.2 else .ok planner

/-- Cash in a retiring request's registration instead of discarding it. -/
def settlePendingBlocks (planner : BatchPlanner) (ref : RequestRef) :
    Except Raised BatchPlanner := do
  let kept := planner.pendingBlocks.filter fun entry => entry.1 ≠ ref
  let planner ← planner.pendingBlocks.foldlM (settleEntry ref) planner
  return { planner with pendingBlocks := kept }

/-- Queue a registration for the rows the step just planned will write. -/
def trackPending (planner : BatchPlanner) (ref : RequestRef) (upto : Nat) : BatchPlanner :=
  { planner with pendingBlocks := planner.pendingBlocks ++ [(ref, upto)] }

/-- Record the block-table entries the executor owes a request. -/
def mapBlocks (planner : BatchPlanner) (ref : RequestRef) : BatchPlanner :=
  let (writes, prefixCache) :=
    planner.prefixCache.takeTableWrites (planner.objects ref).requestId
  { planner with prefixCache }.modify ref fun request => { request with blockPlan := writes }

/-! ### Retirement and preemption -/

/-- Retire a request and release whatever resources it holds. -/
def finish (planner : BatchPlanner) (ref : RequestRef) (reason : FinishReason) :
    Except Raised BatchPlanner := do
  let request := planner.objects ref
  if request.status = .finished then return planner
  let freeSlots := match request.slot with
    | some slot => slot :: planner.freeSlots
    | none => planner.freeSlots
  let planner := { planner with freeSlots }.modify ref fun request =>
    { request with status := .finished, finishReason := some reason, slot := none }
  let planner ← (if request.status = .running then
      { planner with running := planner.running.erase ref }.settlePendingBlocks ref
    else pure (planner.popWaiting request.requestId) : Except Raised BatchPlanner)
  let planner ← planner.freeBlocks request.requestId
  if planner.requests request.requestId = some ref then
    return { planner with
      requests := Function.update planner.requests request.requestId none }
  else return planner

/-- Drop a request wherever it is; `none` if unknown. -/
def abort (planner : BatchPlanner) (requestId : RequestId) :
    Except Raised (Option RequestRef × BatchPlanner) :=
  match planner.requests requestId with
  | none => .ok (none, planner)
  | some ref =>
    if (planner.objects ref).status = .waiting then do
      let planner := (planner.popWaiting requestId).modify ref fun request =>
        { request with status := .finished, finishReason := some .abort }
      let planner ← planner.freeBlocks requestId
      return (some ref, { planner with
        requests := Function.update planner.requests requestId none })
    else do
      let planner ← planner.finish ref .abort
      return (some ref, planner)

/-- The fields `_preempt` resets: the generated tokens move into the prompt and the cap
shrinks by as many. -/
def evict (request : Request) : Request :=
  { request with
    slot := none, status := .waiting, numComputedTokens := 0, numCachedTokens := 0
    blockPlan := [], pendingTokens := 0
    promptTokenIds := request.promptTokenIds ++ request.outputTokenIds
    outputTokenIds := []
    maxNewTokens := request.maxNewTokens - request.outputTokenIds.length }

/-- Evict a running request back to the head of the queue. -/
def preempt (planner : BatchPlanner) (ref : RequestRef) : Except Raised BatchPlanner := do
  let request := planner.objects ref
  let freeSlots := match request.slot with
    | some slot => slot :: planner.freeSlots
    | none => planner.freeSlots
  let planner := { planner with
    freeSlots, pendingBlocks := planner.pendingBlocks.filter fun entry => entry.1 ≠ ref }
  let planner ← planner.freeBlocks request.requestId
  let planner := planner.modify ref evict
  return { planner with
    running := planner.running.erase ref
    waiting := ref :: (planner.popWaiting request.requestId).waiting }

/-- Evict the youngest running request that is past prefill, has generated something and
is not granted work yet this step. -/
def preemptVictim (planner : BatchPlanner) (protect : List RequestRef) :
    Except Raised (Option RequestRef × BatchPlanner) :=
  match planner.running.reverse.find? fun ref =>
      (planner.objects ref).prefillDone && !protect.contains ref &&
        !(planner.objects ref).outputTokenIds.isEmpty with
  | none => .ok (none, planner)
  | some victim => do
    let planner ← planner.preempt victim
    return (some victim, planner)

/-- The policy gate: eviction to buy concurrency, where the deployment allows it. -/
def maybePreempt (planner : BatchPlanner) (protect : List RequestRef) :
    Except Raised (Option RequestRef × BatchPlanner) :=
  if planner.config.enablePreemption then planner.preemptVictim protect
  else .ok (none, planner)

/-- `_prefix_cache.allocate` with no match: grow a request's coverage. -/
def allocate (planner : BatchPlanner) (ref : RequestRef) (numTokens : Nat) :
    Except Raised (Bool × BatchPlanner) := do
  let (granted, prefixCache) ←
    planner.prefixCache.allocate (planner.objects ref).requestId numTokens none
  return (granted, { planner with prefixCache })

/-- The `while True` of `_reserve`: evict somebody, try again. -/
def reserveLoop (ref : RequestRef) (numTokens : Nat) (protect : List RequestRef) :
    Nat → BatchPlanner → List RequestRef → Except Raised (Bool × BatchPlanner × List RequestRef)
  | 0, _, _ => throw .loopBound
  | bound + 1, planner, victims => do
    match ← planner.preemptVictim protect with
    | (none, planner) => return (false, planner, victims)
    | (some victim, planner) =>
      let (granted, planner) ← planner.allocate ref numTokens
      if granted then return (true, planner, victims ++ [victim])
      else reserveLoop ref numTokens protect bound planner (victims ++ [victim])

/-- Grow a request's block coverage to `numTokens`, evicting if it must. -/
def reserve (planner : BatchPlanner) (ref : RequestRef) (numTokens : Nat)
    (protect victims : List RequestRef) :
    Except Raised (Bool × BatchPlanner × List RequestRef) := do
  let (granted, planner) ← planner.allocate ref numTokens
  if granted then return (true, planner, victims)
  else reserveLoop ref numTokens (ref :: protect) (planner.running.length + 1) planner victims

/-! ### Planning -/

/-- A mapping belongs to the step that created it. -/
def dropPlan (request : Request) : Request := { request with blockPlan := [] }

/-- Next chunk to run, chunk- and budget-capped, from `computed` tokens on. -/
def chunkOf (planner : BatchPlanner) (request : Request) (computed : Nat) : Nat :=
  let remaining := request.promptLen - computed
  if planner.config.enableChunkedPrefill then
    min remaining (min planner.config.maxChunkSize planner.config.maxNumBatchedTokens)
  else remaining

/-- The planner halfway through `plan`, with the work granted so far. -/
structure PlanState where
  planner : BatchPlanner
  prefill : List (RequestRef × Nat) := []
  decode : List RequestRef := []
  preempted : List RequestRef := []

/-- Requests already granted work this step. -/
def PlanState.granted (state : PlanState) : List RequestRef :=
  state.prefill.map Prod.fst ++ state.decode

/-- Stage 1, at position `index` of the running list: resume the request if its prefill is
still in flight. -/
def resumeAt (state : PlanState) (index : Nat) : Except Raised PlanState :=
  match state.planner.running[index]? with
  | none => .ok state
  | some ref =>
    if (state.planner.objects ref).prefillDone then .ok state
    else do
      let planner := state.planner.modify ref dropPlan
      let chunk := planner.chunkOf (planner.objects ref) (planner.objects ref).numComputedTokens
      let reach := (planner.objects ref).numComputedTokens + chunk
      let (granted, planner, preempted) ←
        planner.reserve ref reach state.granted state.preempted
      if granted then
        let planner := planner.modify ref fun request =>
          { request with numComputedTokens := reach }
        let planner := (planner.mapBlocks ref).trackPending ref reach
        return { state with planner, preempted, prefill := state.prefill ++ [(ref, chunk)] }
      else
        -- no blocks and nobody to evict: the request keeps its slot and retries next step
        return { state with planner, preempted }

/-- Whether this step stays pure-decode instead of admitting new prefills. -/
def deferAdmission (state : PlanState) : Bool :=
  let planner := state.planner
  let window := planner.config.decodeWindowSteps
  if window = 0 || planner.waiting.isEmpty || !state.prefill.isEmpty then false
  else if planner.deferredSteps ≥ window then false
  else planner.running.any fun ref => (planner.objects ref).prefillDone

/-- Seat a request whose blocks are allocated. -/
def seat (planner : BatchPlanner) (ref : RequestRef) (hit : PrefixMatch) (chunk : Nat) :
    Except Raised BatchPlanner :=
  match planner.freeSlots with
  | [] => .error (.indexError "pop from empty list")
  | slot :: freeSlots =>
    let planner := planner.popWaiting (planner.objects ref).requestId
    let planner := { planner with freeSlots, running := planner.running ++ [ref] }.modify ref
      fun request => { request with
        slot := some slot, status := .running, numCachedTokens := hit.numTokens
        numComputedTokens := hit.numTokens + chunk }
    .ok ((planner.mapBlocks ref).trackPending ref (hit.numTokens + chunk))

/-- The end of one round of `_admit`, past its gates: blocks, then a seat. The second
component is the widest chunk so far when the loop goes on. -/
def admitInto (state : PlanState) (ref : RequestRef) (hit : PrefixMatch) (longest : Nat) :
    Except Raised (PlanState × Option Nat) := do
  let planner := state.planner
  let request := planner.objects ref
  let chunk := planner.chunkOf request hit.numTokens
  let (granted, prefixCache) ←
    planner.prefixCache.allocate request.requestId (hit.numTokens + chunk) (some hit)
  let planner := { planner with prefixCache }
  if granted then
    let planner ← planner.seat ref hit chunk
    return ({ state with planner, prefill := state.prefill ++ [(ref, chunk)] },
      if state.preempted.isEmpty then some (max longest chunk) else none)
  else
    let planner ← planner.freeBlocks request.requestId
    let (victim, planner) ← planner.maybePreempt (state.prefill.map Prod.fst)
    return ({ state with planner, preempted := state.preempted ++ victim.toList }, none)

/-- One round of `_admit` for the request at the head of the queue. -/
def admitCandidate (state : PlanState) (ref : RequestRef) (longest : Nat) :
    Except Raised (PlanState × Option Nat) :=
  let request := state.planner.objects ref
  let (hashes, prefixCache) :=
    state.planner.prefixCache.track request.requestId request.promptTokenIds
  let hit := prefixCache.lookup hashes request.promptLen
  let planner := { state.planner with prefixCache }
  -- priced from progress zero: how much the cache covers is only known once admitted
  let padded := max longest (planner.chunkOf request 0) * (state.prefill.length + 1)
  if planner.running.length ≥ planner.maxNumSeqs then .ok ({ state with planner }, none)
  else if !state.prefill.isEmpty && padded > planner.config.maxNumBatchedTokens then
    .ok ({ state with planner }, none)
  else if planner.freeSlots.isEmpty then do
    match ← planner.maybePreempt (state.prefill.map Prod.fst) with
    | (none, planner) => return ({ state with planner }, none)
    | (some victim, planner) =>
      admitInto { state with planner, preempted := state.preempted ++ [victim] } ref hit longest
  else admitInto { state with planner } ref hit longest

/-- The loop of `_admit`. -/
def admitLoop : Nat → PlanState → Nat → Except Raised PlanState
  | 0, _, _ => throw .loopBound
  | bound + 1, state, longest =>
    match state.planner.waiting with
    | [] => .ok state
    | ref :: _ => do
      match ← admitCandidate state ref longest with
      | (state, none) => return state
      | (state, some longest) => admitLoop bound state longest

/-- Admit waiting requests, committing their first chunk (or whole prompt). -/
def admitWaiting (state : PlanState) : Except Raised PlanState :=
  if deferAdmission state then
    .ok { state with planner := { state.planner with
      deferredSteps := state.planner.deferredSteps + 1 } }
  else
    admitLoop (state.planner.waiting.length + 1)
      { state with planner := { state.planner with deferredSteps := 0 } }
      ((state.prefill.map Prod.snd).foldl max 0)

/-- One row of `_grow_decode`: reserve the block its token will be written into. -/
def growRow (state : PlanState) (ref : RequestRef) : Except Raised PlanState := do
  if (state.planner.objects ref).status ≠ .running then return state
  let limit := state.planner.config.maxSeqLen
  let planner := state.planner.modify ref dropPlan
  let request := planner.objects ref
  let reach := min ((request.seqLen : Int) + request.pendingTokens + 1) limit
  let (granted, planner, preempted) ←
    planner.reserve ref reach.toNat state.granted state.preempted
  if granted then
    let planner := (planner.mapBlocks ref).trackPending ref (min request.seqLen limit)
    return { state with planner, preempted, decode := state.decode ++ [ref] }
  else
    let planner ← planner.preempt ref
    return { state with planner, preempted := preempted ++ [ref] }

/-- Stage 3: the requests that finished prefill before this step. -/
def decodeRows (state : PlanState) : List RequestRef :=
  let justPrefilled := (state.prefill.map Prod.fst).filter fun ref =>
    (state.planner.objects ref).prefillDone
  state.planner.running.filter fun ref =>
    (state.planner.objects ref).prefillDone && !justPrefilled.contains ref

/-- Decide this step's work: chunked prefill and the decode batch. -/
def plan (planner : BatchPlanner) : Except Raised (StepPlan × BatchPlanner) := do
  let planner ← planner.commitPendingBlocks
  let state ← (List.range planner.running.length).foldlM resumeAt { planner }
  let state ← admitWaiting state
  let decode := decodeRows state
  let state ← decode.foldlM growRow state
  -- rows that could not be grown were preempted and drop out of the batch
  let decode := if state.preempted.isEmpty then decode
    else decode.filter fun ref => (state.planner.objects ref).status = .running
  return ({ prefill := state.prefill, decode, preempted := state.preempted }, state.planner)

/-- The loop of `reserve_speculative`, from `fit` rows down. -/
def reserveFit (planner : BatchPlanner) (ref : RequestRef) : Nat → Except Raised (Nat × BatchPlanner)
  | 0 => .ok (0, planner)
  | fit + 1 => do
    let (granted, planner) ← planner.allocate ref ((planner.objects ref).seqLen + (fit + 1))
    if granted then
      let (writes, prefixCache) :=
        planner.prefixCache.takeTableWrites (planner.objects ref).requestId
      -- append, never replace: the decode plan's mappings have not reached the device yet
      return (fit + 1, { planner with prefixCache }.modify ref fun request =>
        { request with blockPlan := request.blockPlan ++ writes })
    else reserveFit planner ref fit

/-- Grow a decode request's blocks over a speculative verify stretch; returns how many
rows fit. -/
def reserveSpeculative (planner : BatchPlanner) (ref : RequestRef) (draftRows : Nat) :
    Except Raised (Nat × BatchPlanner) :=
  planner.reserveFit ref
    (min draftRows (planner.config.maxSeqLen - (planner.objects ref).seqLen))

end

/-- The blocks a request holds, in prefix order. -/
def blocksOf (planner : BatchPlanner) (ref : RequestRef) : List BlockId :=
  planner.prefixCache.coordinator.blocksOf (planner.objects ref).requestId

end BatchPlanner

end RapidLlm
