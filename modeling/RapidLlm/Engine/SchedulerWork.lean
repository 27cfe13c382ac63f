import RapidLlm.Executor.SlotBatch

/-!
# RapidLlm.Engine.SchedulerWork

How a step's plan becomes passes (`engine/scheduler.py`): `_chunk_work` and `_prefill_work`, and
of `_decode_work` and the verify pass of `_speculate_verify` the row of one request.
-/

namespace RapidLlm

namespace BatchPlanner

variable {s : BatchPlanner} {r : RequestRef}

/-- A request's slot, as the upload of a plan needs it. -/
def slotFor (planner : BatchPlanner) (ref : RequestRef) : Except Raised Nat :=
  match (planner.objects ref).slot with
  | some slot => .ok slot
  | none => .error (.typeError "slot is None")

/-- One sequence of `_chunk_work`: rows `[num_computed_tokens - chunk, num_computed_tokens)`
of its slot, the counter having been advanced already. -/
def chunkEntry (planner : BatchPlanner) (chunk : RequestRef × Nat) : Except Raised PassEntry := do
  let request := planner.objects chunk.1
  let slot ← planner.slotFor chunk.1
  let stop := request.numComputedTokens
  let start := stop - chunk.2
  return { request := chunk.1, slot, seqStart := start, seqLen := stop
           tokens := .host ((request.promptTokenIds.take stop).drop start)
           -- only a finished prompt has a next token to sample
           sampled := stop = request.promptLen
           -- a first token has no repetition-penalty history yet
           genCount := 0
           blockWrites := request.blockPlan }

/-- `_chunk_work`. -/
def chunkWork (planner : BatchPlanner) (kind : PassKind) (chunks : List (RequestRef × Nat)) :
    Except Raised ModelInput := do
  let entries ← chunks.mapM planner.chunkEntry
  ModelInput.create kind entries false

/-- The chunks that start a prompt. -/
def freshChunks (planner : BatchPlanner) (chunks : List (RequestRef × Nat)) :
    List (RequestRef × Nat) :=
  chunks.filter fun chunk => (planner.objects chunk.1).numComputedTokens = chunk.2

/-- The chunks that land on cached rows. -/
def resumedChunks (planner : BatchPlanner) (chunks : List (RequestRef × Nat)) :
    List (RequestRef × Nat) :=
  chunks.filter fun chunk => (planner.objects chunk.1).numComputedTokens > chunk.2

/-- The kernel the resumed chunks of a step go through. `none` is the bound `math.inf`. -/
def resumedKind (chunkedMinRows : Option Nat) (resumed : List (RequestRef × Nat)) : PassKind :=
  match chunkedMinRows with
  | some rows => if (resumed.map Prod.snd).sum ≥ rows then .prefill else .extend
  | none => .extend

/-- `_prefill_work`. -/
def prefillWork (planner : BatchPlanner) (chunkedMinRows : Option Nat)
    (chunks : List (RequestRef × Nat)) : Except Raised (List ModelInput) := do
  let fresh := planner.freshChunks chunks
  let resumed := planner.resumedChunks chunks
  let first ← if fresh.isEmpty then pure []
    else List.singleton <$> planner.chunkWork .prefill fresh
  let second ← if resumed.isEmpty then pure []
    else List.singleton <$> planner.chunkWork (resumedKind chunkedMinRows resumed) resumed
  return first ++ second

/-- One row of `_decode_work`. With `fromDevice` the lengths are optimistic by the tokens
launched and not yet harvested. -/
def decodeEntry (planner : BatchPlanner) (fromDevice : Bool) (ref : RequestRef) :
    Except Raised PassEntry := do
  let request := planner.objects ref
  let slot ← planner.slotFor ref
  let ahead : Int := if fromDevice then request.pendingTokens else 0
  let seqLen := ((request.seqLen : Int) + ahead).toNat
  let tokens ← if fromDevice then pure Feed.device else
    match request.outputTokenIds.getLast? with
    | some token => pure (Feed.host [token])
    | none => throw (.indexError "list index out of range")
  return { request := ref, slot, seqStart := seqLen - 1, seqLen, tokens, sampled := true
           genCount := ((request.outputTokenIds.length : Int) + ahead).toNat
           blockWrites := request.blockPlan }

/-- One stretch of the verify pass: the anchor, which is the last generated token, and the
drafts behind it. -/
def verifyEntry (planner : BatchPlanner) (drafts : RequestRef × List Token) :
    Except Raised PassEntry := do
  let request := planner.objects drafts.1
  let slot ← planner.slotFor drafts.1
  match request.outputTokenIds.getLast? with
  | none => throw (.indexError "list index out of range")
  | some anchor =>
    return { request := drafts.1, slot, seqStart := request.seqLen - 1
             seqLen := request.seqLen + drafts.2.length
             tokens := .host (anchor :: drafts.2)
             -- a sampled row would drop a token nobody asked for into the generation grid
             sampled := false, genCount := 0, blockWrites := request.blockPlan }

end BatchPlanner

end RapidLlm
