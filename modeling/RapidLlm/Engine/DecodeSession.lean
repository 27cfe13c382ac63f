import RapidLlm.Engine.BatchPlanner
import RapidLlm.Engine.Detokenizer
import RapidLlm.Lib.Continuation
import Mathlib.Algebra.Order.Ring.Rat

/-!
# RapidLlm.Engine.DecodeSession

One-shot generation (`_DecodeSession` in `engine/llm_engine.py`, with the sampler and the stop
criteria it drives), and what a sequence owes to the others of its batch.

The prompts share one token grid, padded with `pad_id` to the longest prompt; the generated columns
start there for everybody. A `[batch, …]` tensor is one `DecodeRow` a sequence, and the model is any
function from a sequence's own tokens to its row of logits.

* `DecodeRow.Stands` is what a row looks like after `k` steps: its prompt, the padding, `k` tokens
  of the sequence its greedy rule makes (`grow`), the padding again.
* `is_generated` starts at a row's own prompt length, so the padding between a shorter prompt and
  the longest one counts as generated: such a row is sampled as if it had generated `pad_id` before.
  Nothing else of a row depends on the batch.
-/

namespace RapidLlm

/-- `POLL_INTERVAL` -/
def POLL_INTERVAL : Nat := 8

/-! ### The sampler -/

/-- `GeneratedSpan`, of one sequence. -/
structure GeneratedSpan where
  tokenIds : List Token
  mask : List Bool
  deriving DecidableEq, Repr

section

variable {L : Type} [LinearOrder L] [Zero L] [HMul L ℚ L] [HDiv L ℚ L]

/-- A hit: divided where it is positive, multiplied where it is negative. -/
def penalise (penalty : ℚ) (logit : L) : L := if logit < 0 then logit * penalty else logit / penalty

/-- The columns `apply_repetition_penalty` scatters to: a position that is padding, or another
rank's token, goes to the scratch column `width`. -/
def GeneratedSpan.columns (generated : GeneratedSpan) (width vocabOffset : Nat) : List Nat :=
  List.zipWith (fun tokenId real =>
    if real && decide (vocabOffset ≤ tokenId) && decide (tokenId - vocabOffset < width) then
      tokenId - vocabOffset
    else width) generated.tokenIds generated.mask

/-- A table of `size` flags, with those of `columns` set. -/
def markTable (size : Nat) (columns : List Nat) : List Bool :=
  columns.foldl (fun seen column => seen.set column true) (List.replicate size false)

/-- `apply_repetition_penalty`, on the row of one sequence. -/
def applyRepetitionPenalty (logits : List L) (generated : GeneratedSpan) (penalty : ℚ)
    (vocabOffset : Nat) : List L :=
  let width := logits.length
  let seen := markTable (width + 1) (generated.columns width vocabOffset)
  List.zipWith (fun hit logit => if hit then penalise penalty logit else logit)
    (seen.take width) logits

/-- `torch.argmax`: the first of the largest. -/
def argmax (row : List L) : Token :=
  match row.max? with
  | none => 0
  | some best => row.idxOf best

/-- `Sampler.sample`, on the row of one sequence and without vocabulary parallelism. What a request
that is not greedy draws is left to `draw`. -/
def sample (draw : List L → Token) (logits : List L) (params : SamplingParams)
    (generated : Option GeneratedSpan) : Token :=
  let logits :=
    match generated with
    | none => logits
    | some generated =>
        if params.repetitionPenalty ≠ 1 then
          applyRepetitionPenalty logits generated params.repetitionPenalty 0
        else logits
  if params.isGreedy then argmax logits else draw logits

end

/-! ### The stop criteria -/

/-- `StopCriteria`, of one sequence. -/
structure StopState where
  finished : Bool := false
  reason : FinishReason := .length
  deriving DecidableEq, Repr

/-- `update` -/
def StopState.update (isStop : List Bool) (stop : StopState) (nextToken : Token) (writable : Bool) :
    StopState :=
  let hit := writable && isStop.getD nextToken false && !stop.finished
  { finished := stop.finished || hit, reason := if hit then .eos else stop.reason }

/-- `mark_repeat` -/
def StopState.markRepeat : StopState := { finished := true, reason := .repeat }

/-! ### The session -/

/-- What a session reads of its `LLMEngine`. Every row of logits is as wide as the vocabulary, and
the stop ids index the stop table. -/
structure LLMEngine (L : Type) where
  maxSeqLen : Nat
  padId : Token
  vocabSize : Nat
  stopTokenIds : List Token
  /-- The model: the logits that follow a sequence's own tokens. -/
  logits : List Token → List L
  draw : List L → Token
  detectRepetition : Text → Bool
  stopTokenIds_lt : ∀ tokenId ∈ stopTokenIds, tokenId < vocabSize
  logits_length : ∀ tokens, (logits tokens).length = vocabSize

/-- `_is_stop` -/
def LLMEngine.isStop {L : Type} (engine : LLMEngine L) : List Bool :=
  markTable engine.vocabSize engine.stopTokenIds

/-- What a `_DecodeSession` holds for one sequence. `context` is what the key-value cache has of
it. -/
structure DecodeRow where
  promptLen : Nat
  tokens : List Token
  promptMask : List Bool
  isGenerated : List Bool
  accepted : List Bool
  context : List Token := []
  stop : StopState := {}
  detokenizer : SequenceState := {}
  completion : Text := []
  deriving DecidableEq, Repr

/-- The row `__init__` makes for a prompt. -/
def DecodeRow.create (padId : Token) (totalLen : Nat) (ids : List Token) : DecodeRow :=
  let tokens := ids ++ (List.replicate totalLen padId).drop ids.length
  { promptLen := ids.length
    tokens
    promptMask := tokens.map fun tokenId => tokenId != padId
    isGenerated := (List.range totalLen).map fun position => decide (ids.length ≤ position)
    accepted := List.replicate totalLen false }

/-- The deltas of several tokens, joined. -/
def SequenceState.appendAll [Tokenizer] (state : SequenceState) : List Token → Text × SequenceState
  | [] => ([], state)
  | tokenId :: tokenIds =>
      let first := state.append tokenId
      let rest := first.2.appendAll tokenIds
      (first.1 ++ rest.1, rest.2)

/-- The tokens of the columns that were accepted. -/
def acceptedOf (accepted : List Bool) (tokens : List Token) : List Token :=
  ((accepted.zip tokens).filter Prod.fst).map Prod.snd

/-- Columns `[start, stop)`. -/
def between {α : Type} (start stop : Nat) (columns : List α) : List α :=
  (columns.take stop).drop start

/-- Where a prefill reads the logits of a row: its last prompt position, and the last column for the
index -1. -/
def logitsPosition (promptLen width : Nat) : Nat :=
  if promptLen = 0 then width - 1 else promptLen - 1

/-- The input columns `[prev_pos, cur_pos)` of a row: what the cache holds with them (the real
tokens of the prompt, and then what every decode step feeds it), and the tokens whose logits are
read. -/
def DecodeRow.feed (row : DecodeRow) (prevPos curPos : Nat) : List Token × List Token :=
  let inputIds := between prevPos curPos row.tokens
  if prevPos = 0 then
    (inputIds.take row.promptLen,
      inputIds.take (logitsPosition row.promptLen inputIds.length + 1))
  else (row.context ++ inputIds, row.context ++ inputIds)

section

variable {L : Type} [LinearOrder L] [Zero L] [HMul L ℚ L] [HDiv L ℚ L] [Tokenizer]

/-- The part of one round of `run` in front of the read-back: forward, sample, stop. -/
def DecodeRow.advance (engine : LLMEngine L) (params : SamplingParams) (prevPos curPos : Nat)
    (row : DecodeRow) : DecodeRow :=
  let fed := row.feed prevPos curPos
  let generated :=
    if params.repetitionPenalty ≠ 1 then
      some { tokenIds := row.tokens.take curPos, mask := row.isGenerated.take curPos }
    else none
  let nextToken := sample engine.draw (engine.logits fed.2) params generated
  let writable := !(row.promptMask.getD curPos false)
  let stop := row.stop.update engine.isStop nextToken writable
  { row with
    tokens := row.tokens.set curPos (if writable then nextToken else row.tokens.getD curPos 0)
    accepted := row.accepted.set curPos (writable && !stop.finished)
    context := fed.1
    stop }

/-- One round of `_flush`. -/
def DecodeRow.flush (engine : LLMEngine L) (params : SamplingParams) (start stop : Nat)
    (checkRepeat : Bool) (row : DecodeRow) : Text × DecodeRow :=
  let appended := row.detokenizer.appendAll
    (acceptedOf (between start stop row.accepted) (between start stop row.tokens))
  let row := { row with detokenizer := appended.2 }
  if checkRepeat && params.stopOnRepeat && appended.1 != [] && !row.stop.finished &&
      engine.detectRepetition (decodeIds appended.2.tokens) then
    ([], { row with stop := .markRepeat })
  else (appended.1, { row with completion := row.completion ++ appended.1 })

/-- `_DecodeSession`, with the locals of `run` that outlive a round and what it has yielded. -/
structure DecodeSession where
  maxPromptLen : Nat
  totalLen : Nat
  rows : List DecodeRow
  step : Nat := 0
  prevPos : Nat := 0
  pendingFrom : Nat := maxPromptLen
  yielded : List (List Text) := []
  deriving DecidableEq, Repr

namespace DecodeSession

/-- `__init__`. A `max_gen_len` is never zero, so `or` is `getD`. -/
def create (engine : LLMEngine L) (promptTokenIds : List (List Token)) (params : SamplingParams) :
    Except Raised DecodeSession :=
  match (promptTokenIds.map List.length).max? with
  | none => .error (.valueError "max() arg is an empty sequence")
  | some maxPromptLen =>
      if engine.maxSeqLen < maxPromptLen then
        .error (.valueError
          s!"prompt length {maxPromptLen} exceeds max_seq_len {engine.maxSeqLen}")
      else
        let maxGenLen := params.maxGenLen.getD (engine.maxSeqLen - maxPromptLen)
        let totalLen := min engine.maxSeqLen (maxPromptLen + maxGenLen)
        .ok { maxPromptLen, totalLen
              rows := promptTokenIds.map (DecodeRow.create engine.padId totalLen) }

/-- `_flush` -/
def flush (engine : LLMEngine L) (params : SamplingParams) (start stop : Nat) (checkRepeat : Bool)
    (session : DecodeSession) : List Text × DecodeSession :=
  let flushed := session.rows.map (DecodeRow.flush engine params start stop checkRepeat)
  (flushed.map Prod.fst, { session with rows := flushed.map Prod.snd })

/-- `all_finished` -/
def allFinished (session : DecodeSession) : Bool := session.rows.all fun row => row.stop.finished

/-- One round of `run`, without the question whether to go on. -/
def round (engine : LLMEngine L) (params : SamplingParams) (stream : Bool)
    (session : DecodeSession) : DecodeSession :=
  let curPos := session.maxPromptLen + session.step
  let session := { session with
    rows := session.rows.map (DecodeRow.advance engine params session.prevPos curPos)
    step := session.step + 1
    prevPos := curPos }
  let isPoll := session.step % POLL_INTERVAL = 0
  if stream ∨ isPoll then
    let flushed := session.flush engine params session.pendingFrom (curPos + 1) (decide isPoll)
    { flushed.2 with
      pendingFrom := curPos + 1
      yielded := if stream then session.yielded ++ [flushed.1] else session.yielded }
  else session

/-- The loop of `run`, for so many columns. A batch of empty prompts has no position to read the
first logits from. -/
def decodeSteps (engine : LLMEngine L) (params : SamplingParams) (stream : Bool) :
    Nat → DecodeSession → Except Raised DecodeSession
  | 0, session => .ok session
  | columns + 1, session =>
      if session.maxPromptLen + session.step = session.prevPos then
        .error (.indexError "index -1 is out of bounds for dimension 1 with size 0")
      else
        let session := session.round engine params stream
        if session.step % POLL_INTERVAL = 0 ∧ session.allFinished then .ok session
        else decodeSteps engine params stream columns session

/-- `run` -/
def run (engine : LLMEngine L) (params : SamplingParams) (stream : Bool) (session : DecodeSession) :
    Except Raised DecodeSession := do
  let session ← session.decodeSteps engine params stream (session.totalLen - session.maxPromptLen)
  -- Trailing columns the poll interval never covered.
  if session.pendingFrom < session.totalLen then
    let flushed := session.flush engine params session.pendingFrom session.totalLen false
    .ok { flushed.2 with
      yielded := if stream && flushed.1.any (· != []) then session.yielded ++ [flushed.1]
        else session.yielded }
  else .ok session

end DecodeSession

/-- What a session leaves of a sequence: its accepted tokens, stop reason and completion. -/
structure SequenceResult where
  acceptedTokens : List Token
  reason : FinishReason
  completion : Text
  deriving DecidableEq, Repr

def DecodeRow.result (row : DecodeRow) : SequenceResult :=
  { acceptedTokens := acceptedOf row.accepted row.tokens
    reason := row.stop.reason
    completion := row.completion }

/-- `generate` (and `generate_text`, which does not stream), one result a prompt. -/
def LLMEngine.generate (engine : LLMEngine L) (params : SamplingParams) (stream : Bool)
    (promptTokenIds : List (List Token)) : Except Raised (List SequenceResult) := do
  let session ← DecodeSession.create engine promptTokenIds params
  let session ← session.run engine params stream
  .ok (session.rows.map DecodeRow.result)

end

/-! ### What the sampler reads -/

/-- The table has the columns that were scattered to. -/
theorem markTable_getElem? (columns : List Nat) {size t : Nat} (ht : t < size) :
    (markTable size columns)[t]? = some (decide (t ∈ columns)) := by
  have hfold : ∀ (seen : List Bool) (b : Bool), seen[t]? = some b →
      (columns.foldl (fun seen column => seen.set column true) seen)[t]? =
        some (b || decide (t ∈ columns)) := by
    induction columns with
    | nil => simp
    | cons column columns ih =>
      intro seen b hb
      have hset : (seen.set column true)[t]? = some (b || decide (t = column)) := by
        rw [List.getElem?_set]
        split
        · next heq =>
            have hlt := (List.getElem?_eq_some_iff.mp hb).1
            simp [heq, hlt]
        · next hne => simp [hb, Ne.symm hne]
      rw [List.foldl_cons, ih _ _ hset]
      simp [Bool.or_assoc, List.mem_cons]
  rw [markTable, hfold _ false (by rw [List.getElem?_replicate, if_pos ht]), Bool.false_or]

/-- What was generated, with nothing padded. -/
def GeneratedSpan.ofTokens (tokenIds : List Token) : GeneratedSpan :=
  { tokenIds, mask := List.replicate tokenIds.length true }

/-- The tokens a span marks. -/
def GeneratedSpan.marked (generated : GeneratedSpan) : List Token :=
  acceptedOf generated.mask generated.tokenIds

@[simp] theorem acceptedOf_nil (tokens : List Token) : acceptedOf [] tokens = [] := rfl

theorem acceptedOf_cons (keep : Bool) (accepted : List Bool) (tokenId : Token)
    (tokens : List Token) : acceptedOf (keep :: accepted) (tokenId :: tokens) =
      if keep then tokenId :: acceptedOf accepted tokens else acceptedOf accepted tokens := by
  cases keep <;> rfl

theorem acceptedOf_append {accepted accepted' : List Bool} {tokens tokens' : List Token}
    (h : accepted.length = tokens.length) : acceptedOf (accepted ++ accepted') (tokens ++ tokens') =
      acceptedOf accepted tokens ++ acceptedOf accepted' tokens' := by
  rw [acceptedOf, List.zip_append h, List.filter_append, List.map_append]
  rfl

theorem acceptedOf_replicate_false (n : Nat) (tokens : List Token) :
    acceptedOf (List.replicate n false) tokens = [] := by
  induction n generalizing tokens with
  | zero => rfl
  | succ n ih =>
    cases tokens with
    | nil => rfl
    | cons tokenId tokens =>
      rw [List.replicate_succ, acceptedOf_cons]
      exact ih tokens

theorem acceptedOf_replicate_true (tokens : List Token) :
    acceptedOf (List.replicate tokens.length true) tokens = tokens := by
  induction tokens with
  | nil => rfl
  | cons tokenId tokens ih =>
    rw [List.length_cons, List.replicate_succ, acceptedOf_cons, if_pos rfl, ih]

@[simp] theorem GeneratedSpan.marked_ofTokens (tokenIds : List Token) :
    (GeneratedSpan.ofTokens tokenIds).marked = tokenIds := acceptedOf_replicate_true tokenIds

/-- Inside the vocabulary the columns are the marked tokens. -/
theorem GeneratedSpan.mem_columns {generated : GeneratedSpan} {width t : Nat} (ht : t < width) :
    t ∈ generated.columns width 0 ↔ t ∈ generated.marked := by
  obtain ⟨tokenIds, mask⟩ := generated
  induction tokenIds generalizing mask with
  | nil => cases mask <;> simp [columns, marked, acceptedOf]
  | cons tokenId tokenIds ih =>
    cases mask with
    | nil => simp [columns, marked, acceptedOf]
    | cons real mask =>
      have hrest := ih mask
      simp only [columns, marked] at hrest ⊢
      rw [List.zipWith_cons_cons, List.mem_cons, hrest, acceptedOf_cons]
      cases real with
      | false => simp [Nat.ne_of_lt ht]
      | true =>
        by_cases hlt : tokenId < width
        · simp [hlt]
        · have hne : t ≠ tokenId := fun heq => hlt (heq ▸ ht)
          simp [hlt, Nat.ne_of_lt ht, hne]

section

variable {L : Type} [LinearOrder L] [Zero L] [HMul L ℚ L] [HDiv L ℚ L]
  {engine : LLMEngine L} {params : SamplingParams}

/-- The penalty reads which tokens are marked, not where. -/
theorem applyRepetitionPenalty_congr {generated generated' : GeneratedSpan}
    (h : ∀ t, t ∈ generated.marked ↔ t ∈ generated'.marked) (logits : List L) (penalty : ℚ) :
    applyRepetitionPenalty logits generated penalty 0 =
      applyRepetitionPenalty logits generated' penalty 0 := by
  have hseen : (markTable (logits.length + 1) (generated.columns logits.length 0)).take logits.length =
      (markTable (logits.length + 1) (generated'.columns logits.length 0)).take logits.length := by
    refine List.ext_getElem? fun t => ?_
    rw [List.getElem?_take, List.getElem?_take]
    split
    · next ht =>
        rw [markTable_getElem? _ (Nat.lt_succ_of_lt ht), markTable_getElem? _ (Nat.lt_succ_of_lt ht)]
        simp only [GeneratedSpan.mem_columns ht, h t]
    · rfl
  unfold applyRepetitionPenalty
  dsimp only
  rw [hseen]

theorem sample_congr {draw : List L → Token} {logits : List L}
    {generated generated' : GeneratedSpan} (h : ∀ t, t ∈ generated.marked ↔ t ∈ generated'.marked) :
    sample draw logits params (some generated) = sample draw logits params (some generated') := by
  unfold sample
  dsimp only
  rw [applyRepetitionPenalty_congr h]

/-- A span that is left out where the penalty is off makes no difference. -/
theorem sample_span {draw : List L → Token} {logits : List L} (generated : GeneratedSpan) :
    sample draw logits params
        (if params.repetitionPenalty ≠ 1 then some generated else none) =
      sample draw logits params (some generated) := by
  split
  · rfl
  · next hone =>
      unfold sample
      dsimp only
      rw [if_neg hone]

/-- The token that follows a prompt and what was generated, where `before` is penalised as well. -/
def LLMEngine.nextToken (engine : LLMEngine L) (params : SamplingParams)
    (prompt before generated : List Token) : Token :=
  sample engine.draw (engine.logits (prompt ++ generated)) params
    (some (.ofTokens (before ++ generated)))

/-- `_is_stop` at a token. -/
def LLMEngine.stops (engine : LLMEngine L) (tokenId : Token) : Bool :=
  engine.isStop.getD tokenId false

/-- How often a token is penalised makes no difference. -/
theorem LLMEngine.nextToken_replicate (prompt : List Token) (padId : Token) {n : Nat} (hn : 0 < n) :
    engine.nextToken params prompt (List.replicate n padId) =
      engine.nextToken params prompt [padId] := by
  funext generated
  refine sample_congr fun t => ?_
  rw [GeneratedSpan.marked_ofTokens, GeneratedSpan.marked_ofTokens, List.mem_append,
    List.mem_append, List.mem_replicate, List.mem_singleton]
  simp [Nat.ne_of_gt hn]

end

/-! ### One row -/

/-- Which of the first `n` entries of a sequence are in front of a stop. -/
def keeps (stops : Token → Bool) (next : List Token → Token) : Nat → List Bool
  | 0 => []
  | n + 1 => keeps stops next n ++ [!(grow next (n + 1)).any stops]

section

variable {stops : Token → Bool} {next : List Token → Token} {k m n : Nat}

@[simp] theorem keeps_length (stops : Token → Bool) (next : List Token → Token) (n : Nat) :
    (keeps stops next n).length = n := by
  induction n with
  | zero => rfl
  | succ n ih => rw [keeps, List.length_append, ih, List.length_singleton]

theorem keeps_mono (stops : Token → Bool) (next : List Token → Token) (h : m ≤ k) :
    keeps stops next m <+: keeps stops next k := by
  induction h with
  | refl => exact List.prefix_rfl
  | step _ ih => exact ih.trans (List.prefix_append _ _)

/-- The entries that are kept are the visible ones. -/
theorem acceptedOf_keeps (stops : Token → Bool) (next : List Token → Token) (n : Nat) :
    acceptedOf (keeps stops next n) (grow next n) = visible stops (grow next n) := by
  induction n with
  | zero => rfl
  | succ n ih =>
    have hlast : grow next (n + 1) = grow next n ++ [next (grow next n)] := rfl
    rw [keeps, hlast, acceptedOf_append (by simp), ih]
    cases hany : (grow next n).any stops with
    | true => simp [hany, visible_append_of_stopped hany, acceptedOf_cons]
    | false =>
      rw [visible_append_of_running hany, visible_of_running hany]
      cases hnext : stops (next (grow next n)) <;>
        simp [hany, hnext, acceptedOf_cons, visible]

/-- What a window adds to the entries kept so far. -/
theorem acceptedOf_window (stops : Token → Bool) (next : List Token → Token) (h : m ≤ k) :
    acceptedOf (keeps stops next k) (grow next k) =
      acceptedOf (keeps stops next m) (grow next m) ++
        acceptedOf ((keeps stops next k).drop m) ((grow next k).drop m) := by
  obtain ⟨more, hmore⟩ := keeps_mono stops next h
  obtain ⟨tail, htail⟩ := grow_mono next h
  rw [← hmore, ← htail, acceptedOf_append (by simp), List.drop_left' (by simp),
    List.drop_left' (by simp)]

end

theorem SequenceState.appendAll_append [Tokenizer] (state : SequenceState) (xs ys : List Token) :
    state.appendAll (xs ++ ys) = ((state.appendAll xs).1 ++ ((state.appendAll xs).2.appendAll ys).1,
      ((state.appendAll xs).2.appendAll ys).2) := by
  induction xs generalizing state with
  | nil => rfl
  | cons x xs ih => simp [appendAll, ih]

/-- What a sequence comes to that generates so much. -/
def SequenceResult.ofGenerated [Tokenizer] (stops : Token → Bool) (generated : List Token) :
    SequenceResult :=
  { acceptedTokens := visible stops generated
    reason := if generated.any stops then .eos else .length
    completion := (({} : SequenceState).appendAll (visible stops generated)).1 }

/-- The columns of a window that starts inside `xs` and ends behind it. -/
theorem between_append {α : Type} {before xs ys : List α} {position start stop : Nat}
    (hbefore : before.length = position) (hstart : start ≤ xs.length) (hstop : xs.length ≤ stop) :
    between (position + start) (position + stop) (before ++ xs ++ ys) =
      xs.drop start ++ ys.take (stop - xs.length) := by
  subst hbefore
  rw [between, List.append_assoc, List.take_length_add_append, List.drop_length_add_append,
    List.take_append, List.take_of_length_le hstop, List.drop_append_of_le_length hstart]

/-- What a row holds after `k` steps, with the first `m` of them read back: `next` is its greedy
rule, `maxPromptLen` the longest prompt and `steps` the columns there are to generate. -/
structure DecodeRow.Stands [Tokenizer] (stops : Token → Bool) (next : List Token → Token)
    (padId : Token) (prompt : List Token) (maxPromptLen steps k m : Nat) (row : DecodeRow) :
    Prop where
  promptLen : row.promptLen = prompt.length
  tokens : row.tokens = prompt ++ List.replicate (maxPromptLen - prompt.length) padId ++
    grow next k ++ List.replicate (steps - k) padId
  promptMask : ∀ position, maxPromptLen ≤ position → row.promptMask.getD position false = false
  isGenerated : row.isGenerated =
    List.replicate prompt.length false ++ List.replicate (maxPromptLen - prompt.length + steps) true
  accepted : row.accepted = List.replicate maxPromptLen false ++ keeps stops next k ++
    List.replicate (steps - k) false
  context : 0 < k → row.context = prompt ++ grow next (k - 1)
  finished : row.stop.finished = (grow next k).any stops
  reason : row.stop.reason = if (grow next k).any stops then .eos else .length
  readBack : (row.completion, row.detokenizer) =
    ({} : SequenceState).appendAll (acceptedOf (keeps stops next m) (grow next m))

namespace DecodeRow

section

variable {L : Type} [LinearOrder L] [Zero L] [HMul L ℚ L] [HDiv L ℚ L] [Tokenizer]
  {engine : LLMEngine L} {params : SamplingParams} {prompt : List Token} {row : DecodeRow}
  {maxPromptLen steps k m n : Nat}

/-- The row of a prompt, before any step. -/
theorem create_stands (stops : Token → Bool) (next : List Token → Token) (padId : Token)
    (steps : Nat) (h : prompt.length ≤ maxPromptLen) :
    (create padId (maxPromptLen + steps) prompt).Stands stops next padId prompt maxPromptLen steps
      0 0 := by
  have hpad : maxPromptLen + steps - prompt.length = maxPromptLen - prompt.length + steps := by omega
  have hlen : maxPromptLen + steps = prompt.length + (maxPromptLen - prompt.length + steps) := by
    omega
  refine ⟨rfl, ?_, fun position hposition => ?_, ?_, ?_, fun hk => absurd hk (Nat.lt_irrefl 0), rfl,
    rfl, rfl⟩
  · simp [create, grow, hpad, List.replicate_append_replicate]
  · have hle : prompt.length ≤ position := Nat.le_trans h hposition
    simp only [create, List.getD_eq_getElem?_getD, List.getElem?_map, List.drop_replicate]
    rw [List.getElem?_append_right hle, List.getElem?_replicate]
    split <;> simp
  · simp only [create]
    rw [hlen, List.range_add, List.map_append, List.map_map]
    congr 1
    · exact List.eq_replicate_iff.mpr ⟨by simp, by simp⟩
    · exact List.eq_replicate_iff.mpr ⟨by simp, by simp⟩
  · simp [create, keeps, List.replicate_append_replicate]

variable {next : List Token → Token} {stops : Token → Bool} {padId : Token}

/-- The columns in front of the one a step writes. -/
theorem Stands.take_tokens (hmax : prompt.length ≤ maxPromptLen)
    (h : row.Stands stops next padId prompt maxPromptLen steps k m) :
    row.tokens.take (maxPromptLen + k) =
      prompt ++ List.replicate (maxPromptLen - prompt.length) padId ++ grow next k := by
  rw [h.tokens, List.take_left']
  simp
  omega

/-- A step feeds the model the row's own tokens, at the prefill and afterwards. -/
theorem Stands.feed_eq (hprompt : 0 < prompt.length) (hmax : prompt.length ≤ maxPromptLen)
    (h : row.Stands stops next padId prompt maxPromptLen steps k m) :
    row.feed (if k = 0 then 0 else maxPromptLen + k - 1) (maxPromptLen + k) =
      (prompt ++ grow next k, prompt ++ grow next k) := by
  rw [feed, between, h.take_tokens hmax, h.promptLen]
  cases k with
  | zero =>
    have hposition (width : Nat) : logitsPosition prompt.length width + 1 = prompt.length := by
      rw [logitsPosition, if_neg (by omega)]
      omega
    simp [grow, hposition]
  | succ k =>
    have hlast : grow next (k + 1) = grow next k ++ [next (grow next k)] := rfl
    rw [if_neg (Nat.succ_ne_zero k), if_neg (by omega), h.context (Nat.succ_pos k), hlast,
      ← List.append_assoc, List.drop_left', Nat.add_sub_cancel, List.append_assoc]
    simp
    omega

/-- The span of a step marks the padding behind the prompt and what was generated. -/
theorem Stands.marked_span (hmax : prompt.length ≤ maxPromptLen) (hk : k ≤ steps)
    (h : row.Stands stops next padId prompt maxPromptLen steps k m) :
    GeneratedSpan.marked
        { tokenIds := row.tokens.take (maxPromptLen + k)
          mask := row.isGenerated.take (maxPromptLen + k) } =
      List.replicate (maxPromptLen - prompt.length) padId ++ grow next k := by
  have hmask : row.isGenerated.take (maxPromptLen + k) = List.replicate prompt.length false ++
      List.replicate (List.replicate (maxPromptLen - prompt.length) padId ++ grow next k).length
        true := by
    rw [h.isGenerated, List.take_append, List.take_replicate, List.take_replicate]
    congr 2
    · simp
      omega
    · simp
      omega
  rw [GeneratedSpan.marked, hmask, h.take_tokens hmax, List.append_assoc,
    acceptedOf_append (by simp), acceptedOf_replicate_false, acceptedOf_replicate_true,
    List.nil_append]

/-- One step of a row: the next token of its own rule. -/
theorem Stands.advance (hprompt : 0 < prompt.length) (hmax : prompt.length ≤ maxPromptLen)
    (hk : k < steps)
    (hnext : next = engine.nextToken params prompt
      (List.replicate (maxPromptLen - prompt.length) engine.padId))
    (h : row.Stands engine.stops next engine.padId prompt maxPromptLen steps k m) :
    (row.advance engine params (if k = 0 then 0 else maxPromptLen + k - 1)
      (maxPromptLen + k)).Stands engine.stops next engine.padId prompt maxPromptLen steps
        (k + 1) m := by
  have htoken : sample engine.draw (engine.logits (prompt ++ grow next k)) params
      (if params.repetitionPenalty ≠ 1 then
        some { tokenIds := row.tokens.take (maxPromptLen + k)
               mask := row.isGenerated.take (maxPromptLen + k) }
      else none) = next (grow next k) := by
    rw [sample_span]
    calc sample engine.draw (engine.logits (prompt ++ grow next k)) params (some _)
        = engine.nextToken params prompt
            (List.replicate (maxPromptLen - prompt.length) engine.padId) (grow next k) :=
          sample_congr fun t => by
            rw [h.marked_span hmax (Nat.le_of_lt hk), GeneratedSpan.marked_ofTokens]
      _ = next (grow next k) := by rw [← hnext]
  have hlast : grow next (k + 1) = grow next k ++ [next (grow next k)] := rfl
  have hwritable : row.promptMask.getD (maxPromptLen + k) false = false :=
    h.promptMask _ (Nat.le_add_right _ _)
  have hsteps : steps - k = steps - (k + 1) + 1 := by omega
  have hstops : engine.isStop.getD (next (grow next k)) false = engine.stops (next (grow next k)) :=
    rfl
  have hstop : (row.stop.finished || engine.stops (next (grow next k)) && !row.stop.finished) =
      (grow next (k + 1)).any engine.stops := by
    rw [h.finished, hlast, List.any_append]
    cases (grow next k).any engine.stops <;> simp
  simp only [DecodeRow.advance, h.feed_eq hprompt hmax, htoken, hwritable, StopState.update, hstops,
    Bool.not_false, Bool.true_and, if_true]
  refine ⟨h.promptLen, ?_, h.promptMask, h.isGenerated, ?_, fun _ => rfl, hstop, ?_, h.readBack⟩
  · rw [h.tokens, hsteps, List.replicate_succ, hlast]
    have hat : maxPromptLen + k = (prompt ++
        List.replicate (maxPromptLen - prompt.length) engine.padId ++ grow next k).length := by
      simp
      omega
    rw [hat, List.set_append_right _ _ (Nat.le_refl _), Nat.sub_self, List.set_cons_zero]
    simp
  · rw [h.accepted, hsteps, List.replicate_succ, hstop]
    have hat : maxPromptLen + k =
        (List.replicate maxPromptLen false ++ keeps engine.stops next k).length := by simp
    rw [hat, List.set_append_right _ _ (Nat.le_refl _), Nat.sub_self, List.set_cons_zero, keeps]
    simp
  · rw [h.finished, h.reason, hlast, List.any_append]
    cases (grow next k).any engine.stops <;> simp

end

section

variable {L : Type} [Tokenizer] {params : SamplingParams}
  {prompt : List Token} {row : DecodeRow} {maxPromptLen steps k m : Nat}
  {next : List Token → Token} {stops : Token → Bool} {padId : Token}

/-- Reading back up to any column behind the last accepted one makes text of all that was
accepted. -/
theorem Stands.flush (engine : LLMEngine L) (stop : Nat) (checkRepeat : Bool)
    (hrepeat : params.stopOnRepeat = false) (hmax : prompt.length ≤ maxPromptLen) (hm : m ≤ k)
    (hk : k ≤ stop) (hstop : stop ≤ steps)
    (h : row.Stands stops next padId prompt maxPromptLen steps k m) :
    (row.flush engine params (maxPromptLen + m) (maxPromptLen + stop) checkRepeat).2.Stands stops
      next padId prompt maxPromptLen steps k k := by
  have haccepted : between (maxPromptLen + m) (maxPromptLen + stop) row.accepted =
      (keeps stops next k).drop m ++ List.replicate (stop - k) false := by
    rw [h.accepted, between_append (by simp) (by simpa using hm) (by simpa using hk), keeps_length,
      List.take_replicate]
    congr 2
    omega
  have htokens : ∃ rest, between (maxPromptLen + m) (maxPromptLen + stop) row.tokens =
      (grow next k).drop m ++ rest := by
    rw [h.tokens, between_append (by simp; omega) (by simpa using hm) (by simpa using hk)]
    exact ⟨_, rfl⟩
  obtain ⟨rest, htokens⟩ := htokens
  have hread : acceptedOf (between (maxPromptLen + m) (maxPromptLen + stop) row.accepted)
      (between (maxPromptLen + m) (maxPromptLen + stop) row.tokens) =
        acceptedOf ((keeps stops next k).drop m) ((grow next k).drop m) := by
    rw [haccepted, htokens, acceptedOf_append (by simp), acceptedOf_replicate_false,
      List.append_nil]
  have happended := SequenceState.appendAll_append ({} : SequenceState)
    (acceptedOf (keeps stops next m) (grow next m))
    (acceptedOf ((keeps stops next k).drop m) ((grow next k).drop m))
  rw [← acceptedOf_window stops next hm, ← h.readBack] at happended
  simp only [DecodeRow.flush, hread, hrepeat, Bool.and_false, Bool.false_and, Bool.false_eq_true,
    if_false]
  exact ⟨h.promptLen, h.tokens, h.promptMask, h.isGenerated, h.accepted, h.context, h.finished,
    h.reason, happended.symm⟩

/-- A row that was read back shows its rule's sequence up to the first stop. -/
theorem Stands.result_eq (hmax : prompt.length ≤ maxPromptLen)
    (h : row.Stands stops next padId prompt maxPromptLen steps k k) :
    row.result = .ofGenerated stops (grow next k) := by
  have haccepted : acceptedOf row.accepted row.tokens = visible stops (grow next k) := by
    rw [h.accepted, h.tokens, acceptedOf_append (by simp; omega), acceptedOf_append (by simp; omega),
      acceptedOf_replicate_false, acceptedOf_replicate_false, List.nil_append, List.append_nil,
      acceptedOf_keeps]
  have hcompletion := congrArg Prod.fst h.readBack
  rw [acceptedOf_keeps] at hcompletion
  rw [result, haccepted, h.reason]
  exact congrArg _ hcompletion

end

end DecodeRow

/-! ### The batch -/

/-- Sequence `index` of a session follows its rule, whatever the other rows do. -/
structure DecodeSession.Follows {L : Type} [Tokenizer] (engine : LLMEngine L)
    (next : List Token → Token) (prompt : List Token) (index maxPromptLen steps k m : Nat)
    (session : DecodeSession) : Prop where
  maxPromptLen_eq : session.maxPromptLen = maxPromptLen
  totalLen_eq : session.totalLen = maxPromptLen + steps
  step_eq : session.step = k
  prevPos_eq : session.prevPos = if k = 0 then 0 else maxPromptLen + k - 1
  pendingFrom_eq : session.pendingFrom = maxPromptLen + m
  readBack_le : m ≤ k
  steps_le : k ≤ steps
  stands : ∃ row, session.rows[index]? = some row ∧
    row.Stands engine.stops next engine.padId prompt maxPromptLen steps k m

namespace DecodeSession

section

variable {L : Type} [LinearOrder L] [Zero L] [HMul L ℚ L] [HDiv L ℚ L] [Tokenizer]
  {engine : LLMEngine L} {params : SamplingParams} {prompt : List Token} {session : DecodeSession}
  {index maxPromptLen steps k m : Nat} {next : List Token → Token}

/-- One round takes every sequence one step further; a poll has read everything back. -/
theorem Follows.round (stream : Bool) (hprompt : 0 < prompt.length)
    (hmax : prompt.length ≤ maxPromptLen) (hrepeat : params.stopOnRepeat = false) (hk : k < steps)
    (hnext : next = engine.nextToken params prompt
      (List.replicate (maxPromptLen - prompt.length) engine.padId))
    (h : session.Follows engine next prompt index maxPromptLen steps k m) :
    ∃ m', (session.round engine params stream).Follows engine next prompt index maxPromptLen steps
      (k + 1) m' := by
  obtain ⟨row, hrow, hstands⟩ := h.stands
  have hadvanced := hstands.advance hprompt hmax hk hnext
  by_cases hread : stream = true ∨ (k + 1) % POLL_INTERVAL = 0
  · have hflushed := hadvanced.flush engine (k + 1) (decide ((k + 1) % POLL_INTERVAL = 0)) hrepeat
      hmax (Nat.le_succ_of_le h.readBack_le) (Nat.le_refl _) hk
    refine ⟨k + 1, ?_⟩
    rw [DecodeSession.round, h.step_eq, h.maxPromptLen_eq, h.prevPos_eq, h.pendingFrom_eq]
    simp only [hread, if_true]
    refine ⟨rfl, h.totalLen_eq, rfl, by simp [DecodeSession.flush], rfl, Nat.le_refl _, hk, _, ?_,
      hflushed⟩
    simp [DecodeSession.flush, hrow, Nat.add_assoc]
  · refine ⟨m, ?_⟩
    rw [DecodeSession.round, h.step_eq, h.maxPromptLen_eq, h.prevPos_eq]
    simp only [hread, if_false]
    refine ⟨rfl, h.totalLen_eq, rfl, by simp, h.pendingFrom_eq,
      Nat.le_succ_of_le h.readBack_le, hk, _, ?_, hadvanced⟩
    simp [hrow]

/-- The loop ends, and stops early only when every sequence has stopped. -/
theorem Follows.decodeSteps (stream : Bool) (hprompt : 0 < prompt.length)
    (hmax : prompt.length ≤ maxPromptLen) (hrepeat : params.stopOnRepeat = false)
    (hnext : next = engine.nextToken params prompt
      (List.replicate (maxPromptLen - prompt.length) engine.padId)) {columns : Nat}
    (hcolumns : k + columns = steps)
    (h : session.Follows engine next prompt index maxPromptLen steps k m) :
    ∃ session' k' m', session.decodeSteps engine params stream columns = .ok session' ∧
      session'.Follows engine next prompt index maxPromptLen steps k' m' ∧
      (k' = steps ∨ (grow next k').any engine.stops = true) := by
  induction columns generalizing k m session with
  | zero => exact ⟨session, k, m, rfl, h, .inl hcolumns⟩
  | succ columns ih =>
    have hstart : session.maxPromptLen + session.step ≠ session.prevPos := by
      rw [h.maxPromptLen_eq, h.step_eq, h.prevPos_eq]
      split <;> omega
    obtain ⟨m', hround⟩ := h.round stream hprompt hmax hrepeat (by omega) hnext
    simp only [DecodeSession.decodeSteps, hstart, if_false]
    split
    · next hdone =>
        obtain ⟨row, hrow, hstands⟩ := hround.stands
        have hfinished := List.all_eq_true.mp hdone.2 row (List.mem_of_getElem? hrow)
        rw [hstands.finished] at hfinished
        exact ⟨_, k + 1, m', rfl, hround, .inr hfinished⟩
    · exact ih (by omega) hround

/-- A run leaves every sequence with its own rule's sequence. -/
theorem Follows.run (stream : Bool) (hprompt : 0 < prompt.length)
    (hmax : prompt.length ≤ maxPromptLen) (hrepeat : params.stopOnRepeat = false)
    (hnext : next = engine.nextToken params prompt
      (List.replicate (maxPromptLen - prompt.length) engine.padId))
    (h : session.Follows engine next prompt index maxPromptLen steps 0 0) :
    ∃ session' row, session.run engine params stream = .ok session' ∧
      session'.rows[index]? = some row ∧ row.result = .ofGenerated engine.stops (grow next steps) := by
  obtain ⟨session', k, m, hsteps, hfollows, hend⟩ :=
    h.decodeSteps stream hprompt hmax hrepeat hnext (Nat.zero_add steps)
  have hcolumns : session.totalLen - session.maxPromptLen = steps := by
    rw [h.totalLen_eq, h.maxPromptLen_eq, Nat.add_sub_cancel_left]
  have hresult : SequenceResult.ofGenerated engine.stops (grow next k) =
      .ofGenerated engine.stops (grow next steps) := by
    rcases hend with rfl | hstopped
    · rfl
    · obtain ⟨more, hmore⟩ := grow_mono next hfollows.steps_le
      rw [← hmore, SequenceResult.ofGenerated, SequenceResult.ofGenerated,
        visible_append_of_stopped hstopped, List.any_append, hstopped,
        Bool.true_or]
  obtain ⟨row, hrow, hstands⟩ := hfollows.stands
  simp only [DecodeSession.run, hcolumns, hsteps, bind, Except.bind]
  split
  · have hflushed := hstands.flush engine steps false hrepeat hmax hfollows.readBack_le
      hfollows.steps_le (Nat.le_refl _)
    refine ⟨_, _, rfl, ?_, (hflushed.result_eq hmax).trans hresult⟩
    simp [DecodeSession.flush, hrow, hfollows.pendingFrom_eq, hfollows.totalLen_eq]
  · next hread =>
      have hm : m = k := by
        have := hfollows.readBack_le
        have := hfollows.steps_le
        rw [hfollows.pendingFrom_eq, hfollows.totalLen_eq] at hread
        omega
      subst hm
      exact ⟨_, row, rfl, hrow, (hstands.result_eq hmax).trans hresult⟩

end

end DecodeSession

/-! ### Alone and in a batch -/

section

variable {L : Type} [LinearOrder L] [Zero L] [HMul L ℚ L] [HDiv L ℚ L] [Tokenizer]
  {engine : LLMEngine L} {params : SamplingParams} {prompts : List (List Token)}
  {prompt : List Token} {index maxPromptLen steps : Nat}

/-- What a batch gives a prompt: the sequence of its rule, with its padding penalised. -/
theorem LLMEngine.generate_row (stream : Bool) (hindex : prompts[index]? = some prompt)
    (hprompt : 0 < prompt.length) (hlongest : (prompts.map List.length).max? = some maxPromptLen)
    (hrepeat : params.stopOnRepeat = false) (hgen : params.maxGenLen = some steps)
    (hfits : maxPromptLen + steps ≤ engine.maxSeqLen) :
    ∃ results, engine.generate params stream prompts = .ok results ∧
      results[index]? = some (.ofGenerated engine.stops (grow (engine.nextToken params prompt
        (List.replicate (maxPromptLen - prompt.length) engine.padId)) steps)) := by
  have hmax : prompt.length ≤ maxPromptLen :=
    (List.max?_eq_some_iff.mp hlongest).2 _
      (List.mem_map_of_mem (List.mem_of_getElem? hindex))
  have htotal : min engine.maxSeqLen (maxPromptLen + steps) = maxPromptLen + steps :=
    Nat.min_eq_right hfits
  have hcreate : DecodeSession.create engine prompts params = .ok
      { maxPromptLen
        totalLen := maxPromptLen + steps
        rows := prompts.map (DecodeRow.create engine.padId (maxPromptLen + steps)) } := by
    rw [DecodeSession.create, hlongest]
    dsimp only
    rw [if_neg (by omega), hgen, Option.getD_some, htotal]
  have hfollows : DecodeSession.Follows engine (engine.nextToken params prompt
      (List.replicate (maxPromptLen - prompt.length) engine.padId)) prompt index maxPromptLen steps
      0 0 { maxPromptLen
            totalLen := maxPromptLen + steps
            rows := prompts.map (DecodeRow.create engine.padId (maxPromptLen + steps)) } :=
    ⟨rfl, rfl, rfl, rfl, rfl, Nat.le_refl 0, Nat.zero_le _, _, by rw [List.getElem?_map, hindex]; rfl,
      DecodeRow.create_stands _ _ _ _ hmax⟩
  obtain ⟨session, row, hrun, hrow, hresult⟩ := hfollows.run stream hprompt hmax hrepeat rfl
  refine ⟨session.rows.map DecodeRow.result, ?_, ?_⟩
  · simp only [LLMEngine.generate, hcreate, hrun, bind, Except.bind]
  · rw [List.getElem?_map, hrow, Option.map_some, hresult]

/-- A batch of empty prompts has no logits to start from. -/
theorem LLMEngine.generate_empty (stream : Bool)
    (hlongest : (prompts.map List.length).max? = some 0) (hgen : params.maxGenLen = some steps)
    (hfits : steps ≤ engine.maxSeqLen) : engine.generate params stream prompts =
      .error (.indexError "index -1 is out of bounds for dimension 1 with size 0") := by
  obtain ⟨columns, rfl⟩ : ∃ columns, steps = columns + 1 :=
    Nat.exists_eq_succ_of_ne_zero fun hzero => params.maxGenLen_pos (hzero ▸ hgen)
  have hcreate : DecodeSession.create engine prompts params = .ok
      { maxPromptLen := 0
        totalLen := columns + 1
        rows := prompts.map (DecodeRow.create engine.padId (columns + 1)) } := by
    rw [DecodeSession.create, hlongest]
    dsimp only
    rw [if_neg (Nat.not_lt_zero _), hgen, Option.getD_some, Nat.zero_add, Nat.min_eq_right hfits]
  simp only [LLMEngine.generate, hcreate, bind, Except.bind, DecodeSession.run,
    DecodeSession.decodeSteps, Nat.sub_zero, if_true]

/-- Where the padding of a batch does not reach a sequence: it is as long as any, or, along what it
generates by itself, penalising `pad_id` as well never moves its pick before it stops. -/
def LLMEngine.PaddingInert (engine : LLMEngine L) (params : SamplingParams)
    (prompts : List (List Token)) (prompt : List Token) (maxGenLen : Nat) : Prop :=
  (∀ other ∈ prompts, other.length ≤ prompt.length) ∨
    0 < prompt.length ∧ ∀ k < maxGenLen,
      (grow (engine.nextToken params prompt []) k).any engine.stops = false →
        AgreeAt engine.stops (engine.nextToken params prompt [])
          (engine.nextToken params prompt [engine.padId])
          (grow (engine.nextToken params prompt []) k)

/-- What is left of two sequences is the same exactly when they show the same. -/
theorem SequenceResult.ofGenerated_eq_iff {stops : Token → Bool} {next next' : List Token → Token}
    {n : Nat} : SequenceResult.ofGenerated stops (grow next' n) = .ofGenerated stops (grow next n) ↔
      ∀ k < n, (grow next k).any stops = false → AgreeAt stops next next' (grow next k) := by
  constructor
  · intro heq
    exact visible_grow_eq_iff.mp (congrArg SequenceResult.acceptedTokens heq)
  · intro hagree
    rw [ofGenerated, ofGenerated, visible_grow_eq_iff.mpr hagree, any_grow_eq hagree]

/-- **A sequence of a batch is what it is alone** if and only if the padding does not reach it. -/
theorem LLMEngine.generate_alone_iff (stream stream' : Bool)
    (hindex : prompts[index]? = some prompt) (hrepeat : params.stopOnRepeat = false)
    (hgen : params.maxGenLen = some steps)
    (hfits : ∀ other ∈ prompts, other.length + steps ≤ engine.maxSeqLen) :
    ((fun results => results[index]?) <$> engine.generate params stream prompts) =
        ((fun results => results[0]?) <$> engine.generate params stream' [prompt]) ↔
      engine.PaddingInert params prompts prompt steps := by
  have hmem := List.mem_of_getElem? hindex
  obtain ⟨maxPromptLen, hlongest⟩ : ∃ longest, (prompts.map List.length).max? = some longest :=
    Option.isSome_iff_exists.mp (by
      rw [List.isSome_max?_iff]
      exact List.map_eq_nil_iff.not.mpr (List.ne_nil_of_mem hmem))
  obtain ⟨hattained, hbound⟩ := List.max?_eq_some_iff.mp hlongest
  obtain ⟨longest, hlongest_mem, hlongest_len⟩ := List.mem_map.mp hattained
  have hmax (other : List Token) (hother : other ∈ prompts) : other.length ≤ maxPromptLen :=
    hbound _ (List.mem_map_of_mem hother)
  have hroom : maxPromptLen + steps ≤ engine.maxSeqLen := hlongest_len ▸ hfits _ hlongest_mem
  have hself : ([prompt].map List.length).max? = some prompt.length := rfl
  have hfirst : [prompt][0]? = some prompt := rfl
  have hwhole : (∀ other ∈ prompts, other.length ≤ prompt.length) ↔
      maxPromptLen ≤ prompt.length :=
    ⟨fun h => hlongest_len ▸ h _ hlongest_mem, fun h other hother => (hmax other hother).trans h⟩
  rw [PaddingInert, hwhole]
  by_cases hprompt : 0 < prompt.length
  · obtain ⟨results, hbatch, hrow⟩ := generate_row stream hindex hprompt hlongest hrepeat hgen hroom
    obtain ⟨alone, hsolo, halone⟩ := generate_row stream' hfirst hprompt hself hrepeat hgen
      (hfits _ hmem)
    rw [hbatch, hsolo]
    simp only [Functor.map, Except.map, Except.ok.injEq, hrow, halone, Option.some.injEq,
      Nat.sub_self, List.replicate_zero]
    by_cases hlong : maxPromptLen ≤ prompt.length
    · -- nothing is padded
      simp [hlong, Nat.sub_eq_zero_of_le hlong]
    · rw [nextToken_replicate _ _ (by omega), SequenceResult.ofGenerated_eq_iff]
      simp [hlong, hprompt]
  · have hnil : prompt.length = 0 := Nat.eq_zero_of_not_pos hprompt
    have hsteps : steps ≤ engine.maxSeqLen := Nat.le_trans (Nat.le_add_left _ _) hroom
    rw [generate_empty stream' (hnil ▸ hself) hgen hsteps]
    by_cases hlong : maxPromptLen ≤ prompt.length
    · have hzero : maxPromptLen = 0 := by omega
      rw [generate_empty stream (hzero ▸ hlongest) hgen hsteps]
      simp [hlong, Functor.map, Except.map]
    · -- the batch has a prompt to start from, an empty prompt alone has not
      obtain ⟨longestIndex, hat⟩ := List.getElem?_of_mem hlongest_mem
      obtain ⟨results, hbatch, -⟩ := generate_row stream hat (by omega) hlongest hrepeat hgen hroom
      simp [hbatch, hlong, hprompt, Functor.map, Except.map]

end

/-- An engine that pads with its EOS id, and a model that always prefers that id by little. -/
def eosPadded : LLMEngine ℚ where
  maxSeqLen := 8
  padId := 0
  vocabSize := 3
  stopTokenIds := [0]
  logits := fun _ => [10, 19 / 2, 1]
  draw := fun _ => 0
  detectRepetition := fun _ => false
  stopTokenIds_lt := by decide
  logits_length := fun _ => rfl

/-- A greedy request with the penalty every request has by default. -/
def greedyRequest : SamplingParams :=
  { SamplingParams.standard with
    temperature := 0
    maxGenLen := some 3
    stopOnRepeat := false
    temperature_nonneg := Rat.le_refl
    maxGenLen_pos := fun hzero => Nat.succ_ne_zero 2 (Option.some.inj hzero) }

/-- The longest prompt of a batch is decoded as it is alone. -/
theorem LLMEngine.generate_alone_longest :
    letI := spellingTokenizer
    ((fun results => results[1]?) <$> eosPadded.generate greedyRequest false [[1], [1, 2]]) =
      ((fun results => results[0]?) <$> eosPadded.generate greedyRequest true [[1, 2]]) :=
  letI := spellingTokenizer
  (LLMEngine.generate_alone_iff false true rfl rfl rfl (by decide)).mpr
    (.inl (by decide))

/-- Next to a longer prompt the EOS of a shorter one is penalised before it was ever generated. -/
theorem LLMEngine.generate_padded_differs :
    letI := spellingTokenizer
    ((fun results => results[0]?) <$> eosPadded.generate greedyRequest false [[1], [1, 2]]) ≠
      ((fun results => results[0]?) <$> eosPadded.generate greedyRequest false [[1]]) := by
  decide +kernel

end RapidLlm
