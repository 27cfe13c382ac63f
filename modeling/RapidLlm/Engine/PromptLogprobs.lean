import RapidLlm.Executor.SlotMetadata
import RapidLlm.Engine.SchedulerWork

/-!
# RapidLlm.Engine.PromptLogprobs

**Prompt log-probabilities, from the logits of a pass to the positions of a prompt**: the plan of
a chunk pass (`_chunk_work` of `engine/scheduler.py`), its rows and their scores
(`_prompt_records` of `executor/worker.py`), and the attribution (`_attribute_prompt_logprobs`),
over runs of chunk passes without preemption.

The model is row-wise: the logits of a row are a function of the slot, the position and the token
it is fed. What scores a row against a token is a parameter, `rows_logprobs`.

A pass whose records are all empty is not attributed: an empty tuple is as false as `None`. A
request that finishes its prompt with one token and asked nothing of a position before it is then
left without a list.
-/

namespace RapidLlm

/-- A request, as far as its prompt's log-probabilities go. -/
structure PromptRequest (Record : Type) where
  slot : Nat
  promptTokenIds : List Token
  /-- `params.prompt_logprobs`. -/
  asked : Option Nat
  numCachedTokens : Nat
  numComputedTokens : Nat
  promptLogprobs : Option (List (Option Record))

/-- A row of a pass: where it is, and the token it is fed. -/
structure FedRow where
  slot : Nat
  position : Nat
  token : Token
  deriving DecidableEq, Repr

/-- The parallel tuples of a chunk pass's `ModelInput`. -/
structure PromptPlan where
  kind : PassKind
  slots : List Nat
  seqStarts : List Nat
  seqLens : List Nat
  tokens : List Token
  sampled : List Nat
  promptLogprobs : List (Option Nat)
  promptTargets : List Token
  deriving DecidableEq, Repr

/-- A pass of prompt chunks, each with the tokens it computes: its kernel, the rows that pad an
extend to a captured size, and the records of its sampled rows, if someone asked for them. -/
structure ChunkPass (Record : Type) where
  kind : PassKind
  chunks : List (RequestRef × Nat)
  filler : List FedRow
  sampledRecords : Option (List (Option Record))

namespace PromptRequest

variable {Record : Type} (request : PromptRequest Record) (chunk : Nat)

def promptLen : Nat := request.promptTokenIds.length

/-- The first cache row of a chunk; the counter has been advanced over it. -/
def start : Nat := request.numComputedTokens - chunk

def advanced : PromptRequest Record :=
  { request with
    numComputedTokens := request.numComputedTokens + chunk }

/-- `prompt_token_ids[start:end]`. -/
def chunkTokens : List Token :=
  (request.promptTokenIds.drop (request.start chunk)).take
    (request.numComputedTokens - request.start chunk)

/-- What the rows of a chunk are scored against: the token after each, `0` where there is
none. -/
def chunkTargets : List Token :=
  let targets := (request.promptTokenIds.drop (request.start chunk + 1)).take
    (request.numComputedTokens - request.start chunk)
  targets ++ List.replicate (chunk - targets.length) 0

end PromptRequest

section Plan

variable {Record : Type} (requests : RequestRef → PromptRequest Record)

/-- `_chunk_work`. -/
def promptWork (kind : PassKind) (chunks : List (RequestRef × Nat)) : PromptPlan :=
  let wantsPrompt := chunks.any fun chunk => (requests chunk.1).asked.isSome
  { kind := kind
    slots := chunks.map fun chunk => (requests chunk.1).slot
    seqStarts := chunks.map fun chunk => (requests chunk.1).start chunk.2
    seqLens := chunks.map fun chunk => (requests chunk.1).numComputedTokens
    tokens := chunks.flatMap fun chunk => (requests chunk.1).chunkTokens chunk.2
    -- only a finished prompt has a next token to sample
    sampled := (List.range chunks.length).filter fun row =>
      (chunks[row]?).any fun chunk =>
        (requests chunk.1).numComputedTokens = (requests chunk.1).promptLen
    promptLogprobs :=
      if wantsPrompt then chunks.map fun chunk => (requests chunk.1).asked else []
    promptTargets :=
      if wantsPrompt then chunks.flatMap fun chunk => (requests chunk.1).chunkTargets chunk.2
      else [] }

end Plan

namespace PromptPlan

variable (plan : PromptPlan)

def chunkLens : List Nat := plan.seqLens.zipWith (· - ·) plan.seqStarts

/-- The grid of `_prepare_grid`: the loop over the chunks, from one on, and the tokens from an
offset on. -/
def gridFrom (tokens : List Token) (padId : Token) (width : Nat) :
    List Nat → Nat → List (List Token)
  | [], _ => []
  | chunk :: chunkLens, offset =>
      ((tokens.drop offset).take chunk ++ List.replicate (width - chunk) padId) ::
        gridFrom tokens padId width chunkLens (offset + chunk)

def width : Nat := plan.chunkLens.foldl max 0

/-- The rows of a prefill grid. -/
def gridRows (padId : Token) : List (List FedRow) :=
  let grid := gridFrom plan.tokens padId plan.width plan.chunkLens 0
  (plan.slots.zip (plan.seqStarts.zip grid)).map fun row =>
    (List.range plan.width).zipWith
      (fun (column : Nat) (token : Token) =>
        { slot := row.1, position := row.2.1 + column, token := token : FedRow }) row.2.2

/-- The rows of an extend, one a token; row `len - 1` of a slot is the one it is fed at. -/
def extendRows (filler : List FedRow) : List FedRow :=
  let stretches := (plan.slots.zip (plan.seqStarts.zip plan.seqLens)).map fun stretch =>
    ({ slot := stretch.1, start := stretch.2.1, stop := stretch.2.2 } : Chunk)
  let rows := SlotBatch.flattenExtendRows stretches
  (rows.1.zip rows.2).zipWith
    (fun (row : Nat × Nat) (token : Token) =>
      { slot := row.1, position := row.2 - 1, token := token : FedRow }) plan.tokens ++ filler

end PromptPlan

section Scores

variable {Logits Record : Type} (logitsOf : FedRow → Logits)
  (score : Nat → Logits → Token → Record) (padId : Token)

/-- The logits of a pass, in the layout of its kernel. -/
inductive PassLogits (Logits : Type)
  | grid (rows : List (List Logits))
  | flat (rows : List Logits)

/-- The first rows of a sequence. -/
def PassLogits.rowsAt {Logits : Type} (index offset rows : Nat) : PassLogits Logits → List Logits
  | .grid logits => (logits.getD index []).take rows
  | .flat logits => (logits.drop offset).take rows

/-- The forward of a pass. -/
def PromptPlan.forward (plan : PromptPlan) (filler : List FedRow) : PassLogits Logits :=
  match plan.kind with
  | .prefill => .grid ((plan.gridRows padId).map fun row => row.map logitsOf)
  | .extend | .decode => .flat ((plan.extendRows filler).map logitsOf)

/-- `_prompt_records`: the loop over the sequences, from one on. -/
def PromptPlan.recordsFrom (plan : PromptPlan) (logits : PassLogits Logits) :
    List (Option Nat × Nat) → Nat → Nat → List (Option (List Record))
  | [], _, _ => []
  | (asked, chunk) :: sequences, index, offset =>
      let records := asked.map fun k =>
        let rows := if index ∈ plan.sampled then chunk - 1 else chunk
        -- a one-token final chunk covers no prompt position
        if rows = 0 then []
        else (logits.rowsAt index offset rows).zipWith (score k)
          ((plan.promptTargets.drop offset).take rows)
      records :: recordsFrom plan logits sequences (index + 1) (offset + chunk)

/-- The prompt records of a pass: none where nobody asked. -/
def PromptPlan.promptRecords (plan : PromptPlan) (filler : List FedRow) :
    List (Option (List Record)) :=
  if plan.promptLogprobs.any Option.isSome then
    plan.recordsFrom score (plan.forward logitsOf padId filler)
      (plan.promptLogprobs.zip plan.chunkLens) 0 0
  else plan.slots.map fun _ => none

/-- `any(prompt)`: neither `None` nor an empty tuple counts. -/
def anyRecords (prompt : List (Option (List Record))) : Bool :=
  prompt.any fun records => records.any fun records => !records.isEmpty

/-! ### The attribution -/

/-- Entry `j` of the records covers position `start + j + 1`. -/
def placeRecords (start : Nat) : List Record → Nat → List (Option Record) →
    Except Raised (List (Option Record))
  | [], _, list => .ok list
  | record :: records, j, list =>
      if start + j + 1 < list.length then
        placeRecords start records (j + 1) (list.set (start + j + 1) (some record))
      else .error (.indexError "list assignment index out of range")

/-- The records of one sequence, on its request. -/
def PromptRequest.attributeRecords (request : PromptRequest Record) (start : Nat) :
    Option (List Record) → Except Raised (PromptRequest Record)
  | none => .ok request
  | some records => do
      let list := request.promptLogprobs.getD (List.replicate request.promptLen none)
      let list ← placeRecords start records 0 list
      return { request with
        promptLogprobs := some list }

/-- The requests of a scheduler, and the positions it has recorded, in order. -/
structure PromptState (Record : Type) where
  requests : RequestRef → PromptRequest Record
  recorded : List (RequestRef × Nat)

/-- `_attribute_prompt_logprobs`. -/
def PromptState.attributePromptLogprobs (s : PromptState Record)
    (sequences : List (RequestRef × Nat × Option (List Record))) :
    Except Raised (PromptState Record) :=
  sequences.foldlM (fun s sequence => do
    let request ← (s.requests sequence.1).attributeRecords sequence.2.1 sequence.2.2
    let positions := (List.range (sequence.2.2.getD []).length).map fun j =>
      (sequence.1, sequence.2.1 + j + 1)
    return {
      requests := Function.update s.requests sequence.1 request
      recorded := s.recorded ++ positions }) s

/-- The planner advances the counters of the requests it gives a chunk. -/
def PromptState.advance (s : PromptState Record) (chunks : List (RequestRef × Nat)) :
    PromptState Record :=
  chunks.foldl (fun s chunk => { s with
    requests := Function.update s.requests chunk.1 ((s.requests chunk.1).advanced chunk.2) }) s

/-- One pass: its plan, its records, and their attribution. -/
def PromptState.runPass (s : PromptState Record) (pass : ChunkPass Record) :
    Except Raised (PromptState Record) :=
  let s := s.advance pass.chunks
  let plan := promptWork s.requests pass.kind pass.chunks
  let prompt := plan.promptRecords logitsOf score padId pass.filler
  let logprobs :=
    if !anyRecords prompt && pass.sampledRecords.isNone then none else some prompt
  match logprobs with
  | none => .ok s
  | some prompt =>
      if anyRecords prompt then
        s.attributePromptLogprobs ((pass.chunks.map Prod.fst).zip (plan.seqStarts.zip prompt))
      else .ok s

end Scores

/-! ### What a chunk scores -/

section Scored

variable {Logits Record : Type} (logitsOf : FedRow → Logits)
  (score : Nat → Logits → Token → Record)

namespace PromptRequest

variable (request : PromptRequest Record) (chunk : Nat)

/-- Row `j` of a chunk. -/
def fedRow (j : Nat) : FedRow where
  slot := request.slot
  position := request.start chunk + j
  token := request.promptTokenIds.getD (request.start chunk + j) 0

/-- The record of a position: the logits of the row before it, against the prompt's own token. -/
def recordAt (k p : Nat) : Record :=
  score k (logitsOf ⟨request.slot, p - 1, request.promptTokenIds.getD (p - 1) 0⟩)
    (request.promptTokenIds.getD p 0)

/-- How many rows of a chunk are scored: the sampled one is not. -/
def scoredRows : Nat :=
  if request.numComputedTokens = request.promptLen then chunk - 1 else chunk

/-- The records of a chunk. -/
def scored : Option (List Record) :=
  request.asked.map fun k => (List.range (request.scoredRows chunk)).map fun j =>
    request.recordAt logitsOf score k (request.start chunk + j + 1)

/-- The counter has been advanced over the chunk. -/
structure Advanced : Prop where
  pos : 0 < chunk
  le : chunk ≤ request.numComputedTokens
  fits : request.numComputedTokens ≤ request.promptLen

theorem scoredRows_le_chunk : request.scoredRows chunk ≤ chunk := by
  unfold scoredRows
  split <;> omega

variable {request chunk}

theorem Advanced.start_add (h : request.Advanced chunk) :
    request.start chunk + chunk = request.numComputedTokens :=
  Nat.sub_add_cancel h.le

theorem Advanced.width (h : request.Advanced chunk) :
    request.numComputedTokens - request.start chunk = chunk := by
  have := h.start_add
  omega

theorem Advanced.scoredRows_le (h : request.Advanced chunk) :
    request.start chunk + request.scoredRows chunk + 1 ≤ request.promptLen := by
  have := h.start_add
  have := h.fits
  have := h.pos
  unfold scoredRows
  split <;> omega

/-- A stretch of a list, entry by entry. -/
theorem take_drop_eq_map (tokens : List Token) {start n : Nat} (h : start + n ≤ tokens.length) :
    (tokens.drop start).take n = (List.range n).map fun j => tokens.getD (start + j) 0 := by
  refine List.ext_getElem (by simp; omega) fun i hi hi' => ?_
  have hlt : i < n := by simpa using hi'
  rw [List.getElem_take, List.getElem_drop, List.getElem_map, List.getElem_range,
    List.getD_eq_getElem _ _ (by omega)]

theorem Advanced.chunkTokens_eq (h : request.Advanced chunk) : request.chunkTokens chunk =
    (List.range chunk).map fun j => request.promptTokenIds.getD (request.start chunk + j) 0 := by
  rw [chunkTokens, h.width]
  exact take_drop_eq_map _ (h.start_add.trans_le h.fits)

theorem Advanced.chunkTargets_length (h : request.Advanced chunk) :
    (request.chunkTargets chunk).length = chunk := by
  rw [chunkTargets, h.width]
  simp only [List.length_append, List.length_replicate, List.length_take]
  omega

/-- The scored rows are scored against the prompt's next tokens. -/
theorem Advanced.chunkTargets_take (h : request.Advanced chunk) :
    (request.chunkTargets chunk).take (request.scoredRows chunk) =
      (List.range (request.scoredRows chunk)).map fun j =>
        request.promptTokenIds.getD (request.start chunk + j + 1) 0 := by
  have hle := h.scoredRows_le
  have hrows := request.scoredRows_le_chunk chunk
  have hprompt : request.promptLen = request.promptTokenIds.length := rfl
  rw [chunkTargets, h.width]
  rw [List.take_append_of_le_length (by rw [List.length_take, List.length_drop]; omega),
    List.take_take, Nat.min_eq_left hrows, take_drop_eq_map _ (by omega)]
  exact List.map_congr_left fun j _ => by rw [Nat.add_right_comm]

end PromptRequest

/-! ### The two layouts -/

variable {requests : RequestRef → PromptRequest Record} {chunks : List (RequestRef × Nat)}

/-- The rows of a chunk. -/
def fedRows (requests : RequestRef → PromptRequest Record) (chunk : RequestRef × Nat) :
    List FedRow :=
  (List.range chunk.2).map ((requests chunk.1).fedRow chunk.2)

theorem fedRows_length (chunk : RequestRef × Nat) :
    (fedRows requests chunk).length = chunk.2 := by
  rw [fedRows, List.length_map, List.length_range]

theorem zipWith_map_range {α β γ : Type} (k : α → β → γ) (n : Nat) (f : Nat → α) (g : Nat → β) :
    ((List.range n).map f).zipWith k ((List.range n).map g) =
      (List.range n).map fun j => k (f j) (g j) :=
  List.ext_getElem (by simp) fun i _ _ => by simp

namespace PromptPlan

theorem chunkLens_eq (kind : PassKind)
    (h : ∀ chunk ∈ chunks, (requests chunk.1).Advanced chunk.2) :
    (promptWork requests kind chunks).chunkLens = chunks.map Prod.snd := by
  rw [chunkLens, promptWork, List.zipWith_map, List.zipWith_self]
  exact List.map_congr_left fun chunk hchunk => (h chunk hchunk).width

/-- **An extend** has the rows of its chunks, one after another. -/
theorem extendRows_eq {kind : PassKind}
    (h : ∀ chunk ∈ chunks, (requests chunk.1).Advanced chunk.2) (filler : List FedRow) :
    (promptWork requests kind chunks).extendRows filler =
      chunks.flatMap (fedRows requests) ++ filler := by
  have hstretches : ((promptWork requests kind chunks).slots.zip
      ((promptWork requests kind chunks).seqStarts.zip
        (promptWork requests kind chunks).seqLens)).map
        (fun stretch =>
          ({ slot := stretch.1, start := stretch.2.1, stop := stretch.2.2 } : Chunk)) =
      chunks.map fun chunk =>
        { slot := (requests chunk.1).slot, start := (requests chunk.1).start chunk.2
          stop := (requests chunk.1).numComputedTokens } := by
    simp only [promptWork, List.zip_map', List.map_map]
    rfl
  have hlen : ∀ chunk ∈ chunks, Chunk.length
      { slot := (requests chunk.1).slot, start := (requests chunk.1).start chunk.2
        stop := (requests chunk.1).numComputedTokens } = chunk.2 := fun chunk hchunk =>
    (h chunk hchunk).width
  rw [extendRows, hstretches]
  rw [SlotBatch.flattenExtendRows_eq, List.flatMap_map, List.flatMap_map,
    Rectangle.zip_flatMap fun chunk _ => by simp, promptWork,
    Rectangle.zipWith_flatMap fun chunk hchunk => ?_]
  · refine congrArg (· ++ filler) (List.flatMap_congr fun chunk hchunk => ?_)
    rw [hlen chunk hchunk, (h chunk hchunk).chunkTokens_eq]
    refine List.ext_getElem (by simp [fedRows_length]) fun j hj hj' => ?_
    rw [fedRows_length] at hj'
    simp [fedRows, PromptRequest.fedRow]
  · rw [hlen chunk hchunk, (h chunk hchunk).chunkTokens_eq]
    simp

/-- The loop over the grid, when the tokens left are those of the chunks left. -/
theorem gridFrom_eq (tokens : List Token) (padId : Token) (width : Nat)
    (tokensOf : RequestRef × Nat → List Token) :
    ∀ (chunks : List (RequestRef × Nat)) (offset : Nat),
    (∀ chunk ∈ chunks, (tokensOf chunk).length = chunk.2) →
    tokens.drop offset = chunks.flatMap tokensOf →
    gridFrom tokens padId width (chunks.map Prod.snd) offset =
      chunks.map fun chunk => tokensOf chunk ++ List.replicate (width - chunk.2) padId
  | [], _, _, _ => rfl
  | chunk :: chunks, offset, hlen, htokens => by
      have hchunk : (tokensOf chunk).length = chunk.2 := hlen chunk (List.mem_cons_self ..)
      rw [List.flatMap_cons] at htokens
      have hrest : tokens.drop (offset + chunk.2) = chunks.flatMap tokensOf := by
        rw [← List.drop_drop, htokens, List.drop_left' hchunk]
      rw [List.map_cons, gridFrom, htokens, List.take_left' hchunk,
        gridFrom_eq tokens padId width tokensOf chunks _ (fun c hc => hlen c (.tail _ hc)) hrest,
        List.map_cons]

/-- **A grid** has the rows of a chunk at the front of the chunk's own row. -/
theorem gridRows_eq (kind : PassKind)
    (h : ∀ chunk ∈ chunks, (requests chunk.1).Advanced chunk.2) (padId : Token) :
    ∃ pads : RequestRef × Nat → List FedRow,
      (promptWork requests kind chunks).gridRows padId =
        chunks.map fun chunk => fedRows requests chunk ++ pads chunk := by
  have hlens := chunkLens_eq kind h
  generalize hplan : promptWork requests kind chunks = plan at hlens
  have htokens : ∀ chunk ∈ chunks, ((requests chunk.1).chunkTokens chunk.2).length = chunk.2 := by
    intro chunk hchunk
    rw [(h chunk hchunk).chunkTokens_eq, List.length_map, List.length_range]
  have hgrid : gridFrom plan.tokens padId plan.width plan.chunkLens 0 = chunks.map fun chunk =>
      (requests chunk.1).chunkTokens chunk.2 ++
        List.replicate (plan.width - chunk.2) padId := by
    rw [hlens]
    refine gridFrom_eq _ _ _ _ chunks 0 htokens ?_
    rw [← hplan]
    rfl
  have hslots : plan.slots = chunks.map fun chunk => (requests chunk.1).slot := by rw [← hplan]; rfl
  have hstarts : plan.seqStarts = chunks.map fun chunk => (requests chunk.1).start chunk.2 := by
    rw [← hplan]; rfl
  have hwidth : ∀ chunk ∈ chunks, chunk.2 ≤ plan.width := by
    intro chunk hchunk
    rw [width, hlens]
    exact ModelInput.le_foldl_max (List.mem_map_of_mem hchunk)
  refine ⟨fun chunk => ((List.range (plan.width - chunk.2)).map (chunk.2 + ·)).zipWith
    (fun (column : Nat) (token : Token) =>
      { slot := (requests chunk.1).slot
        position := (requests chunk.1).start chunk.2 + column
        token := token }) (List.replicate (plan.width - chunk.2) padId), ?_⟩
  rw [gridRows, hgrid, hslots, hstarts]
  rw [List.zip_map', List.zip_map', List.map_map]
  refine List.map_congr_left fun chunk hchunk => ?_
  obtain ⟨rest, hrest⟩ := Nat.exists_eq_add_of_le (hwidth chunk hchunk)
  rw [Function.comp_apply]
  dsimp only
  rw [hrest, Nat.add_sub_cancel_left, List.range_add,
    List.zipWith_append (by rw [htokens chunk hchunk, List.length_range]),
    (h chunk hchunk).chunkTokens_eq]
  refine congrArg (· ++ _) (List.ext_getElem (by simp [fedRows_length]) fun j hj hj' => ?_)
  simp [fedRows, PromptRequest.fedRow]

end PromptPlan

/-! ### The records of a pass -/

/-- The rows of the chunks from one on, in the layout of a pass. -/
def PassLogits.HasRows {Logits : Type} (logits : PassLogits Logits)
    (rowsOf : RequestRef × Nat → List Logits) (chunks : List (RequestRef × Nat))
    (index offset : Nat) : Prop :=
  match logits with
  | .grid rows => ∃ pads : RequestRef × Nat → List Logits,
      rows.drop index = chunks.map fun chunk => rowsOf chunk ++ pads chunk
  | .flat rows => ∃ rest, rows.drop offset = chunks.flatMap rowsOf ++ rest

namespace PassLogits

variable {logits : PassLogits Logits} {rowsOf : RequestRef × Nat → List Logits}
  {chunk : RequestRef × Nat} {index offset : Nat}

/-- The first chunk's rows are read from the front of its stretch. -/
theorem HasRows.head (h : logits.HasRows rowsOf (chunk :: chunks) index offset) {rows : Nat}
    (hrows : rows ≤ (rowsOf chunk).length) :
    logits.rowsAt index offset rows = (rowsOf chunk).take rows := by
  cases logits with
  | grid lines =>
    obtain ⟨pads, hgrid⟩ := h
    have hindex : lines.getD index [] = rowsOf chunk ++ pads chunk := by
      rw [List.getD_eq_getElem?_getD, ← List.head?_drop, hgrid]
      rfl
    rw [rowsAt, hindex, List.take_append_of_le_length hrows]
  | flat lines =>
    obtain ⟨rest, hflat⟩ := h
    rw [rowsAt, hflat, List.flatMap_cons, List.append_assoc,
      List.take_append_of_le_length hrows]

theorem HasRows.tail (h : logits.HasRows rowsOf (chunk :: chunks) index offset)
    (hlen : (rowsOf chunk).length = chunk.2) :
    logits.HasRows rowsOf chunks (index + 1) (offset + chunk.2) := by
  cases logits with
  | grid lines =>
    obtain ⟨pads, hgrid⟩ := h
    exact ⟨pads, by rw [← List.drop_drop, hgrid]; rfl⟩
  | flat lines =>
    obtain ⟨rest, hflat⟩ := h
    refine ⟨rest, ?_⟩
    rw [← List.drop_drop, hflat, List.flatMap_cons, List.append_assoc, List.drop_left' hlen]

end PassLogits

namespace PromptPlan

/-- The loop over the sequences, when the rows and the targets left are those of the chunks
left. -/
theorem recordsFrom_eq (plan : PromptPlan) (logits : PassLogits Logits) :
    ∀ (chunks : List (RequestRef × Nat)) (index offset : Nat),
    (∀ chunk ∈ chunks, (requests chunk.1).Advanced chunk.2) →
    logits.HasRows (fun chunk => (fedRows requests chunk).map logitsOf) chunks index offset →
    plan.promptTargets.drop offset =
      (chunks.flatMap fun chunk => (requests chunk.1).chunkTargets chunk.2) →
    (∀ i chunk, chunks[i]? = some chunk → (index + i ∈ plan.sampled ↔
      (requests chunk.1).numComputedTokens = (requests chunk.1).promptLen)) →
    plan.recordsFrom score logits (chunks.map fun chunk => ((requests chunk.1).asked, chunk.2))
        index offset =
      chunks.map fun chunk => (requests chunk.1).scored logitsOf score chunk.2
  | [], _, _, _, _, _, _ => rfl
  | chunk :: chunks, index, offset, h, hrows, htargets, hsampled => by
      have hchunk := h chunk (List.mem_cons_self ..)
      have hlen : ((fedRows requests chunk).map logitsOf).length = chunk.2 := by
        rw [List.length_map, fedRows_length]
      rw [List.flatMap_cons] at htargets
      have hrest : plan.promptTargets.drop (offset + chunk.2) =
          chunks.flatMap fun chunk => (requests chunk.1).chunkTargets chunk.2 := by
        rw [← List.drop_drop, htargets, List.drop_left' hchunk.chunkTargets_length]
      have htail := recordsFrom_eq plan logits chunks (index + 1) (offset + chunk.2)
        (fun c hc => h c (.tail _ hc)) (hrows.tail hlen) hrest fun i c hc => by
          rw [Nat.add_assoc, Nat.add_comm 1 i]
          exact hsampled (i + 1) c hc
      -- the sampled row is the one left out
      have hscored : (if index ∈ plan.sampled then chunk.2 - 1 else chunk.2) =
          (requests chunk.1).scoredRows chunk.2 :=
        if_congr (hsampled 0 chunk rfl) rfl rfl
      have hle := (requests chunk.1).scoredRows_le_chunk chunk.2
      rw [List.map_cons, recordsFrom, htail, List.map_cons, PromptRequest.scored]
      refine congrArg (· :: _) (congrArg (fun records => Option.map records _) (funext fun k => ?_))
      dsimp only
      rw [hscored]
      split
      · rename_i hzero
        rw [hzero]
        rfl
      · rw [hrows.head (hle.trans_eq hlen.symm), htargets,
          List.take_append_of_le_length (hle.trans_eq hchunk.chunkTargets_length.symm),
          hchunk.chunkTargets_take, fedRows, List.map_map, ← List.map_take, List.take_range,
          Nat.min_eq_left hle, zipWith_map_range]
        rfl

/-- **The records of a pass**, whatever its kernel and whoever is in it, are those of its chunks. -/
theorem promptRecords_eq {kind : PassKind}
    (h : ∀ chunk ∈ chunks, (requests chunk.1).Advanced chunk.2) (padId : Token)
    (filler : List FedRow) :
    (promptWork requests kind chunks).promptRecords logitsOf score padId filler =
      chunks.map fun chunk => (requests chunk.1).scored logitsOf score chunk.2 := by
  have hlens := chunkLens_eq kind h
  by_cases hasked : (chunks.any fun chunk => (requests chunk.1).asked.isSome) = true
  · have hlogprobs : (promptWork requests kind chunks).promptLogprobs =
        chunks.map fun chunk => (requests chunk.1).asked := by
      rw [promptWork, if_pos hasked]
    have hany : ((promptWork requests kind chunks).promptLogprobs.any Option.isSome) = true := by
      rw [hlogprobs, List.any_map]
      exact hasked
    rw [promptRecords, if_pos hany, hlogprobs, hlens, List.zip_map']
    refine recordsFrom_eq logitsOf score _ _ chunks 0 0 h ?_ ?_ fun i chunk hi => ?_
    · -- either layout has the rows of every chunk
      have hflat : PassLogits.HasRows
          (.flat (((promptWork requests kind chunks).extendRows filler).map logitsOf))
          (fun chunk => (fedRows requests chunk).map logitsOf) chunks 0 0 := by
        refine ⟨filler.map logitsOf, ?_⟩
        rw [extendRows_eq h, List.drop_zero, List.map_append, List.map_flatMap]
      cases kind with
      | prefill =>
        obtain ⟨pads, hgrid⟩ := gridRows_eq .prefill h padId
        refine ⟨fun chunk => (pads chunk).map logitsOf, ?_⟩
        rw [hgrid, List.drop_zero, List.map_map]
        exact List.map_congr_left fun chunk _ => List.map_append
      | extend => exact hflat
      | decode => exact hflat
    · rw [List.drop_zero]
      exact if_pos hasked
    · have hlt : i < chunks.length := (List.getElem?_eq_some_iff.mp hi).1
      rw [Nat.zero_add, promptWork, List.mem_filter, List.mem_range, hi]
      simp [hlt]
  · have hnone : ∀ chunk ∈ chunks, (requests chunk.1).asked = none := by
      intro chunk hchunk
      by_contra hsome
      exact hasked (List.any_eq_true.mpr
        ⟨chunk, hchunk, Option.isSome_iff_ne_none.mpr hsome⟩)
    rw [promptRecords, promptWork, if_neg hasked, List.any_nil, if_neg Bool.false_ne_true,
      List.map_map]
    refine List.map_congr_left fun chunk hchunk => ?_
    rw [PromptRequest.scored, hnone chunk hchunk]
    rfl

end PromptPlan

/-! ### The records of a chunk, on its request -/

/-- A stretch of records after a position lands behind it, and nothing else changes. -/
theorem placeRecords_ok (recordOf : Nat → Record) (start : Nat) : ∀ (n j : Nat)
    (list : List (Option Record)), (0 < n → start + j + n < list.length) →
    ∃ placed, placeRecords start
        ((List.range' j n).map fun i => recordOf (start + i + 1)) j list = .ok placed ∧
      placed.length = list.length ∧
      ∀ p, placed[p]? = if start + j < p ∧ p ≤ start + j + n then some (some (recordOf p))
        else list[p]?
  | 0, j, list, _ => by
      refine ⟨list, rfl, rfl, fun p => ?_⟩
      rw [if_neg (by omega)]
  | n + 1, j, list, h => by
      have hlt : start + j + 1 < list.length := by have := h n.succ_pos; omega
      obtain ⟨placed, hplaced, hlength, hentry⟩ := placeRecords_ok recordOf start n (j + 1)
        (list.set (start + j + 1) (some (recordOf (start + j + 1)))) fun hn => by
          rw [List.length_set]
          have := h n.succ_pos
          omega
      refine ⟨placed, ?_, by rw [hlength, List.length_set], fun p => ?_⟩
      · rw [List.range'_succ, List.map_cons, placeRecords, if_pos hlt]
        exact hplaced
      · rw [hentry, List.getElem?_set, if_pos hlt]
        by_cases hp : p = start + j + 1
        · subst hp
          rw [if_neg (by omega), if_pos rfl, if_pos (by omega)]
        · rw [if_neg (Ne.symm hp)]
          exact if_congr (by omega) rfl rfl

namespace PromptRequest

variable {request : PromptRequest Record} {chunk : Nat}

/-- The positions a chunk records. -/
def scoredPositions (request : PromptRequest Record) (chunk : Nat) : List Nat :=
  if request.asked.isSome then
    (List.range (request.scoredRows chunk)).map fun j => request.start chunk + j + 1
  else []

/-- The rows that are scored predict the positions up to the counter, the prompt's end apart. -/
theorem Advanced.scored_iff (h : request.Advanced chunk) (p : Nat) :
    request.start chunk < p ∧ p ≤ request.start chunk + request.scoredRows chunk ↔
      request.start chunk < p ∧ p ≤ request.numComputedTokens ∧ p < request.promptLen := by
  have := h.start_add
  have := h.fits
  have := h.pos
  unfold scoredRows
  split <;> omega

theorem Advanced.count_scoredPositions (h : request.Advanced chunk) (p : Nat) :
    (request.scoredPositions chunk).count p =
      if request.asked.isSome ∧ request.start chunk < p ∧ p ≤ request.numComputedTokens ∧
        p < request.promptLen then 1 else 0 := by
  rw [scoredPositions, if_congr (and_congr_right fun _ => (h.scored_iff p).symm) rfl rfl]
  by_cases hasked : request.asked.isSome = true
  · have hnodup : ((List.range (request.scoredRows chunk)).map fun j =>
        request.start chunk + j + 1).Nodup :=
      List.nodup_range.map fun i j hij => by simpa using hij
    rw [if_pos hasked, hnodup.count]
    refine if_congr ?_ rfl rfl
    rw [List.mem_map]
    constructor
    · rintro ⟨j, hj, rfl⟩
      have := List.mem_range.mp hj
      exact ⟨hasked, by omega, by omega⟩
    · rintro ⟨-, hlt, hle⟩
      exact ⟨p - request.start chunk - 1, List.mem_range.mpr (by omega), by omega⟩
  · rw [if_neg hasked, List.count_nil, if_neg fun h => hasked h.1]

/-- A request that did not ask is left alone. -/
theorem attribute_unasked (h : request.asked = none) (start : Nat) :
    request.attributeRecords start (request.scored logitsOf score chunk) = .ok request := by
  rw [scored, h]
  rfl

/-- **A request that asked** gets the records of the chunk's positions in its list. -/
theorem attribute_asked {k : Nat} (hasked : request.asked = some k)
    (h : request.Advanced chunk)
    (hlist : ∀ list, request.promptLogprobs = some list → list.length = request.promptLen) :
    ∃ list, request.attributeRecords (request.start chunk) (request.scored logitsOf score chunk) =
        .ok { request with promptLogprobs := some list } ∧
      list.length = request.promptLen ∧
      ∀ p, list[p]? =
        if request.start chunk < p ∧ p ≤ request.numComputedTokens ∧ p < request.promptLen then
          some (some (request.recordAt logitsOf score k p))
        else (request.promptLogprobs.getD (List.replicate request.promptLen none))[p]? := by
  have hlength : (request.promptLogprobs.getD (List.replicate request.promptLen none)).length =
      request.promptLen := by
    cases hold : request.promptLogprobs with
    | none => exact List.length_replicate
    | some list => exact hlist list hold
  have hle := h.scoredRows_le
  obtain ⟨list, hplaced, hlen, hentry⟩ := placeRecords_ok
    (request.recordAt logitsOf score k) (request.start chunk) (request.scoredRows chunk) 0
    (request.promptLogprobs.getD (List.replicate request.promptLen none))
    (fun _ => by rw [hlength]; omega)
  refine ⟨list, ?_, hlen.trans hlength, fun p => ?_⟩
  · have hscored : request.scored logitsOf score chunk =
        some ((List.range' 0 (request.scoredRows chunk)).map fun j =>
          request.recordAt logitsOf score k (request.start chunk + j + 1)) := by
      rw [scored, hasked, List.range_eq_range']
      rfl
    rw [hscored, attributeRecords, hplaced]
    rfl
  · rw [hentry, Nat.add_zero]
    exact if_congr (h.scored_iff p) rfl rfl

end PromptRequest

/-! ### A pass -/

/-- A pass as the planner plans one: each request at most once, with tokens of its prompt that
are still to be computed. -/
structure PromptState.Plannable (s : PromptState Record) (pass : ChunkPass Record) : Prop where
  chunked : pass.kind ≠ .decode
  nonempty : pass.chunks ≠ []
  nodup : (pass.chunks.map Prod.fst).Nodup
  pos : ∀ chunk ∈ pass.chunks, 0 < chunk.2
  fits : ∀ chunk ∈ pass.chunks,
    (s.requests chunk.1).numComputedTokens + chunk.2 ≤ (s.requests chunk.1).promptLen

/-- One pass: what it leaves behind when nothing is raised. -/
def PromptStep (padId : Token) (s : PromptState Record) (pass : ChunkPass Record)
    (t : PromptState Record) : Prop :=
  s.Plannable pass ∧ s.runPass logitsOf score padId pass = .ok t

namespace PromptState

variable {s t : PromptState Record} {pass : ChunkPass Record} {r : RequestRef}

theorem advance_recorded (s : PromptState Record) (chunks : List (RequestRef × Nat)) :
    (s.advance chunks).recorded = s.recorded := by
  induction chunks generalizing s with
  | nil => rfl
  | cons chunk chunks ih => exact ih _

theorem advance_other (s : PromptState Record) (chunks : List (RequestRef × Nat))
    (h : r ∉ chunks.map Prod.fst) : (s.advance chunks).requests r = s.requests r := by
  induction chunks generalizing s with
  | nil => rfl
  | cons chunk chunks ih =>
    rw [List.map_cons, List.mem_cons, not_or] at h
    exact (ih _ h.2).trans (Function.update_of_ne h.1 _ _)

theorem advance_of_mem (s : PromptState Record) {chunks : List (RequestRef × Nat)}
    (hnodup : (chunks.map Prod.fst).Nodup) {chunk : RequestRef × Nat} (h : chunk ∈ chunks) :
    (s.advance chunks).requests chunk.1 = (s.requests chunk.1).advanced chunk.2 := by
  induction chunks generalizing s with
  | nil => cases h
  | cons first chunks ih =>
    rw [List.map_cons, List.nodup_cons] at hnodup
    rcases List.mem_cons.mp h with rfl | hrest
    · exact (advance_other _ chunks hnodup.1).trans (Function.update_self ..)
    · have hne : chunk.1 ≠ first.1 := fun heq =>
        hnodup.1 (heq ▸ List.mem_map_of_mem hrest)
      refine (ih _ hnodup.2 hrest).trans ?_
      exact congrArg (PromptRequest.advanced · chunk.2) (Function.update_of_ne hne _ _)

/-- A request that a pass computes tokens for, its counter advanced. -/
theorem Plannable.advanced (h : s.Plannable pass) {chunk : RequestRef × Nat}
    (hchunk : chunk ∈ pass.chunks) :
    ((s.requests chunk.1).advanced chunk.2).Advanced chunk.2 where
  pos := h.pos chunk hchunk
  le := Nat.le_add_left _ _
  fits := h.fits chunk hchunk

theorem Plannable.advanced_all (h : s.Plannable pass) :
    ∀ chunk ∈ pass.chunks, ((s.advance pass.chunks).requests chunk.1).Advanced chunk.2 := by
  intro chunk hchunk
  rw [advance_of_mem s h.nodup hchunk]
  exact h.advanced hchunk

/-- Records of different requests are attributed one by one. -/
theorem attributePromptLogprobs_ok : ∀ (sequences : List (RequestRef × Nat × Option (List Record)))
    (s : PromptState Record), (sequences.map Prod.fst).Nodup →
    (∀ sequence ∈ sequences, ∃ request,
      (s.requests sequence.1).attributeRecords sequence.2.1 sequence.2.2 = .ok request) →
    ∃ t, s.attributePromptLogprobs sequences = .ok t ∧
      (∀ r ∉ sequences.map Prod.fst, t.requests r = s.requests r) ∧
      (∀ sequence ∈ sequences, (s.requests sequence.1).attributeRecords sequence.2.1 sequence.2.2 =
        .ok (t.requests sequence.1)) ∧
      t.recorded = s.recorded ++ sequences.flatMap fun sequence =>
        (List.range (sequence.2.2.getD []).length).map fun j =>
          (sequence.1, sequence.2.1 + j + 1)
  | [], s, _, _ => ⟨s, rfl, fun _ _ => rfl, fun _ h => (List.not_mem_nil h).elim,
      (List.append_nil _).symm⟩
  | sequence :: sequences, s, hnodup, h => by
      rw [List.map_cons, List.nodup_cons] at hnodup
      obtain ⟨request, hrequest⟩ := h sequence (List.mem_cons_self ..)
      have hother : ∀ other ∈ sequences,
          Function.update s.requests sequence.1 request other.1 = s.requests other.1 := by
        intro other hmem
        refine Function.update_of_ne (fun heq => hnodup.1 ?_) _ _
        exact heq ▸ List.mem_map_of_mem hmem
      obtain ⟨t, ht, hout, hin, hrecorded⟩ := attributePromptLogprobs_ok sequences
        { requests := Function.update s.requests sequence.1 request
          recorded := s.recorded ++ (List.range (sequence.2.2.getD []).length).map fun j =>
            (sequence.1, sequence.2.1 + j + 1) } hnodup.2 fun other hmem => by
          have := h other (.tail _ hmem)
          rwa [← hother other hmem] at this
      dsimp only at hout hin hrecorded
      refine ⟨t, ?_, fun r hr => ?_, fun other hmem => ?_, ?_⟩
      · rw [attributePromptLogprobs, List.foldlM_cons, hrequest]
        exact ht
      · rw [List.map_cons, List.mem_cons, not_or] at hr
        exact (hout r hr.2).trans (Function.update_of_ne hr.1 _ _)
      · rcases List.mem_cons.mp hmem with rfl | hmem
        · rw [hout _ hnodup.1, hrequest, Function.update_self]
        · have := hin other hmem
          rwa [hother other hmem] at this
      · rw [hrecorded, List.flatMap_cons, List.append_assoc]

/-- Somebody asked for a position that this pass computes the logits of. -/
def Scores (s : PromptState Record) (pass : ChunkPass Record) : Prop :=
  ∃ chunk ∈ pass.chunks, (s.requests chunk.1).asked.isSome ∧
    ¬ (chunk.2 = 1 ∧ (s.requests chunk.1).numComputedTokens + 1 = (s.requests chunk.1).promptLen)

/-- A row of a chunk is scored unless the chunk is a prompt's last token. -/
theorem Plannable.scoredRows_eq_zero (h : s.Plannable pass) {chunk : RequestRef × Nat}
    (hchunk : chunk ∈ pass.chunks) :
    ((s.requests chunk.1).advanced chunk.2).scoredRows chunk.2 = 0 ↔
      chunk.2 = 1 ∧ (s.requests chunk.1).numComputedTokens + 1 =
        (s.requests chunk.1).promptLen := by
  have hpos := h.pos chunk hchunk
  have hcomputed : ((s.requests chunk.1).advanced chunk.2).numComputedTokens =
      (s.requests chunk.1).numComputedTokens + chunk.2 := rfl
  have hlen : ((s.requests chunk.1).advanced chunk.2).promptLen =
      (s.requests chunk.1).promptLen := rfl
  rw [PromptRequest.scoredRows, hcomputed, hlen]
  split <;> omega

/-- The gate of the attribution, in terms of the requests before the pass. -/
theorem Plannable.anyRecords_iff (h : s.Plannable pass) :
    anyRecords (pass.chunks.map fun chunk =>
        ((s.advance pass.chunks).requests chunk.1).scored logitsOf score chunk.2) = true ↔
      s.Scores pass := by
  rw [anyRecords, List.any_map, List.any_eq_true]
  refine exists_congr fun chunk => and_congr_right fun hchunk => ?_
  rw [Function.comp_apply, advance_of_mem s h.nodup hchunk, ← h.scoredRows_eq_zero hchunk,
    PromptRequest.scored]
  have hasked : ((s.requests chunk.1).advanced chunk.2).asked = (s.requests chunk.1).asked := rfl
  rw [hasked]
  cases (s.requests chunk.1).asked with
  | none => simp
  | some k => simp

/-- Which lists a pass that scores nothing, or something, leaves behind. -/
structure Passed (s : PromptState Record) (pass : ChunkPass Record) (t : PromptState Record) :
    Prop where
  other : ∀ r ∉ pass.chunks.map Prod.fst, t.requests r = s.requests r
  quiet : ¬ s.Scores pass → ∀ chunk ∈ pass.chunks,
    t.requests chunk.1 = (s.requests chunk.1).advanced chunk.2
  scored : s.Scores pass → ∀ chunk ∈ pass.chunks,
    ((s.requests chunk.1).advanced chunk.2).attributeRecords
      (((s.requests chunk.1).advanced chunk.2).start chunk.2)
      (((s.requests chunk.1).advanced chunk.2).scored logitsOf score chunk.2) =
        .ok (t.requests chunk.1)
  recorded : t.recorded = s.recorded ++ pass.chunks.flatMap fun chunk =>
    (((s.requests chunk.1).advanced chunk.2).scoredPositions chunk.2).map fun p => (chunk.1, p)

/-- The lists of a state have the length of their prompts. -/
def Fitting (s : PromptState Record) : Prop :=
  ∀ r list, (s.requests r).promptLogprobs = some list → list.length = (s.requests r).promptLen

/-- A pass attributes the records of its chunks, when there are any. -/
theorem Plannable.runPass_eq (h : s.Plannable pass) (padId : Token) :
    s.runPass logitsOf score padId pass =
      if anyRecords (pass.chunks.map fun chunk =>
          ((s.advance pass.chunks).requests chunk.1).scored logitsOf score chunk.2) then
        (s.advance pass.chunks).attributePromptLogprobs (pass.chunks.map fun chunk =>
          (chunk.1, ((s.advance pass.chunks).requests chunk.1).start chunk.2,
            ((s.advance pass.chunks).requests chunk.1).scored logitsOf score chunk.2))
      else .ok (s.advance pass.chunks) := by
  have hstarts : (promptWork (s.advance pass.chunks).requests pass.kind pass.chunks).seqStarts =
      pass.chunks.map fun chunk => ((s.advance pass.chunks).requests chunk.1).start chunk.2 := rfl
  rw [runPass, PromptPlan.promptRecords_eq logitsOf score h.advanced_all, hstarts]
  by_cases hany : anyRecords (pass.chunks.map fun chunk =>
      ((s.advance pass.chunks).requests chunk.1).scored logitsOf score chunk.2) = true
  · rw [hany, Bool.not_true, Bool.false_and, if_neg Bool.false_ne_true]
    dsimp only
    rw [List.zip_map', List.zip_map', hany]
  · rw [Bool.not_eq_true] at hany
    cases pass.sampledRecords with
    | none =>
      rw [hany]
      rfl
    | some records =>
      rw [Option.isNone_some, Bool.and_false, if_neg Bool.false_ne_true]
      dsimp only
      rw [hany]
      rfl

/-- What the records of a chunk add to the log. -/
theorem scored_positions (request : PromptRequest Record) (r : RequestRef) (n : Nat) :
    (List.range ((request.scored logitsOf score n).getD []).length).map
        (fun j => (r, request.start n + j + 1)) =
      (request.scoredPositions n).map fun p => (r, p) := by
  rw [PromptRequest.scored, PromptRequest.scoredPositions]
  cases request.asked with
  | none => rfl
  | some k => simp

/-- **A plannable pass** raises nothing. -/
theorem Plannable.runPass_ok (h : s.Plannable pass) (hfit : s.Fitting) (padId : Token) :
    ∃ t, s.runPass logitsOf score padId pass = .ok t ∧ Passed logitsOf score s pass t := by
  have hadvanced : ∀ chunk ∈ pass.chunks, (s.advance pass.chunks).requests chunk.1 =
      (s.requests chunk.1).advanced chunk.2 :=
    fun chunk hchunk => advance_of_mem s h.nodup hchunk
  rw [h.runPass_eq logitsOf score padId]
  by_cases hscores : s.Scores pass
  · rw [if_pos ((h.anyRecords_iff logitsOf score).mpr hscores)]
    have hrefs : (pass.chunks.map fun chunk =>
        (chunk.1, ((s.advance pass.chunks).requests chunk.1).start chunk.2,
          ((s.advance pass.chunks).requests chunk.1).scored logitsOf score chunk.2)).map Prod.fst =
        pass.chunks.map Prod.fst := by
      rw [List.map_map]
      rfl
    obtain ⟨t, ht, hout, hin, hrecorded⟩ := attributePromptLogprobs_ok _ (s.advance pass.chunks)
      (hrefs ▸ h.nodup) (List.forall_mem_map.mpr fun chunk hchunk => by
        dsimp only
        rw [hadvanced chunk hchunk]
        cases hasked : ((s.requests chunk.1).advanced chunk.2).asked with
        | none => exact ⟨_, PromptRequest.attribute_unasked logitsOf score hasked _⟩
        | some k =>
          obtain ⟨list, hlist, -⟩ := PromptRequest.attribute_asked logitsOf score hasked
            (h.advanced hchunk) (hfit chunk.1)
          exact ⟨_, hlist⟩)
    rw [hrefs] at hout
    refine ⟨t, ht, fun r hr => (hout r hr).trans (advance_other s _ hr),
      fun hquiet => absurd hscores hquiet, fun _ chunk hchunk => ?_, ?_⟩
    · have := List.forall_mem_map.mp hin chunk hchunk
      rwa [hadvanced chunk hchunk] at this
    · rw [hrecorded, advance_recorded, List.flatMap_map]
      refine congrArg (s.recorded ++ ·) (List.flatMap_congr fun chunk hchunk => ?_)
      dsimp only
      rw [hadvanced chunk hchunk, scored_positions]
  · rw [if_neg fun hany => hscores ((h.anyRecords_iff logitsOf score).mp hany)]
    refine ⟨_, rfl, fun r hr => advance_other s _ hr, fun _ => hadvanced,
      fun hscored => absurd hscored hscores, ?_⟩
    have hempty : (pass.chunks.flatMap fun chunk =>
        (((s.requests chunk.1).advanced chunk.2).scoredPositions chunk.2).map
          fun p => (chunk.1, p)) = [] := by
      refine List.flatMap_eq_nil_iff.mpr fun chunk hchunk => ?_
      rw [List.map_eq_nil_iff, PromptRequest.scoredPositions]
      split
      · rename_i hasked
        have hzero : ((s.requests chunk.1).advanced chunk.2).scoredRows chunk.2 = 0 :=
          (h.scoredRows_eq_zero hchunk).mpr
            (by_contra fun hne => hscores ⟨chunk, hchunk, hasked, hne⟩)
        rw [hzero]
        rfl
      · rfl
    rw [hempty, advance_recorded, List.append_nil]

theorem Plannable.passed {padId : Token} (h : s.Plannable pass) (hfit : s.Fitting)
    (ht : s.runPass logitsOf score padId pass = .ok t) : Passed logitsOf score s pass t := by
  obtain ⟨u, hu, hpassed⟩ := h.runPass_ok logitsOf score hfit padId
  rw [hu] at ht
  cases ht
  exact hpassed

end PromptState

/-! ### Runs of passes -/

/-- Positions recorded under one name do not count under another. -/
theorem count_map_mk (r r' : RequestRef) (positions : List Nat) (p : Nat) :
    (positions.map fun q => (r', q)).count (r, p) = if r' = r then positions.count p else 0 := by
  split
  · rename_i heq
    rw [heq]
    exact List.count_map_of_injective positions (Prod.mk r) (Prod.mk_right_injective r) p
  · rename_i hne
    refine List.count_eq_zero.mpr fun hmem => ?_
    obtain ⟨q, -, hq⟩ := List.mem_map.mp hmem
    exact hne (congrArg Prod.fst hq)

/-- A request not among the chunks has nothing recorded by them. -/
theorem count_recorded_other (positions : RequestRef × Nat → List Nat) {r : RequestRef} (p : Nat)
    {chunks : List (RequestRef × Nat)} (h : r ∉ chunks.map Prod.fst) :
    (chunks.flatMap fun chunk => (positions chunk).map fun q => (chunk.1, q)).count (r, p) =
      0 := by
  refine List.count_eq_zero.mpr fun hmem => ?_
  obtain ⟨chunk, hchunk, hmem⟩ := List.mem_flatMap.mp hmem
  obtain ⟨q, -, hq⟩ := List.mem_map.mp hmem
  have heq : chunk.1 = r := congrArg Prod.fst hq
  exact h (heq ▸ List.mem_map_of_mem hchunk)

/-- A request has recorded by its one chunk what the chunk scores. -/
theorem count_recorded_of_mem (positions : RequestRef × Nat → List Nat) (p : Nat)
    {chunks : List (RequestRef × Nat)} (hnodup : (chunks.map Prod.fst).Nodup)
    {chunk : RequestRef × Nat} (h : chunk ∈ chunks) :
    (chunks.flatMap fun chunk => (positions chunk).map fun q => (chunk.1, q)).count
      (chunk.1, p) = (positions chunk).count p := by
  induction chunks with
  | nil => cases h
  | cons first chunks ih =>
    rw [List.map_cons, List.nodup_cons] at hnodup
    rw [List.flatMap_cons, List.count_append, count_map_mk]
    rcases List.mem_cons.mp h with rfl | hrest
    · rw [if_pos rfl, count_recorded_other positions p hnodup.1, Nat.add_zero]
    · have hne : first.1 ≠ chunk.1 := fun heq =>
        hnodup.1 (heq ▸ List.mem_map_of_mem hrest)
      rw [if_neg hne, ih hnodup.2 hrest, Nat.zero_add]

/-- How far a request's list is when its counter is at a position. A request that finished its
prompt by one token that nobody scored beside has lost its list. -/
inductive PromptRequest.Filled (request : PromptRequest Record) :
    Nat → Option (List (Option Record)) → Prop
  | fresh : request.Filled request.numCachedTokens none
  | unasked {computed : Nat} (hasked : request.asked = none)
      (hcached : request.numCachedTokens ≤ computed) : request.Filled computed none
  | covered {k computed : Nat} {list : List (Option Record)} (hasked : request.asked = some k)
      (hcached : request.numCachedTokens < computed) (hlength : list.length = request.promptLen)
      (hentry : ∀ p, list[p]? = if p < request.promptLen then
        some (if request.numCachedTokens < p ∧ p ≤ computed then
          some (request.recordAt logitsOf score k p) else none) else none) :
      request.Filled computed (some list)
  | lost (hasked : request.asked.isSome)
      (hcached : request.numCachedTokens + 1 = request.promptLen) :
      request.Filled request.promptLen none

namespace PromptRequest

variable {logitsOf score} {request : PromptRequest Record} {computed chunk : Nat}
  {list : Option (List (Option Record))}

/-- A request as a run leaves it. -/
def filledTo (request : PromptRequest Record) (computed : Nat)
    (list : Option (List (Option Record))) : PromptRequest Record :=
  { request with
    numComputedTokens := computed
    promptLogprobs := list }

theorem Filled.cached_le (h : request.Filled logitsOf score computed list) :
    request.numCachedTokens ≤ computed := by
  cases h with
  | fresh => exact Nat.le_refl _
  | unasked _ hcached => exact hcached
  | covered _ hcached => exact hcached.le
  | lost _ hcached => omega

theorem Filled.none_of_cached (h : request.Filled logitsOf score computed list)
    (hcomputed : computed = request.numCachedTokens) : list = none := by
  cases h with
  | fresh => rfl
  | unasked => rfl
  | covered _ hcached => omega
  | lost => rfl

/-- A request that asked has its list from its first chunk on, unless it lost it. -/
theorem Filled.isSome (h : request.Filled logitsOf score computed list)
    (hcached : request.numCachedTokens < computed) (hlt : computed < request.promptLen)
    (hasked : request.asked.isSome) : list.isSome := by
  cases h with
  | fresh => omega
  | unasked hnone =>
    rw [hnone] at hasked
    cases hasked
  | covered => rfl
  | lost => omega

theorem Filled.length (h : request.Filled logitsOf score computed list)
    (entries : List (Option Record)) (hlist : list = some entries) :
    entries.length = request.promptLen := by
  cases h with
  | fresh => cases hlist
  | unasked => cases hlist
  | covered _ _ hlength =>
    cases hlist
    exact hlength
  | lost => cases hlist

/-- **A chunk in a pass that scores nothing**: for a request that asked it is the last token. -/
theorem Filled.quiet (h : request.Filled logitsOf score computed list) (hpos : 0 < chunk)
    (hfits : computed + chunk ≤ request.promptLen)
    (hlast : request.asked.isSome → chunk = 1 ∧ computed + 1 = request.promptLen) :
    request.Filled logitsOf score (computed + chunk) list := by
  cases h with
  | fresh =>
    by_cases hasked : request.asked.isSome = true
    · obtain ⟨rfl, hcached⟩ := hlast hasked
      rw [hcached]
      exact .lost hasked hcached
    · rw [Bool.not_eq_true, Option.isSome_eq_false_iff, Option.isNone_iff_eq_none] at hasked
      exact .unasked hasked (Nat.le_add_right _ _)
  | unasked hasked hcached => exact .unasked hasked (Nat.le_add_right_of_le hcached)
  | covered hasked hcached hlength hentry =>
    obtain ⟨rfl, hfinal⟩ := hlast (Option.isSome_iff_exists.mpr ⟨_, hasked⟩)
    refine .covered hasked (Nat.lt_add_right _ hcached) hlength fun p => ?_
    rw [hentry]
    -- the one position more is the prompt's end
    refine if_ctx_congr Iff.rfl (fun hp => congrArg some ?_) fun _ => rfl
    exact if_congr (by omega) rfl rfl
  | lost => omega

/-- The entries of a list that is there, or is about to be made. -/
theorem Filled.entry (h : request.Filled logitsOf score computed list) {k : Nat}
    (hasked : request.asked = some k) (hlt : computed < request.promptLen) (p : Nat) :
    (list.getD (List.replicate request.promptLen none))[p]? = if p < request.promptLen then
      some (if request.numCachedTokens < p ∧ p ≤ computed then
        some (request.recordAt logitsOf score k p) else none) else none := by
  cases h with
  | fresh =>
    rw [Option.getD_none, List.getElem?_replicate]
    refine if_congr Iff.rfl (congrArg some ?_) rfl
    rw [if_neg (by omega)]
  | unasked hnone => exact absurd (hnone.symm.trans hasked) (by simp)
  | covered hasked' _ _ hentry =>
    obtain rfl := Option.some.inj (hasked.symm.trans hasked')
    exact hentry p
  | lost => omega

/-- **A chunk in a pass that scores something.** -/
theorem Filled.scored (h : request.Filled logitsOf score computed list) (hpos : 0 < chunk)
    (hfits : computed + chunk ≤ request.promptLen) {next : PromptRequest Record}
    (hnext : (request.filledTo (computed + chunk) list).attributeRecords
      ((request.filledTo (computed + chunk) list).start chunk)
      ((request.filledTo (computed + chunk) list).scored logitsOf score chunk) = .ok next) :
    ∃ list', next = request.filledTo (computed + chunk) list' ∧
      request.Filled logitsOf score (computed + chunk) list' ∧
      (request.asked.isSome → list'.isSome) := by
  cases hasked : request.asked with
  | none =>
    rw [attribute_unasked logitsOf score (by exact hasked)] at hnext
    obtain rfl := Except.ok.inj hnext
    have hcached := h.cached_le
    cases h with
    | fresh => exact ⟨none, rfl, .unasked hasked (Nat.le_add_right _ _), fun h => by cases h⟩
    | unasked => exact ⟨none, rfl, .unasked hasked (by omega), fun h => by cases h⟩
    | covered hsome => exact absurd (hasked.symm.trans hsome) (by simp)
    | lost hsome => rw [hasked] at hsome; cases hsome
  | some k =>
    have hadvanced : (request.filledTo (computed + chunk) list).Advanced chunk :=
      ⟨hpos, Nat.le_add_left _ _, hfits⟩
    have hstart : (request.filledTo (computed + chunk) list).start chunk = computed :=
      Nat.add_sub_cancel _ _
    obtain ⟨list', hlist', hlength, hentry⟩ :=
      attribute_asked logitsOf score (by exact hasked) hadvanced h.length
    rw [hlist'] at hnext
    obtain rfl := Except.ok.inj hnext
    rw [hstart] at hentry
    have hcached := h.cached_le
    have hlt : computed < request.promptLen := by omega
    refine ⟨some list', rfl, .covered hasked (by omega) hlength fun p => ?_, fun _ => rfl⟩
    have hold := h.entry hasked hlt p
    have hnew := hentry p
    by_cases hp : computed < p ∧ p ≤ computed + chunk ∧ p < request.promptLen
    · rw [if_pos (by exact hp)] at hnew
      rw [hnew, if_pos hp.2.2, if_pos ⟨by omega, hp.2.1⟩]
      rfl
    · rw [if_neg (by exact hp)] at hnew
      refine hnew.trans (Eq.trans (by exact hold) ?_)
      refine if_ctx_congr Iff.rfl (fun hlen => congrArg some ?_) fun _ => rfl
      exact if_congr (by omega) rfl rfl

end PromptRequest

namespace PromptState

variable {s t u : PromptState Record} {pass : ChunkPass Record} {r : RequestRef}

/-- **What a run keeps of every request**, from the state it began in. -/
structure Tracked (s t : PromptState Record) : Prop where
  filled : ∀ r, ∃ computed list, t.requests r = (s.requests r).filledTo computed list ∧
    (s.requests r).Filled logitsOf score computed list
  count : ∀ r p, t.recorded.count (r, p) =
    if (s.requests r).asked.isSome ∧ (s.requests r).numCachedTokens < p ∧
      p ≤ (t.requests r).numComputedTokens ∧ p < (s.requests r).promptLen then 1 else 0

/-- Before its first chunk a request is at the end of its cached tokens, and some of its prompt
is left. -/
structure Fresh (s : PromptState Record) : Prop where
  computed : ∀ r, (s.requests r).numComputedTokens = (s.requests r).numCachedTokens
  cached : ∀ r, (s.requests r).numCachedTokens < (s.requests r).promptLen
  unscored : ∀ r, (s.requests r).promptLogprobs = none
  recorded : s.recorded = []

theorem Fresh.tracked (h : s.Fresh) : Tracked logitsOf score s s where
  filled r := by
    have hself : s.requests r = (s.requests r).filledTo (s.requests r).numComputedTokens
        (s.requests r).promptLogprobs := rfl
    rw [h.computed r, h.unscored r] at hself
    exact ⟨_, none, hself, .fresh⟩
  count r p := by
    rw [h.recorded, List.count_nil, h.computed r, if_neg (by omega)]

variable {logitsOf score}

theorem Tracked.fitting (h : Tracked logitsOf score s t) : t.Fitting := by
  intro r entries hlist
  obtain ⟨computed, list, hreq, hfilled⟩ := h.filled r
  rw [hreq] at hlist ⊢
  exact hfilled.length entries hlist

/-- What a plannable pass finds of a request it computes tokens for. -/
theorem Tracked.chunk (h : Tracked logitsOf score s t) (hplan : t.Plannable pass)
    {chunk : RequestRef × Nat} (hchunk : chunk ∈ pass.chunks) :
    ∃ computed list, (t.requests chunk.1) = (s.requests chunk.1).filledTo computed list ∧
      (s.requests chunk.1).Filled logitsOf score computed list ∧
      computed + chunk.2 ≤ (s.requests chunk.1).promptLen := by
  obtain ⟨computed, list, hreq, hfilled⟩ := h.filled chunk.1
  have hfits := hplan.fits chunk hchunk
  rw [hreq] at hfits
  exact ⟨computed, list, hreq, hfilled, hfits⟩

/-- The list of a request after a pass with a chunk of it. -/
theorem Tracked.chunk_after (h : Tracked logitsOf score s t) (hplan : t.Plannable pass)
    (hpassed : Passed logitsOf score t pass u) {chunk : RequestRef × Nat}
    (hchunk : chunk ∈ pass.chunks) :
    ∃ list, u.requests chunk.1 = (s.requests chunk.1).filledTo
        ((t.requests chunk.1).numComputedTokens + chunk.2) list ∧
      (s.requests chunk.1).Filled logitsOf score
        ((t.requests chunk.1).numComputedTokens + chunk.2) list ∧
      (t.Scores pass → (s.requests chunk.1).asked.isSome → list.isSome) ∧
      (¬ t.Scores pass → list = (t.requests chunk.1).promptLogprobs) := by
  obtain ⟨computed, list, hreq, hfilled, hfits⟩ := h.chunk hplan hchunk
  have hpos := hplan.pos chunk hchunk
  have hadvanced : (t.requests chunk.1).advanced chunk.2 =
      (s.requests chunk.1).filledTo (computed + chunk.2) list := by rw [hreq]; rfl
  have hcomputed : (t.requests chunk.1).numComputedTokens = computed := by rw [hreq]; rfl
  rw [hcomputed]
  by_cases hscores : t.Scores pass
  · have hnext := hpassed.scored hscores chunk hchunk
    rw [hadvanced] at hnext
    obtain ⟨list', hu, hfilled', hsome⟩ := hfilled.scored hpos hfits hnext
    exact ⟨list', hu, hfilled', fun _ => hsome, fun hquiet => absurd hscores hquiet⟩
  · refine ⟨list, (hpassed.quiet hscores chunk hchunk).trans hadvanced,
      hfilled.quiet hpos hfits fun hasked => ?_, fun hyes => absurd hyes hscores,
      fun _ => by rw [hreq]; rfl⟩
    by_contra hlast
    refine hscores ⟨chunk, hchunk, ?_, ?_⟩
    · rw [hreq]
      exact hasked
    · rw [hreq]
      exact hlast

/-- **One pass** keeps track of every request. -/
theorem Tracked.step (h : Tracked logitsOf score s t) (hplan : t.Plannable pass)
    (hpassed : Passed logitsOf score t pass u) : Tracked logitsOf score s u where
  filled r := by
    by_cases hr : r ∈ pass.chunks.map Prod.fst
    · obtain ⟨chunk, hchunk, rfl⟩ := List.mem_map.mp hr
      obtain ⟨list, hu, hfilled, -⟩ := h.chunk_after hplan hpassed hchunk
      exact ⟨_, list, hu, hfilled⟩
    · rw [hpassed.other r hr]
      exact h.filled r
  count r p := by
    rw [hpassed.recorded, List.count_append, h.count]
    by_cases hr : r ∈ pass.chunks.map Prod.fst
    · obtain ⟨chunk, hchunk, rfl⟩ := List.mem_map.mp hr
      obtain ⟨computed, list, hreq, hfilled, -⟩ := h.chunk hplan hchunk
      obtain ⟨list', hu, -⟩ := h.chunk_after hplan hpassed hchunk
      have hcached := hfilled.cached_le
      have hbefore : (t.requests chunk.1).numComputedTokens = computed := by rw [hreq]; rfl
      have hafter : (u.requests chunk.1).numComputedTokens = computed + chunk.2 := by
        rw [hu, ← hbefore]; rfl
      have hstart : ((t.requests chunk.1).advanced chunk.2).start chunk.2 = computed :=
        (Nat.add_sub_cancel _ _).trans hbefore
      have hasked : ((t.requests chunk.1).advanced chunk.2).asked =
          (s.requests chunk.1).asked := by rw [hreq]; rfl
      have hlen : ((t.requests chunk.1).advanced chunk.2).promptLen =
          (s.requests chunk.1).promptLen := by rw [hreq]; rfl
      have hadvanced : ((t.requests chunk.1).advanced chunk.2).numComputedTokens =
          computed + chunk.2 := congrArg (· + chunk.2) hbefore
      rw [count_recorded_of_mem (fun chunk =>
          ((t.requests chunk.1).advanced chunk.2).scoredPositions chunk.2) p hplan.nodup hchunk,
        (hplan.advanced hchunk).count_scoredPositions]
      simp only [hstart, hasked, hlen, hadvanced, hbefore, hafter]
      by_cases hsome : (s.requests chunk.1).asked.isSome = true
      · simp only [hsome, true_and]
        split_ifs <;> omega
      · rw [if_neg fun h => hsome h.1, if_neg fun h => hsome h.1, if_neg fun h => hsome h.1]
    · rw [count_recorded_other _ p hr, hpassed.other r hr, Nat.add_zero]

/-! ### Which runs attribute every position -/

variable (logitsOf score)

/-- **The attribution** of a request that asked for the best `k`, between the state a run began
in and one it reached: nothing for the cached positions and the first one behind them, and for
every position after, recorded once, the record of the logits of the row before it. -/
def Attributed (s t : PromptState Record) (r : RequestRef) (k : Nat) : Prop :=
  ∃ list, (t.requests r).promptLogprobs = some list ∧
    list.length = (s.requests r).promptLen ∧
    (∀ p ≤ (s.requests r).numCachedTokens, list[p]? = some none) ∧
    (∀ p, (s.requests r).numCachedTokens < p → p < (s.requests r).promptLen →
      list[p]? = some (some ((s.requests r).recordAt logitsOf score k p))) ∧
    ∀ p, t.recorded.count (r, p) =
      if (s.requests r).numCachedTokens < p ∧ p < (s.requests r).promptLen then 1 else 0

/-- The prompt of a request has completed. -/
def Completed (s t : PromptState Record) (r : RequestRef) : Prop :=
  (t.requests r).numComputedTokens = (s.requests r).promptLen

variable {logitsOf score}

/-- A list that is there once the prompt has completed is the whole attribution. -/
theorem Tracked.attributed_iff (h : Tracked logitsOf score s t)
    (hcached : (s.requests r).numCachedTokens < (s.requests r).promptLen) {k : Nat}
    (hasked : (s.requests r).asked = some k) (hdone : s.Completed t r) :
    Attributed logitsOf score s t r k ↔ (t.requests r).promptLogprobs.isSome := by
  constructor
  · rintro ⟨list, hlist, -⟩
    rw [hlist]
    rfl
  · intro hsome
    obtain ⟨computed, list, hreq, hfilled⟩ := h.filled r
    rw [hreq] at hsome
    have hcomputed : computed = (s.requests r).promptLen := by
      rw [Completed, hreq] at hdone
      exact hdone
    cases hfilled with
    | fresh => cases hsome
    | unasked => cases hsome
    | lost => cases hsome
    | @covered k' _ list hasked' _ hlength hentry =>
      obtain rfl := Option.some.inj (hasked.symm.trans hasked')
      refine ⟨list, by rw [hreq]; rfl, hlength, fun p hp => ?_, fun p hp hlt => ?_,
        fun p => ?_⟩
      · rw [hentry, if_pos (by omega), if_neg (by omega)]
      · rw [hentry, if_pos hlt, if_pos ⟨hp, by omega⟩]
      · rw [h.count, hasked, hdone]
        refine if_congr ?_ rfl rfl
        constructor
        · rintro ⟨-, hp, -, hlt⟩
          exact ⟨hp, hlt⟩
        · rintro ⟨hp, hlt⟩
          exact ⟨rfl, hp, hlt.le, hlt⟩

/-- No request that asked begins its prompt in a pass that scores nothing. -/
def Heard (s : PromptState Record) (pass : ChunkPass Record) : Prop :=
  s.Scores pass ∨ ∀ chunk ∈ pass.chunks, (s.requests chunk.1).asked.isSome →
    (s.requests chunk.1).numCachedTokens < (s.requests chunk.1).numComputedTokens

/-- Every completed request that asked has a list. -/
def Listed (s t : PromptState Record) : Prop :=
  ∀ r, (s.requests r).asked.isSome → s.Completed t r → (t.requests r).promptLogprobs.isSome

/-- **What one pass does to the lists**: those of the requests that complete are there exactly
when nobody began its prompt unheard. -/
theorem Tracked.listed_iff (h : Tracked logitsOf score s t) (hplan : t.Plannable pass)
    (hpassed : Passed logitsOf score t pass u) :
    s.Listed u ↔ s.Listed t ∧ t.Heard pass := by
  constructor
  · intro hlisted
    refine ⟨fun r hasked hdone => ?_, ?_⟩
    · -- a completed request is in no pass any more
      have hout : r ∉ pass.chunks.map Prod.fst := by
        intro hr
        obtain ⟨chunk, hchunk, rfl⟩ := List.mem_map.mp hr
        obtain ⟨computed, list, hreq, -, hfits⟩ := h.chunk hplan hchunk
        have hpos := hplan.pos chunk hchunk
        rw [Completed, hreq] at hdone
        have hcomputed : computed = (s.requests chunk.1).promptLen := hdone
        omega
      have hsame := hpassed.other r hout
      have := hlisted r hasked (by rw [Completed, hsame]; exact hdone)
      rwa [hsame] at this
    · by_contra hunheard
      rw [Heard, not_or] at hunheard
      obtain ⟨hquiet, hfirst⟩ := hunheard
      push Not at hfirst
      obtain ⟨chunk, hchunk, hasked, hle⟩ := hfirst
      obtain ⟨computed, list, hreq, hfilled, hfits⟩ := h.chunk hplan hchunk
      obtain ⟨list', hu, -, -, hkept⟩ := h.chunk_after hplan hpassed hchunk
      have hlast : chunk.2 = 1 ∧ (t.requests chunk.1).numComputedTokens + 1 =
          (t.requests chunk.1).promptLen :=
        by_contra fun hne => hquiet ⟨chunk, hchunk, hasked, hne⟩
      have hnone := hkept hquiet
      rw [hreq] at hasked hle hlast hnone
      have hcomputed : computed = (s.requests chunk.1).numCachedTokens :=
        Nat.le_antisymm hle hfilled.cached_le
      have hlist : list' = none := hnone.trans (hfilled.none_of_cached hcomputed)
      have hdone : s.Completed u chunk.1 := by
        rw [Completed, hu, hreq, hlast.1]
        exact hlast.2
      have := hlisted chunk.1 hasked hdone
      rw [hu, hlist] at this
      cases this
  · rintro ⟨hlisted, hheard⟩ r hasked hdone
    by_cases hr : r ∈ pass.chunks.map Prod.fst
    · obtain ⟨chunk, hchunk, rfl⟩ := List.mem_map.mp hr
      obtain ⟨computed, list, hreq, hfilled, hfits⟩ := h.chunk hplan hchunk
      obtain ⟨list', hu, -, hsome, hkept⟩ := h.chunk_after hplan hpassed hchunk
      have hpos := hplan.pos chunk hchunk
      rw [hu]
      by_cases hscores : t.Scores pass
      · exact hsome hscores hasked
      · -- its list was begun by an earlier chunk, and stays
        have hbegun := hheard.resolve_left hscores chunk hchunk
        have hlist := hkept hscores
        rw [hreq] at hbegun hlist
        rw [hlist]
        exact hfilled.isSome (hbegun hasked) (by omega) hasked
    · rw [hpassed.other r hr]
      refine hlisted r hasked ?_
      rwa [Completed, hpassed.other r hr] at hdone

end PromptState

/-- **Prompt log-probabilities.** From any state in which no prompt has been begun, a run of
passes raises nothing that its plans do not, and attributes the prompt of every request that
asked and completed exactly when no request that asked begins its prompt in a pass that scores
nothing: there the records are all empty, which the gate takes for none. -/
theorem promptLogprobs_iff {s t : PromptState Record} {passes : List (ChunkPass Record)}
    (padId : Token) (hs : s.Fresh) (h : Run (PromptStep logitsOf score padId) s passes t) :
    (∀ pass, t.Plannable pass → ∃ u, t.runPass logitsOf score padId pass = .ok u) ∧
      ((∀ r k, (s.requests r).asked = some k → s.Completed t r →
          PromptState.Attributed logitsOf score s t r k) ↔
        Run (Guarded (PromptStep logitsOf score padId) PromptState.Heard) s passes t) := by
  have hstep : ∀ t pass u, PromptState.Tracked logitsOf score s t →
      PromptStep logitsOf score padId t pass u → PromptState.Tracked logitsOf score s u :=
    fun t pass u htracked hpass => htracked.step hpass.1
      (hpass.1.passed logitsOf score htracked.fitting hpass.2)
  have htracked := h.invariant hstep (hs.tracked logitsOf score)
  refine ⟨fun pass hplan => ?_, ?_⟩
  · obtain ⟨u, hu, -⟩ := hplan.runPass_ok logitsOf score htracked.fitting padId
    exact ⟨u, hu⟩
  · have hlisted : (∀ r k, (s.requests r).asked = some k → s.Completed t r →
        PromptState.Attributed logitsOf score s t r k) ↔ s.Listed t := by
      constructor
      · intro hall r hasked hdone
        obtain ⟨k, hk⟩ := Option.isSome_iff_exists.mp hasked
        exact (htracked.attributed_iff (hs.cached r) hk hdone).mp (hall r k hk hdone)
      · intro hall r k hk hdone
        refine (htracked.attributed_iff (hs.cached r) hk hdone).mpr (hall r ?_ hdone)
        rw [hk]
        rfl
    rw [hlisted]
    refine h.holds_iff_guarded (fun t pass u u' hu hu' => ?_) hstep
      (fun t pass u htracked hpass => htracked.listed_iff hpass.1
        (hpass.1.passed logitsOf score htracked.fitting hpass.2))
      (hs.tracked logitsOf score) fun r _ hdone => ?_
    · exact Except.ok.inj (hu.2.symm.trans hu'.2)
    · -- no prompt has completed before the first pass
      have := hs.cached r
      rw [PromptState.Completed, hs.computed r] at hdone
      omega

end Scored

/-! ### The theorem at work -/

/-- Requests of one prompt, nothing of it cached, that ask for the best record. -/
def askingFor (prompt : List Token) : PromptState (Nat × FedRow × Token) where
  requests _ := ⟨0, prompt, some 1, 0, 0, none⟩
  recorded := []

/-- A prompt's tokens in one grid. -/
def wholePrompt (tokens : Nat) : ChunkPass (Nat × FedRow × Token) where
  kind := .prefill
  chunks := [(0, tokens)]
  filler := []
  sampledRecords := none

theorem askingFor_fresh {prompt : List Token} (h : prompt ≠ []) : (askingFor prompt).Fresh where
  computed _ := rfl
  cached _ := List.length_pos_iff.mpr h
  unscored _ := rfl
  recorded := rfl

theorem wholePrompt_plannable {prompt : List Token} (h : prompt ≠ []) :
    (askingFor prompt).Plannable (wholePrompt prompt.length) where
  chunked := PassKind.noConfusion
  nonempty := by simp [wholePrompt]
  nodup := by simp [wholePrompt]
  pos := by simp [wholePrompt, List.length_pos_iff, h]
  fits := by simp [wholePrompt, askingFor, PromptRequest.promptLen]

/-- A prompt of three tokens in one pass is scored at its last two. -/
theorem promptLogprobs_iff_threeTokens :
    ∃ t, Run (PromptStep (fun row => row) (fun k row token => (k, row, token)) 0)
        (askingFor [5, 6, 7]) [wholePrompt 3] t ∧
      PromptState.Attributed (fun row => row) (fun k row token => (k, row, token))
        (askingFor [5, 6, 7]) t 0 1 := by
  have hfresh : (askingFor [5, 6, 7]).Fresh := askingFor_fresh (by decide)
  have hplan : (askingFor [5, 6, 7]).Plannable (wholePrompt 3) :=
    wholePrompt_plannable (by decide)
  have htracked := hfresh.tracked (fun row => row) (fun k row token => (k, row, token))
  obtain ⟨t, ht, hpassed⟩ := hplan.runPass_ok (fun row => row)
    (fun k row token => (k, row, token)) htracked.fitting 0
  have hscores : (askingFor [5, 6, 7]).Scores (wholePrompt 3) :=
    ⟨(0, 3), List.mem_singleton_self _, rfl, by decide⟩
  have hrun := Run.single (show PromptStep _ _ 0 _ _ t from ⟨hplan, ht⟩)
  refine ⟨t, hrun, (promptLogprobs_iff _ _ 0 hfresh hrun).2.mpr
    (Run.single ⟨⟨hplan, ht⟩, .inl hscores⟩) 0 1 rfl ?_⟩
  obtain ⟨list, hlist, -⟩ := htracked.chunk_after hplan hpassed
    (List.mem_singleton_self (0, 3))
  rw [PromptState.Completed, hlist]
  rfl

/-- **A prompt of one token** completes without a list, although its request asked for one. -/
theorem oneToken_unlisted :
    ¬ ∀ (s t : PromptState (Nat × FedRow × Token)) (passes : List (ChunkPass _)), s.Fresh →
      Run (PromptStep (fun row => row) (fun k row token => (k, row, token)) 0) s passes t →
      ∀ r k, (s.requests r).asked = some k → s.Completed t r →
        PromptState.Attributed (fun row => row) (fun k row token => (k, row, token)) s t r k := by
  intro hall
  have hstep : PromptStep (fun row => row) (fun k row token => (k, row, token)) 0
      (askingFor [5]) (wholePrompt 1) ((askingFor [5]).advance [(0, 1)]) :=
    ⟨wholePrompt_plannable (by decide), rfl⟩
  obtain ⟨list, hlist, -⟩ := hall _ _ _ (askingFor_fresh (by decide)) (Run.single hstep) 0 1 rfl
    (by rfl)
  cases hlist

end RapidLlm
