import RapidLlm.Engine.DecodeSession

/-!
# RapidLlm.Engine.StreamedSession

What a one-shot session yields while it streams, against what it leaves when it does not
(`_DecodeSession.run` and `_flush` in `engine/llm_engine.py`, `detect_repetition` in
`engine/stop_criteria.py`).

The rows of a session do not see each other: `DecodeRow.after` is one of them after so many rounds,
and `run_rows` says a run leaves nothing else, whenever the batch stops early. `DecodeRow.drive`
is a row nobody reads back. A repetition is looked for at a poll only, and drops the text of the
columns read there: one column when the session streams, a whole window when it does not.
-/

namespace RapidLlm

/-! ### The repetition breaker -/

/-- `_DIGIT_RE.sub("<n>", text)`: every run of decimal digits becomes one placeholder. -/
def maskDigits (isDigit : Nat → Bool) : Text → Text
  | [] => []
  | c :: text =>
      if isDigit c then
        if text.head?.any isDigit then maskDigits isDigit text
        else [0x3c, 0x6e, 0x3e] ++ maskDigits isDigit text
      else c :: maskDigits isDigit text

/-- `str.count` of a needle that is not empty: occurrences that do not overlap. The first argument
says how much of the last one is still to be skipped. -/
def occurrences (needle : Text) : Nat → Text → Nat
  | _, [] => 0
  | skip + 1, _ :: text => occurrences needle skip text
  | 0, c :: text =>
      if needle.isPrefixOf (c :: text) then occurrences needle (needle.length - 1) text + 1
      else occurrences needle 0 text

/-- `detect_repetition` -/
def detectRepetition (isDigit : Nat → Bool) (window minReps : Nat) (text : Text) : Bool :=
  if text.length < window * (minReps + 1) then false
  else
    let norm := maskDigits isDigit text
    let recent := norm.drop (norm.length - window)
    decide (minReps ≤ occurrences recent 0 (norm.take (norm.length - window)))

/-! ### One row of a run -/

/-- The first column a mode has not read back after `k` rounds, counted from the first one. -/
def readUpTo (stream : Bool) (k : Nat) : Nat :=
  if stream then k else POLL_INTERVAL * (k / POLL_INTERVAL)

/-- Where the input of round `k` starts. -/
def prevPosAt (maxPromptLen k : Nat) : Nat := if k = 0 then 0 else maxPromptLen + k - 1

namespace DecodeRow

section

variable {L : Type} [LinearOrder L] [Zero L] [HMul L ℚ L] [HDiv L ℚ L] [Tokenizer]

/-- The row after `k` rounds, nothing read back. -/
def drive (engine : LLMEngine L) (params : SamplingParams) (maxPromptLen : Nat) (row : DecodeRow) :
    Nat → DecodeRow
  | 0 => row
  | k + 1 => (row.drive engine params maxPromptLen k).advance engine params
      (prevPosAt maxPromptLen k) (maxPromptLen + k)

/-- The text of what a row accepts in `k` rounds, with the state of its detokenizer. -/
def read (engine : LLMEngine L) (params : SamplingParams) (maxPromptLen : Nat) (row : DecodeRow)
    (k : Nat) : Text × SequenceState :=
  let driven := row.drive engine params maxPromptLen k
  ({} : SequenceState).appendAll (acceptedOf driven.accepted driven.tokens)

/-- A poll after `k` rounds finds the row in a loop: it is running, its window has text, and the
text so far repeats itself. -/
def Loops (engine : LLMEngine L) (params : SamplingParams) (maxPromptLen : Nat) (row : DecodeRow)
    (k : Nat) : Prop :=
  k % POLL_INTERVAL = 0 ∧ 0 < k ∧ params.stopOnRepeat = true ∧
    (row.drive engine params maxPromptLen k).stop.finished = false ∧
    (row.read engine params maxPromptLen (k - POLL_INTERVAL)).1 ≠
      (row.read engine params maxPromptLen k).1 ∧
    engine.detectRepetition (decodeIds (row.read engine params maxPromptLen k).2.tokens) = true

/-- Round `k` of a run, for one row. -/
def round (engine : LLMEngine L) (params : SamplingParams) (maxPromptLen : Nat) (stream : Bool)
    (k : Nat) (row : DecodeRow) : DecodeRow :=
  let row := row.advance engine params (prevPosAt maxPromptLen k) (maxPromptLen + k)
  let isPoll := (k + 1) % POLL_INTERVAL = 0
  if stream ∨ isPoll then
    (row.flush engine params (maxPromptLen + readUpTo stream k) (maxPromptLen + (k + 1))
      (decide isPoll)).2
  else row

/-- The row after `k` rounds of a run. -/
def after (engine : LLMEngine L) (params : SamplingParams) (maxPromptLen : Nat) (stream : Bool)
    (row : DecodeRow) : Nat → DecodeRow
  | 0 => row
  | k + 1 => (row.after engine params maxPromptLen stream k).round engine params maxPromptLen stream k

/-- What is read back once the rounds are over. -/
def trail (engine : LLMEngine L) (params : SamplingParams) (maxPromptLen steps : Nat)
    (stream : Bool) (k : Nat) (row : DecodeRow) : DecodeRow :=
  if readUpTo stream k < steps then
    (row.flush engine params (maxPromptLen + readUpTo stream k) (maxPromptLen + steps) false).2
  else row

end

end DecodeRow

/-! ### What a session yields -/

/-- The deltas of every sequence, joined. -/
def joined (batchSize : Nat) (yielded : List (List Text)) : List Text :=
  (List.range batchSize).map fun index => yielded.flatMap fun deltas => deltas.getD index []

section

variable {L : Type} [LinearOrder L] [Zero L] [HMul L ℚ L] [HDiv L ℚ L] [Tokenizer]

/-- `run(stream=True)`: what it yields of every sequence, and `last_stop_reasons`. -/
def LLMEngine.streamed (engine : LLMEngine L) (params : SamplingParams)
    (promptTokenIds : List (List Token)) : Except Raised (List Text × List FinishReason) := do
  let session ← DecodeSession.create engine promptTokenIds params
  let session ← session.run engine params true
  .ok (joined session.rows.length session.yielded, session.rows.map fun row => row.stop.reason)

/-- `run(stream=False)`: the completions it leaves, and `last_stop_reasons`. -/
def LLMEngine.blocking (engine : LLMEngine L) (params : SamplingParams)
    (promptTokenIds : List (List Token)) : Except Raised (List Text × List FinishReason) := do
  let session ← DecodeSession.create engine promptTokenIds params
  let session ← session.run engine params false
  .ok (session.rows.map DecodeRow.completion, session.rows.map fun row => row.stop.reason)

/-- Where the two modes read alike: the session has a position to start from, and the first poll
that finds a sequence in a loop finds no text in front of the last column of its window. -/
def DecodeSession.ReadsAlike (engine : LLMEngine L) (params : SamplingParams)
    (session : DecodeSession) : Prop :=
  0 < session.maxPromptLen → ∀ row ∈ session.rows,
    ∀ k ≤ session.totalLen - session.maxPromptLen,
      row.Loops engine params session.maxPromptLen k →
      (∀ j < k, ¬ row.Loops engine params session.maxPromptLen j) →
        (row.read engine params session.maxPromptLen (k - POLL_INTERVAL)).1 =
          (row.read engine params session.maxPromptLen (k - 1)).1

end

/-! ### Columns and what they hold -/

theorem readUpTo_le (stream : Bool) (k : Nat) : readUpTo stream k ≤ k := by
  unfold readUpTo
  split
  · exact Nat.le_refl k
  · exact Nat.mul_div_le k POLL_INTERVAL

/-- A poll has read everything, and so has every round of a stream. -/
theorem readUpTo_succ_of_read {stream : Bool} {k : Nat}
    (h : stream = true ∨ (k + 1) % POLL_INTERVAL = 0) : readUpTo stream (k + 1) = k + 1 := by
  unfold readUpTo
  split
  · rfl
  · next hstream =>
      have hpoll := h.resolve_left hstream
      rw [POLL_INTERVAL] at hpoll ⊢
      omega

theorem readUpTo_succ_of_unread {stream : Bool} {k : Nat}
    (h : ¬ (stream = true ∨ (k + 1) % POLL_INTERVAL = 0)) :
    readUpTo stream (k + 1) = readUpTo stream k := by
  obtain ⟨hstream, hpoll⟩ := not_or.mp h
  rw [readUpTo, if_neg hstream, readUpTo, if_neg hstream]
  rw [POLL_INTERVAL] at hpoll ⊢
  omega

/-- Behind a poll nothing in front of it is read again. -/
theorem le_readUpTo {stream : Bool} {k n : Nat} (hpoll : k % POLL_INTERVAL = 0) (h : k ≤ n) :
    k ≤ readUpTo stream n := by
  unfold readUpTo
  split
  · exact h
  · rw [POLL_INTERVAL] at hpoll ⊢
    omega

theorem acceptedOf_of_none {accepted : List Bool} (h : ∀ keep ∈ accepted, keep = false)
    (tokens : List Token) : acceptedOf accepted tokens = [] := by
  rw [List.eq_replicate_of_mem h, acceptedOf_replicate_false]

/-- The accepted tokens in front of a column, and the ones of a window behind it. -/
theorem acceptedOf_take {accepted : List Bool} {tokens : List Token} {m k : Nat}
    (hlen : accepted.length = tokens.length) (h : m ≤ k) :
    acceptedOf (accepted.take k) (tokens.take k) =
      acceptedOf (accepted.take m) (tokens.take m) ++
        acceptedOf (between m k accepted) (between m k tokens) := by
  have hsplit {α : Type} (xs : List α) : xs.take k = xs.take m ++ between m k xs := by
    conv_lhs => rw [← List.take_append_drop m (xs.take k)]
    rw [List.take_take, Nat.min_eq_left h, between]
  rw [hsplit accepted, hsplit tokens, acceptedOf_append (by simp [hlen])]

namespace DecodeRow

/-- The columns of a row, those from `base + k` on not accepted. -/
structure Fits (base totalLen k : Nat) (row : DecodeRow) : Prop where
  tokens_length : row.tokens.length = totalLen
  accepted_length : row.accepted.length = totalLen
  unread : ∀ keep ∈ row.accepted.drop (base + k), keep = false

variable {base totalLen k m n : Nat} {row : DecodeRow}

theorem Fits.mono (h : row.Fits base totalLen k) (hle : k ≤ n) : row.Fits base totalLen n :=
  ⟨h.tokens_length, h.accepted_length, fun keep hkeep => h.unread keep
    (List.drop_subset_drop_left _ (Nat.add_le_add_left hle base) hkeep)⟩

theorem Fits.acceptedOf_eq (h : row.Fits base totalLen k) : acceptedOf row.accepted row.tokens =
    acceptedOf (row.accepted.take (base + k)) (row.tokens.take (base + k)) := by
  conv_lhs => rw [← List.take_append_drop (base + k) row.accepted,
    ← List.take_append_drop (base + k) row.tokens]
  rw [acceptedOf_append (by simp [h.accepted_length, h.tokens_length]),
    acceptedOf_of_none h.unread, List.append_nil]

/-- A window behind the accepted columns has no text. -/
theorem Fits.window_nil (h : row.Fits base totalLen k) (hle : k ≤ m) (stop : Nat) :
    acceptedOf (between (base + m) stop row.accepted) (between (base + m) stop row.tokens) = [] := by
  refine acceptedOf_of_none (fun keep hkeep => (h.mono hle).unread keep ?_) _
  rw [between, List.drop_take] at hkeep
  exact List.mem_of_mem_take hkeep

theorem create_fits (padId : Token) {ids : List Token} (h : ids.length ≤ totalLen) (base k : Nat) :
    (create padId totalLen ids).Fits base totalLen k := by
  refine ⟨?_, by simp [create], fun keep hkeep => ?_⟩
  · simp only [create, List.length_append, List.length_drop, List.length_replicate]
    omega
  · exact List.eq_of_mem_replicate (List.mem_of_mem_drop hkeep)

section

variable {L : Type} [LinearOrder L] [Zero L] [HMul L ℚ L] [HDiv L ℚ L] [Tokenizer]
  {engine : LLMEngine L} {params : SamplingParams}

omit [Tokenizer] in
/-- A round writes one column. -/
theorem Fits.advance (h : row.Fits base totalLen k) (hle : k ≤ n) :
    (row.advance engine params (prevPosAt base n) (base + n)).Fits base totalLen (n + 1) := by
  refine ⟨by simp [DecodeRow.advance, h.tokens_length],
    by simp [DecodeRow.advance, h.accepted_length], fun keep hkeep => ?_⟩
  simp only [DecodeRow.advance] at hkeep
  rw [← Nat.add_assoc, List.drop_set_of_lt (Nat.lt_succ_self _)] at hkeep
  exact h.unread keep (List.drop_subset_drop_left _ (by omega) hkeep)

variable (engine params) in
omit [Tokenizer] in
theorem drive_fits (h : row.Fits base totalLen 0) :
    (row.drive engine params base k).Fits base totalLen k := by
  induction k with
  | zero => exact h
  | succ k ih => exact ih.advance (Nat.le_refl k)

variable (engine params) in
omit [Tokenizer] in
/-- The columns in front of a round stay what they were. -/
theorem drive_take (h : m ≤ k) :
    (row.drive engine params base k).accepted.take (base + m) =
        (row.drive engine params base m).accepted.take (base + m) ∧
      (row.drive engine params base k).tokens.take (base + m) =
        (row.drive engine params base m).tokens.take (base + m) := by
  induction h with
  | refl => exact ⟨rfl, rfl⟩
  | @step k h ih =>
    have hle : base + m ≤ base + k := Nat.add_le_add_left h base
    refine ⟨?_, ?_⟩
    · rw [← ih.1]
      exact List.take_set_of_le hle
    · rw [← ih.2]
      exact List.take_set_of_le hle

omit [Tokenizer] in
/-- What a window adds to the tokens accepted in front of it. -/
theorem drive_window (hfits : row.Fits base totalLen 0) (h : m ≤ k) (hn : k ≤ n) :
    acceptedOf (row.drive engine params base k).accepted (row.drive engine params base k).tokens =
      acceptedOf (row.drive engine params base m).accepted (row.drive engine params base m).tokens ++
        acceptedOf (between (base + m) (base + n) (row.drive engine params base k).accepted)
          (between (base + m) (base + n) (row.drive engine params base k).tokens) := by
  have hk := drive_fits engine params (k := k) hfits
  obtain ⟨haccepted, htokens⟩ := drive_take engine params h
  rw [(hk.mono hn).acceptedOf_eq, acceptedOf_take (by rw [hk.accepted_length, hk.tokens_length])
    (Nat.add_le_add_left (Nat.le_trans h hn) base), haccepted, htokens,
    ← (drive_fits engine params hfits).acceptedOf_eq]

variable (engine params) in
/-- What reading a window does to the text read in front of it. -/
theorem read_window (hfits : row.Fits base totalLen 0) (h : m ≤ k) (hn : k ≤ n) :
    let appended := (row.read engine params base m).2.appendAll
      (acceptedOf (between (base + m) (base + n) (row.drive engine params base k).accepted)
        (between (base + m) (base + n) (row.drive engine params base k).tokens))
    row.read engine params base k = ((row.read engine params base m).1 ++ appended.1, appended.2) := by
  intro appended
  rw [read, drive_window hfits h hn]
  exact SequenceState.appendAll_append ..

variable (engine params) in
/-- Text that was read stays. -/
theorem read_grows (hfits : row.Fits base totalLen 0) (h : m ≤ k) :
    (row.read engine params base m).1 <+: (row.read engine params base k).1 := by
  rw [read_window engine params hfits h (Nat.le_refl k)]
  exact List.prefix_append _ _

/-! ### Running and caught rows -/

/-- The question `_flush` asks of a row once it read some text. -/
def RepeatsIn (engine : LLMEngine L) (params : SamplingParams) (checkRepeat : Bool)
    (stop : StopState) (appended : Text × SequenceState) : Prop :=
  checkRepeat = true ∧ params.stopOnRepeat = true ∧ appended.1 ≠ [] ∧ stop.finished = false ∧
    engine.detectRepetition (decodeIds appended.2.tokens) = true

omit [LinearOrder L] [Zero L] [HMul L ℚ L] [HDiv L ℚ L] in
theorem repeatsIn_iff {checkRepeat : Bool} {stop : StopState} {appended : Text × SequenceState} :
    (checkRepeat && params.stopOnRepeat && appended.1 != [] && !stop.finished &&
      engine.detectRepetition (decodeIds appended.2.tokens)) = true ↔
        RepeatsIn engine params checkRepeat stop appended := by
  simp only [RepeatsIn, Bool.and_eq_true, bne_iff_ne, Bool.not_eq_true']
  tauto

variable (row) in
omit [LinearOrder L] [Zero L] [HMul L ℚ L] [HDiv L ℚ L] in
theorem flush_of_caught {start upTo : Nat} {checkRepeat : Bool}
    (h : RepeatsIn engine params checkRepeat row.stop (row.detokenizer.appendAll
      (acceptedOf (between start upTo row.accepted) (between start upTo row.tokens)))) :
    row.flush engine params start upTo checkRepeat = ([], { row with
      detokenizer := (row.detokenizer.appendAll
        (acceptedOf (between start upTo row.accepted) (between start upTo row.tokens))).2
      stop := .markRepeat }) :=
  if_pos (repeatsIn_iff.mpr h)

variable (row) in
omit [LinearOrder L] [Zero L] [HMul L ℚ L] [HDiv L ℚ L] in
theorem flush_of_kept {start upTo : Nat} {checkRepeat : Bool}
    (h : ¬ RepeatsIn engine params checkRepeat row.stop (row.detokenizer.appendAll
      (acceptedOf (between start upTo row.accepted) (between start upTo row.tokens)))) :
    let appended := row.detokenizer.appendAll
      (acceptedOf (between start upTo row.accepted) (between start upTo row.tokens))
    row.flush engine params start upTo checkRepeat = (appended.1, { row with
      detokenizer := appended.2
      completion := row.completion ++ appended.1 }) :=
  if_neg (repeatsIn_iff.not.mpr h)

/-- A row whose first `m` columns were read, and which no poll caught. -/
def live (engine : LLMEngine L) (params : SamplingParams) (base : Nat) (row : DecodeRow)
    (m k : Nat) : DecodeRow :=
  { row.drive engine params base k with
    detokenizer := (row.read engine params base m).2
    completion := (row.read engine params base m).1 }

/-- A read-back of columns `[m, k)` that looks for a repetition finds one. -/
def Catches (engine : LLMEngine L) (params : SamplingParams) (base : Nat) (row : DecodeRow)
    (m k : Nat) : Prop :=
  params.stopOnRepeat = true ∧ (row.drive engine params base k).stop.finished = false ∧
    (row.read engine params base m).1 ≠ (row.read engine params base k).1 ∧
    engine.detectRepetition (decodeIds (row.read engine params base k).2.tokens) = true

/-- A row that has stopped, all its text read. -/
structure Frozen (base totalLen k : Nat) (completion : Text) (stop : StopState) (row : DecodeRow) :
    Prop where
  fits : row.Fits base totalLen k
  completion_eq : row.completion = completion
  stop_eq : row.stop = stop
  finished : stop.finished = true

variable {completion : Text} {stop : StopState}

variable (engine params) in
omit [Tokenizer] in
theorem Frozen.advance (h : row.Frozen base totalLen k completion stop) (n : Nat) :
    (row.advance engine params (prevPosAt base n) (base + n)).Frozen base totalLen k completion
      stop := by
  have hstop : (row.advance engine params (prevPosAt base n) (base + n)).stop = stop := by
    have hkept (isStop : List Bool) (tokenId : Token) (writable : Bool) :
        stop.update isStop tokenId writable = stop := by
      have hfinished := h.finished
      cases stop
      simp_all [StopState.update]
    simp only [DecodeRow.advance, h.stop_eq, hkept]
  refine ⟨⟨by simp [DecodeRow.advance, h.fits.tokens_length],
    by simp [DecodeRow.advance, h.fits.accepted_length], fun keep hkeep => ?_⟩, h.completion_eq,
    hstop, h.finished⟩
  -- the column of the round is not accepted
  have hset : (row.advance engine params (prevPosAt base n) (base + n)).accepted =
      row.accepted.set (base + n) false := by
    have hfinished := congrArg StopState.finished hstop
    rw [h.finished] at hfinished
    simp only [DecodeRow.advance] at hfinished ⊢
    rw [hfinished, Bool.not_true, Bool.and_false]
  rw [hset, List.drop_set] at hkeep
  split at hkeep
  · exact h.fits.unread keep hkeep
  · rcases List.mem_or_eq_of_mem_set hkeep with hmem | rfl
    · exact h.fits.unread keep hmem
    · rfl

omit [LinearOrder L] [Zero L] [HMul L ℚ L] [HDiv L ℚ L] in
theorem Frozen.flush (h : row.Frozen base totalLen k completion stop) (hle : k ≤ m) (upTo : Nat)
    (checkRepeat : Bool) : (row.flush engine params (base + m) upTo checkRepeat).2.Frozen base
      totalLen k completion stop := by
  have hnone : row.detokenizer.appendAll (acceptedOf (between (base + m) upTo row.accepted)
      (between (base + m) upTo row.tokens)) = ([], row.detokenizer) := by
    rw [h.fits.window_nil hle upTo]
    rfl
  rw [flush_of_kept _ (by rw [hnone]; exact fun hrepeat => hrepeat.2.2.1 rfl), hnone]
  exact ⟨⟨h.fits.tokens_length, h.fits.accepted_length, h.fits.unread⟩,
    (List.append_nil _).trans h.completion_eq, h.stop_eq, h.finished⟩

variable (engine params) in
/-- Reading a live row back: it is caught, or it has all its text. -/
theorem live_flush (hfits : row.Fits base totalLen 0) (h : m ≤ k) (hn : k ≤ n)
    (checkRepeat : Bool) :
    let flushed := ((row.live engine params base m k).flush engine params (base + m) (base + n)
      checkRepeat).2
    (¬ (checkRepeat = true ∧ row.Catches engine params base m k) →
        flushed = row.live engine params base k k) ∧
      (checkRepeat = true ∧ row.Catches engine params base m k →
        flushed.Frozen base totalLen k (row.read engine params base m).1 .markRepeat) := by
  intro flushed
  have hread := read_window engine params hfits h hn
  dsimp only at hread
  have hcatch : (checkRepeat = true ∧ row.Catches engine params base m k) ↔
      RepeatsIn engine params checkRepeat (row.drive engine params base k).stop
        ((row.read engine params base m).2.appendAll
          (acceptedOf (between (base + m) (base + n) (row.drive engine params base k).accepted)
            (between (base + m) (base + n) (row.drive engine params base k).tokens))) := by
    rw [Catches, hread, RepeatsIn]
    simp only [ne_eq, List.self_eq_append_right]
    tauto
  refine ⟨fun hnot => ?_, fun hyes => ?_⟩
  · have heq := flush_of_kept (row.live engine params base m k) (hcatch.not.mp hnot)
    simp only [flushed, heq]
    rw [live, live, hread]
  · have heq := flush_of_caught (row.live engine params base m k) (hcatch.mp hyes)
    have hk := drive_fits engine params (k := k) hfits
    simp only [flushed, heq]
    exact ⟨⟨hk.tokens_length, hk.accepted_length, hk.unread⟩, rfl, rfl, rfl⟩

/-! ### A row of a run -/

/-- A row nothing was accepted of yet. -/
structure Fresh (base totalLen : Nat) (row : DecodeRow) : Prop where
  fits : row.Fits base totalLen 0
  unread : ∀ keep ∈ row.accepted, keep = false
  completion : row.completion = []
  detokenizer : row.detokenizer = {}

omit [Tokenizer] in
theorem create_fresh (padId : Token) {ids : List Token} (h : ids.length ≤ totalLen) (base : Nat) :
    (create padId totalLen ids).Fresh base totalLen :=
  ⟨create_fits padId h base 0, fun _ hkeep => List.eq_of_mem_replicate hkeep, rfl, rfl⟩

theorem Fresh.live_zero (h : row.Fresh base totalLen) : row.live engine params base 0 0 = row := by
  have hread : row.read engine params base 0 = ([], {}) := by
    rw [read, drive, acceptedOf_of_none h.unread]
    rfl
  have hcompletion := h.completion
  have hdetokenizer := h.detokenizer
  clear h
  cases row
  subst hcompletion hdetokenizer
  rw [live, hread]
  rfl

/-- The poll after `k` rounds of a run catches the row. -/
def Polled (engine : LLMEngine L) (params : SamplingParams) (base : Nat) (stream : Bool)
    (row : DecodeRow) (k : Nat) : Prop :=
  k % POLL_INTERVAL = 0 ∧ 0 < k ∧ row.Catches engine params base (readUpTo stream (k - 1)) k

theorem loops_iff : row.Loops engine params base k ↔ row.Polled engine params base false k := by
  have hread (hpoll : k % POLL_INTERVAL = 0) (hpos : 0 < k) :
      readUpTo false (k - 1) = k - POLL_INTERVAL := by
    rw [readUpTo, if_neg Bool.false_ne_true]
    rw [POLL_INTERVAL] at hpoll ⊢
    omega
  constructor
  · intro ⟨hpoll, hpos, hrepeat, hrunning, htext, hdetect⟩
    exact ⟨hpoll, hpos, hrepeat, hrunning, by rw [hread hpoll hpos]; exact htext, hdetect⟩
  · intro ⟨hpoll, hpos, hrepeat, hrunning, htext, hdetect⟩
    exact ⟨hpoll, hpos, hrepeat, hrunning, by rw [← hread hpoll hpos]; exact htext, hdetect⟩

/-- How a row comes out of so many rounds: no poll caught it, or the first one that did left it
with the text read in front of that window. -/
def Ends (engine : LLMEngine L) (params : SamplingParams) (base totalLen : Nat) (stream : Bool)
    (row : DecodeRow) (n m : Nat) (ended : DecodeRow) : Prop :=
  ((∀ j ≤ n, ¬ row.Polled engine params base stream j) ∧ ended = row.live engine params base m n) ∨
    ∃ k ≤ n, row.Polled engine params base stream k ∧
      (∀ j < k, ¬ row.Polled engine params base stream j) ∧
        ended.Frozen base totalLen k (row.read engine params base (readUpTo stream (k - 1))).1
          .markRepeat

theorem live_advance : (row.live engine params base m k).advance engine params
    (prevPosAt base k) (base + k) = row.live engine params base m (k + 1) := rfl

/-- **Step lemma.** One round of a run. -/
theorem Ends.round {stream : Bool} {ended : DecodeRow} (hfresh : row.Fresh base totalLen)
    (h : row.Ends engine params base totalLen stream n (readUpTo stream n) ended) :
    row.Ends engine params base totalLen stream (n + 1) (readUpTo stream (n + 1))
      (ended.round engine params base stream n) := by
  rcases h with ⟨hnone, rfl⟩ | ⟨k, hk, hpolled, hfirst, hfrozen⟩
  · by_cases hread : stream = true ∨ (n + 1) % POLL_INTERVAL = 0
    · obtain ⟨hkept, hcaught⟩ := live_flush engine params hfresh.fits
        (Nat.le_succ_of_le (readUpTo_le stream n)) (Nat.le_refl (n + 1))
        (decide ((n + 1) % POLL_INTERVAL = 0))
      rw [DecodeRow.round, live_advance, if_pos hread, readUpTo_succ_of_read hread]
      by_cases hpolled : row.Polled engine params base stream (n + 1)
      · obtain ⟨hpoll, hpos, hcatch⟩ := hpolled
        exact .inr ⟨n + 1, Nat.le_refl _, ⟨hpoll, hpos, hcatch⟩,
          fun j hj => hnone j (Nat.le_of_lt_succ hj), hcaught ⟨decide_eq_true hpoll, hcatch⟩⟩
      · refine .inl ⟨fun j hj => ?_, hkept fun hcatch =>
          hpolled ⟨of_decide_eq_true hcatch.1, Nat.succ_pos n, hcatch.2⟩⟩
        rcases Nat.lt_or_eq_of_le hj with hlt | rfl
        · exact hnone j (Nat.le_of_lt_succ hlt)
        · exact hpolled
    · rw [DecodeRow.round, live_advance, if_neg hread, readUpTo_succ_of_unread hread]
      refine .inl ⟨fun j hj => ?_, rfl⟩
      rcases Nat.lt_or_eq_of_le hj with hlt | rfl
      · exact hnone j (Nat.le_of_lt_succ hlt)
      · exact fun hpolled => hread (.inr hpolled.1)
  · refine .inr ⟨k, Nat.le_succ_of_le hk, hpolled, hfirst, ?_⟩
    have hadvanced := hfrozen.advance engine params n
    rw [DecodeRow.round]
    split
    · exact hadvanced.flush (le_readUpTo hpolled.1 hk) _ _
    · exact hadvanced

variable (engine params) in
/-- **Run lemma.** -/
theorem after_ends (hfresh : row.Fresh base totalLen) (stream : Bool) (n : Nat) :
    row.Ends engine params base totalLen stream n (readUpTo stream n)
      (row.after engine params base stream n) := by
  induction n with
  | zero =>
    have hzero : readUpTo stream 0 = 0 := Nat.le_zero.mp (readUpTo_le stream 0)
    refine .inl ⟨fun j hj hpolled => ?_, ?_⟩
    · exact absurd hpolled.2.1 (Nat.not_lt.mpr hj)
    · rw [hzero, hfresh.live_zero, after]
  | succ n ih => exact ih.round hfresh

variable (engine params) in
/-- Once everything was read back, a row that no poll caught has all its text. -/
theorem trail_ends (hfresh : row.Fresh base totalLen) (stream : Bool) (n : Nat) :
    row.Ends engine params base totalLen stream n n
      ((row.after engine params base stream n).trail engine params base n stream n) := by
  rcases after_ends engine params hfresh stream n with
    ⟨hnone, hlive⟩ | ⟨k, hk, hpolled, hfirst, hfrozen⟩
  · refine .inl ⟨hnone, ?_⟩
    rw [trail, hlive]
    split
    · exact (live_flush engine params hfresh.fits (readUpTo_le stream n) (Nat.le_refl n) false).1
        fun hcatch => Bool.false_ne_true hcatch.1
    · next hread => rw [Nat.le_antisymm (readUpTo_le stream n) (Nat.not_lt.mp hread)]
  · refine .inr ⟨k, hk, hpolled, hfirst, ?_⟩
    rw [trail]
    split
    · exact hfrozen.flush (le_readUpTo hpolled.1 hk) _ _
    · exact hfrozen

/-- What is left of a row: its completion and its stop reason. -/
def left (row : DecodeRow) : Text × FinishReason := (row.completion, row.stop.reason)

/-- A poll that a stream fails, the blocking mode fails too. -/
theorem Polled.blocking (hfits : row.Fits base totalLen 0) {stream : Bool}
    (h : row.Polled engine params base stream k) : row.Polled engine params base false k := by
  obtain ⟨hpoll, hpos, hrepeat, hrunning, htext, hdetect⟩ := h
  refine ⟨hpoll, hpos, hrepeat, hrunning, fun heq => htext ?_, hdetect⟩
  have hle : readUpTo false (k - 1) ≤ readUpTo stream (k - 1) := by
    cases stream
    · exact Nat.le_refl _
    · exact readUpTo_le false (k - 1)
  have hgrow := read_grows engine params hfits hle
  have hgrow' := read_grows engine params hfits
    (Nat.le_trans (readUpTo_le stream (k - 1)) (Nat.sub_le k 1))
  rw [heq] at hgrow
  exact hgrow'.eq_of_length_le hgrow.length_le

/-- **One row.** Both modes leave the same of it exactly when the first poll that finds it in a loop
finds no text in front of the last column. -/
theorem left_eq_iff (hfresh : row.Fresh base totalLen) (steps : Nat) :
    ((row.after engine params base true steps).trail engine params base steps true steps).left =
        ((row.after engine params base false steps).trail engine params base steps false steps).left ↔
      ∀ k ≤ steps, row.Loops engine params base k →
        (∀ j < k, ¬ row.Loops engine params base j) →
          (row.read engine params base (k - POLL_INTERVAL)).1 =
            (row.read engine params base (k - 1)).1 := by
  have hstreamed := trail_ends engine params hfresh true steps
  have hblocking := trail_ends engine params hfresh false steps
  have hgrows {m k : Nat} (h : m ≤ k) := read_grows engine params (m := m)
    (k := k) hfresh.fits h
  simp only [loops_iff]
  rcases hblocking with ⟨hnone, hlive⟩ | ⟨k, hk, hpolled, hfirst, hfrozen⟩
  · -- no poll catches the row in either mode
    have hsame : ((row.after engine params base true steps).trail engine params base steps true
        steps) = row.live engine params base steps steps := by
      rcases hstreamed with ⟨-, hlive'⟩ | ⟨k, hk, hpolled, -⟩
      · exact hlive'
      · exact absurd (hpolled.blocking hfresh.fits) (hnone k hk)
    rw [hsame, hlive]
    exact ⟨fun _ k hk hpolled => absurd hpolled (hnone k hk), fun _ => rfl⟩
  · have hwindow : readUpTo false (k - 1) = k - POLL_INTERVAL := by
      have hpoll := hpolled.1
      have hpos := hpolled.2.1
      rw [readUpTo, if_neg Bool.false_ne_true]
      rw [POLL_INTERVAL] at hpoll ⊢
      omega
    have hleft : ((row.after engine params base false steps).trail engine params base steps false
        steps).left = ((row.read engine params base (k - POLL_INTERVAL)).1, .repeat) := by
      rw [left, hfrozen.completion_eq, hfrozen.stop_eq, hwindow]
      rfl
    have hneeds : (∀ k' ≤ steps, row.Polled engine params base false k' →
        (∀ j < k', ¬ row.Polled engine params base false j) →
          (row.read engine params base (k' - POLL_INTERVAL)).1 =
            (row.read engine params base (k' - 1)).1) ↔
        (row.read engine params base (k - POLL_INTERVAL)).1 =
          (row.read engine params base (k - 1)).1 := by
      refine ⟨fun h => h k hk hpolled hfirst, fun h k' hk' hpolled' hfirst' => ?_⟩
      rcases Nat.lt_trichotomy k' k with hlt | rfl | hlt
      · exact absurd hpolled' (hfirst k' hlt)
      · exact h
      · exact absurd hpolled (hfirst' k hlt)
    rw [hneeds, hleft]
    have hlarger : (row.read engine params base (k - POLL_INTERVAL)).1.length <
        (row.read engine params base k).1.length := by
      refine Nat.lt_of_le_of_ne (hgrows (Nat.sub_le _ _)).length_le fun heq => hpolled.2.2.2.2.1 ?_
      rw [hwindow]
      exact (hgrows (Nat.sub_le _ _)).eq_of_length heq
    -- a stream that is not caught at this poll keeps the text of the whole window
    have hkeeps (hnot : ¬ row.Polled engine params base true k) {m : Nat} (hm : k ≤ m) :
        (row.read engine params base m).1 ≠ (row.read engine params base (k - POLL_INTERVAL)).1 ∧
          (row.read engine params base (k - POLL_INTERVAL)).1 ≠
            (row.read engine params base (k - 1)).1 := by
      have hsame : (row.read engine params base (k - 1)).1 = (row.read engine params base k).1 := by
        by_contra hne
        exact hnot ⟨hpolled.1, hpolled.2.1, hpolled.2.2.1, hpolled.2.2.2.1, hne,
          hpolled.2.2.2.2.2⟩
      have hle := (hgrows hm).length_le
      refine ⟨fun heq => ?_, fun heq => ?_⟩
      · rw [heq] at hle
        omega
      · rw [heq, hsame] at hlarger
        omega
    rcases hstreamed with ⟨hnone', hlive'⟩ | ⟨k', hk', hpolled', hfirst', hfrozen'⟩
    · obtain ⟨hne, hne'⟩ := hkeeps (hnone' k hk) hk
      rw [hlive', left, live]
      exact ⟨fun heq => absurd (congrArg Prod.fst heq) hne, fun heq => absurd heq hne'⟩
    · rw [left, hfrozen'.completion_eq, hfrozen'.stop_eq]
      have hread : readUpTo true (k' - 1) = k' - 1 := rfl
      rw [hread]
      rcases Nat.lt_trichotomy k' k with hlt | rfl | hlt
      · exact absurd (hpolled'.blocking hfresh.fits) (hfirst k' hlt)
      · exact ⟨fun heq => (congrArg Prod.fst heq).symm, fun heq => Prod.ext heq.symm rfl⟩
      · obtain ⟨hne, hne'⟩ := hkeeps (hfirst' k hlt) (Nat.le_sub_one_of_lt hlt)
        exact ⟨fun heq => absurd (congrArg Prod.fst heq) hne, fun heq => absurd heq hne'⟩

/-- Rounds after a poll that found the row stopped leave nothing else of it. -/
theorem left_of_finished (hfresh : row.Fresh base totalLen) {stream : Bool}
    (hpoll : n % POLL_INTERVAL = 0) (hn : n ≤ k)
    (hfinished : (row.after engine params base stream n).stop.finished = true) :
    ((row.after engine params base stream n).trail engine params base k stream n).left =
      ((row.after engine params base stream k).trail engine params base k stream k).left := by
  have hread : readUpTo stream n = n := Nat.le_antisymm (readUpTo_le stream n)
    (le_readUpTo hpoll (Nat.le_refl n))
  obtain ⟨completion, stop, hfrozen⟩ : ∃ completion stop,
      (row.after engine params base stream n).Frozen base totalLen n completion stop := by
    rcases after_ends engine params hfresh stream n with
      ⟨-, hlive⟩ | ⟨m, hm, -, -, hfrozen⟩
    · refine ⟨_, _, ⟨?_, rfl, rfl, hfinished⟩⟩
      have hfits := drive_fits engine params (k := n) hfresh.fits
      rw [hlive]
      exact ⟨hfits.tokens_length, hfits.accepted_length, hfits.unread⟩
    · exact ⟨_, _, hfrozen.fits.mono hm, hfrozen.completion_eq, hfrozen.stop_eq, hfrozen.finished⟩
  have hlater (k : Nat) (hk : n ≤ k) :
      (row.after engine params base stream k).Frozen base totalLen n completion stop := by
    induction hk with
    | refl => exact hfrozen
    | @step k hk ih =>
      rw [after, DecodeRow.round]
      split
      · exact (ih.advance engine params k).flush (le_readUpTo hpoll hk) _ _
      · exact ih.advance engine params k
  have htrail {m : Nat} {ended : DecodeRow} (hm : n ≤ m)
      (h : ended.Frozen base totalLen n completion stop) :
      (ended.trail engine params base k stream m).left = (completion, stop.reason) := by
    have hended : (ended.trail engine params base k stream m).Frozen base totalLen n completion
        stop := by
      rw [trail]
      split
      · exact h.flush (le_readUpTo hpoll hm) _ _
      · exact h
    rw [left, hended.completion_eq, hended.stop_eq]
  rw [htrail (Nat.le_refl n) hfrozen, htrail hn (hlater k hn)]

end

end DecodeRow

/-! ### The session of a run -/

theorem joined_nil (batchSize : Nat) : joined batchSize [] = List.replicate batchSize [] := by
  simp [joined, List.map_const']

/-- What one more round yields is added to every sequence. -/
theorem joined_append {yielded : List (List Text)} {deltas completions : List Text}
    (hlen : deltas.length = completions.length)
    (h : joined completions.length yielded = completions) :
    joined completions.length (yielded ++ [deltas]) =
      List.zipWith (· ++ ·) completions deltas := by
  refine List.ext_getElem? fun index => ?_
  have hold : (joined completions.length yielded)[index]? = completions[index]? := by rw [h]
  simp only [joined, List.getElem?_map, List.getElem?_zipWith] at hold ⊢
  by_cases hindex : index < completions.length
  · have hindex' : index < deltas.length := by omega
    simp only [List.getElem?_range hindex, Option.map_some, List.getElem?_eq_getElem hindex,
      List.getElem?_eq_getElem hindex', Option.some.injEq] at hold ⊢
    rw [List.flatMap_append, hold]
    simp [List.getD_eq_getElem?_getD, hindex']
  · have hindex' : ¬ index < deltas.length := by omega
    simp [hindex]

/-- A round without text adds none. -/
theorem joined_append_nil {deltas : List Text} (h : ∀ delta ∈ deltas, delta = [])
    (yielded : List (List Text)) {batchSize : Nat} :
    joined batchSize (yielded ++ [deltas]) = joined batchSize yielded := by
  refine List.map_congr_left fun index _ => ?_
  have hnil : deltas.getD index [] = [] := by
    rw [List.getD_eq_getElem?_getD]
    cases hget : deltas[index]? with
    | none => rfl
    | some delta => exact h delta (List.mem_of_getElem? hget)
  rw [List.flatMap_append, List.flatMap_singleton, hnil, List.append_nil]

namespace DecodeRow

section

variable {L : Type} [Tokenizer] {engine : LLMEngine L} {params : SamplingParams}

/-- A row is left with the text it returns behind what it had. -/
theorem flush_completion (row : DecodeRow) (start upTo : Nat) (checkRepeat : Bool) :
    (row.flush engine params start upTo checkRepeat).2.completion =
      row.completion ++ (row.flush engine params start upTo checkRepeat).1 := by
  by_cases h : RepeatsIn engine params checkRepeat row.stop (row.detokenizer.appendAll
      (acceptedOf (between start upTo row.accepted) (between start upTo row.tokens)))
  · rw [flush_of_caught _ h, List.append_nil]
  · rw [flush_of_kept _ h]

end

end DecodeRow

namespace DecodeSession

section

variable {L : Type} [LinearOrder L] [Zero L] [HMul L ℚ L] [HDiv L ℚ L] [Tokenizer]
  {engine : LLMEngine L} {params : SamplingParams} {stream : Bool} {start session : DecodeSession}
  {k : Nat}

/-- A session `k` rounds after `start`: every row on its own, and a stream has yielded what it
read. -/
structure Driven (engine : LLMEngine L) (params : SamplingParams) (stream : Bool)
    (session start : DecodeSession) (k : Nat) : Prop where
  maxPromptLen_eq : session.maxPromptLen = start.maxPromptLen
  totalLen_eq : session.totalLen = start.totalLen
  rows_eq : session.rows = start.rows.map fun row =>
    row.after engine params start.maxPromptLen stream k
  step_eq : session.step = k
  prevPos_eq : session.prevPos = prevPosAt start.maxPromptLen k
  pendingFrom_eq : session.pendingFrom = start.maxPromptLen + readUpTo stream k
  yielded_eq : stream = true →
    joined start.rows.length session.yielded = session.rows.map DecodeRow.completion

omit [LinearOrder L] [Zero L] [HMul L ℚ L] [HDiv L ℚ L] in
/-- What a read-back yields keeps the yielded text and the completions together. -/
theorem joined_flush (engine : LLMEngine L) (params : SamplingParams) {rows : List DecodeRow}
    {yielded : List (List Text)} (h : joined rows.length yielded = rows.map DecodeRow.completion)
    (start upTo : Nat) (checkRepeat : Bool) :
    joined rows.length
        (yielded ++ [(rows.map (DecodeRow.flush engine params start upTo checkRepeat)).map Prod.fst]) =
      ((rows.map (DecodeRow.flush engine params start upTo checkRepeat)).map Prod.snd).map
        DecodeRow.completion := by
  have hlen : rows.length = (rows.map DecodeRow.completion).length := by simp
  rw [hlen, joined_append (by simp) (by rw [← hlen]; exact h)]
  refine List.ext_getElem? fun index => ?_
  simp only [List.getElem?_zipWith, List.getElem?_map]
  cases rows[index]? with
  | none => rfl
  | some row =>
    simp only [Option.map_some, Option.some.injEq]
    exact (DecodeRow.flush_completion row start upTo checkRepeat).symm

theorem Driven.round (h : session.Driven engine params stream start k) :
    (session.round engine params stream).Driven engine params stream start (k + 1) := by
  have hlen : session.rows.length = start.rows.length := by rw [h.rows_eq, List.length_map]
  by_cases hread : stream = true ∨ (k + 1) % POLL_INTERVAL = 0
  · rw [DecodeSession.round, h.step_eq, h.maxPromptLen_eq, h.prevPos_eq, h.pendingFrom_eq]
    simp only [hread, if_true]
    refine ⟨rfl, h.totalLen_eq, ?_, rfl, rfl, by rw [readUpTo_succ_of_read hread]; rfl, ?_⟩
    · simp only [flush, h.rows_eq, List.map_map]
      refine List.map_congr_left fun row _ => ?_
      rw [DecodeRow.after, DecodeRow.round, if_pos hread]
      rfl
    · intro hstream
      subst hstream
      let rows := session.rows.map (DecodeRow.advance engine params
        (prevPosAt start.maxPromptLen k) (start.maxPromptLen + k))
      have hadvanced : rows.map DecodeRow.completion = session.rows.map DecodeRow.completion := by
        rw [List.map_map]
        rfl
      have hbefore : joined rows.length session.yielded = rows.map DecodeRow.completion := by
        rw [hadvanced, List.length_map, hlen]
        exact h.yielded_eq rfl
      have hjoined := joined_flush engine params hbefore
        (start.maxPromptLen + readUpTo true k) (start.maxPromptLen + k + 1) (decide ((k + 1) % POLL_INTERVAL = 0))
      rw [List.length_map, hlen] at hjoined
      simpa only [flush, if_true] using hjoined
  · rw [DecodeSession.round, h.step_eq, h.maxPromptLen_eq, h.prevPos_eq]
    simp only [hread, if_false]
    refine ⟨rfl, h.totalLen_eq, ?_, rfl, rfl,
      by rw [readUpTo_succ_of_unread hread]; exact h.pendingFrom_eq,
      fun hstream => absurd (.inl hstream) hread⟩
    simp only [h.rows_eq, List.map_map]
    refine List.map_congr_left fun row _ => ?_
    rw [DecodeRow.after, DecodeRow.round, if_neg hread]
    rfl

/-- The rounds of a session that has a position to start from. -/
theorem Driven.decodeSteps (hpos : 0 < start.maxPromptLen) {columns steps : Nat}
    (hcolumns : k + columns = steps) (h : session.Driven engine params stream start k) :
    ∃ session' k', session.decodeSteps engine params stream columns = .ok session' ∧
      session'.Driven engine params stream start k' ∧ k' ≤ steps ∧
      (k' = steps ∨ k' % POLL_INTERVAL = 0 ∧ session'.allFinished = true) := by
  induction columns generalizing k session with
  | zero => exact ⟨session, k, rfl, h, Nat.le_of_eq hcolumns, .inl hcolumns⟩
  | succ columns ih =>
    have hstart : session.maxPromptLen + session.step ≠ session.prevPos := by
      rw [h.maxPromptLen_eq, h.step_eq, h.prevPos_eq, prevPosAt]
      split <;> omega
    have hround := h.round
    simp only [DecodeSession.decodeSteps, hstart, if_false]
    split
    · next hdone =>
        refine ⟨_, k + 1, rfl, hround, by omega, .inr ⟨?_, hdone.2⟩⟩
        rw [← hround.step_eq]
        exact hdone.1
    · exact ih (by omega) hround

/-- Behind the loop only the trailing columns are left. -/
theorem run_of_steps {ended : DecodeSession} (h : session.decodeSteps engine params stream
    (session.totalLen - session.maxPromptLen) = .ok ended) :
    session.run engine params stream =
      if ended.pendingFrom < ended.totalLen then
        let flushed := ended.flush engine params ended.pendingFrom ended.totalLen false
        .ok { flushed.2 with
          yielded := if stream && flushed.1.any (· != []) then ended.yielded ++ [flushed.1]
            else ended.yielded }
      else .ok ended := by
  rw [DecodeSession.run, h]
  rfl

variable (stream) in
/-- **A run leaves every row as if it ran alone**, and a stream has yielded its text. -/
theorem run_left (hpos : 0 < start.maxPromptLen) (hle : start.maxPromptLen ≤ start.totalLen)
    (hfresh : ∀ row ∈ start.rows, row.Fresh start.maxPromptLen start.totalLen)
    (hstart : start.Driven engine params stream start 0) :
    let steps := start.totalLen - start.maxPromptLen
    ∃ session, start.run engine params stream = .ok session ∧
      session.rows.map DecodeRow.left = start.rows.map (fun row =>
        ((row.after engine params start.maxPromptLen stream steps).trail engine params
          start.maxPromptLen steps stream steps).left) ∧
      (stream = true →
        joined session.rows.length session.yielded = session.rows.map DecodeRow.completion) := by
  intro steps
  have htotal : start.totalLen = start.maxPromptLen + steps := by omega
  obtain ⟨session, k, hsteps, hdriven, hk, hend⟩ :=
    hstart.decodeSteps hpos (Nat.zero_add steps)
  have hlen : session.rows.length = start.rows.length := by rw [hdriven.rows_eq, List.length_map]
  -- every row has the trailing columns read back
  have hleft : (session.rows.map fun row =>
      (row.trail engine params start.maxPromptLen steps stream k).left) =
        start.rows.map fun row => ((row.after engine params start.maxPromptLen stream steps).trail
          engine params start.maxPromptLen steps stream steps).left := by
    rw [hdriven.rows_eq, List.map_map]
    refine List.map_congr_left fun row hrow => ?_
    rcases hend with rfl | ⟨hpoll, hall⟩
    · rfl
    · refine DecodeRow.left_of_finished (hfresh row hrow) hpoll hk ?_
      refine List.all_eq_true.mp hall _ ?_
      rw [hdriven.rows_eq]
      exact List.mem_map_of_mem hrow
  rw [run_of_steps hsteps, hdriven.pendingFrom_eq, hdriven.totalLen_eq, htotal]
  simp only [Nat.add_lt_add_iff_left]
  by_cases hread : readUpTo stream k < steps
  · simp only [hread, if_true]
    refine ⟨_, rfl, ?_, fun hstream => ?_⟩
    · rw [← hleft]
      simp only [flush, List.map_map]
      refine List.map_congr_left fun row _ => ?_
      rw [DecodeRow.trail, if_pos hread]
      rfl
    · subst hstream
      have hbefore : joined session.rows.length session.yielded =
          session.rows.map DecodeRow.completion := by
        rw [hlen]
        exact hdriven.yielded_eq rfl
      have hjoined := joined_flush engine params hbefore
        (start.maxPromptLen + readUpTo true k) (start.maxPromptLen + steps) false
      simp only [flush, List.length_map, Bool.true_and]
      split
      · exact hjoined
      · next hnone =>
          -- nothing is yielded where there is no text left
          rw [← hjoined]
          refine (joined_append_nil (fun deltas hdeltas => ?_) _).symm
          by_contra hne
          exact hnone (List.any_eq_true.mpr ⟨deltas, hdeltas, by simpa using hne⟩)
  · simp only [hread, if_false]
    refine ⟨session, rfl, ?_, fun hstream => ?_⟩
    · rw [← hleft]
      refine List.map_congr_left fun row _ => ?_
      rw [DecodeRow.trail, if_neg hread]
    · rw [hlen]
      exact hdriven.yielded_eq hstream

end

end DecodeSession

section

variable {L : Type} [LinearOrder L] [Zero L] [HMul L ℚ L] [HDiv L ℚ L] [Tokenizer]
  {engine : LLMEngine L} {params : SamplingParams} {prompts : List (List Token)}
  {session : DecodeSession}

/-- What a fresh session holds. -/
theorem DecodeSession.create_ok (h : DecodeSession.create engine prompts params = .ok session) :
    session.maxPromptLen ≤ session.totalLen ∧
      (∀ row ∈ session.rows, row.Fresh session.maxPromptLen session.totalLen) ∧
      ∀ stream, session.Driven engine params stream session 0 := by
  unfold DecodeSession.create at h
  split at h
  · cases h
  · next maxPromptLen hlongest =>
      split at h
      · cases h
      · next hfits =>
          cases h
          have hle : maxPromptLen ≤ min engine.maxSeqLen
              (maxPromptLen + params.maxGenLen.getD (engine.maxSeqLen - maxPromptLen)) :=
            Nat.le_min.mpr ⟨Nat.not_lt.mp hfits, Nat.le_add_right _ _⟩
          refine ⟨hle, fun row hrow => ?_, fun stream => ?_⟩
          · obtain ⟨prompt, hprompt, rfl⟩ := List.mem_map.mp hrow
            exact DecodeRow.create_fresh _ (Nat.le_trans ((List.max?_eq_some_iff.mp hlongest).2 _
              (List.mem_map_of_mem hprompt)) hle) _
          · have hzero : readUpTo stream 0 = 0 := Nat.le_zero.mp (readUpTo_le stream 0)
            refine ⟨rfl, rfl, ?_, rfl, rfl, by rw [hzero]; rfl, fun _ => ?_⟩
            · exact (List.map_id' _).symm
            · rw [joined_nil, List.map_map, List.length_map]
              exact (List.map_const' ..).symm

/-- **Streaming and blocking agree** if and only if no sequence loses text in front of the token
that closes a loop. -/
theorem LLMEngine.streamed_eq_blocking_iff :
    engine.streamed params prompts = engine.blocking params prompts ↔
      ∀ session, DecodeSession.create engine prompts params = .ok session →
        session.ReadsAlike engine params := by
  cases hcreate : DecodeSession.create engine prompts params with
  | error raised =>
      simp only [streamed, blocking, hcreate, bind, Except.bind, true_iff]
      exact fun _ heq => nomatch heq
  | ok session =>
      obtain ⟨hle, hfresh, hdriven⟩ := DecodeSession.create_ok hcreate
      have hready : (∀ session', (Except.ok session : Except Raised DecodeSession) = .ok session' →
          session'.ReadsAlike engine params) ↔ session.ReadsAlike engine params :=
        ⟨fun h => h session rfl, fun h session' heq => by cases heq; exact h⟩
      rw [hready]
      simp only [streamed, blocking, hcreate, bind, Except.bind]
      by_cases hpos : 0 < session.maxPromptLen
      · obtain ⟨streamed, hrun, hleft, hjoined⟩ :=
          DecodeSession.run_left true hpos hle hfresh (hdriven true)
        obtain ⟨blocked, hrun', hleft', -⟩ :=
          DecodeSession.run_left false hpos hle hfresh (hdriven false)
        have hpairs (rows rows' : List DecodeRow) :
            (rows.map DecodeRow.completion, rows.map fun row => row.stop.reason) =
                (rows'.map DecodeRow.completion, rows'.map fun row => row.stop.reason) ↔
              rows.map DecodeRow.left = rows'.map DecodeRow.left := by
          rw [Prod.mk.injEq]
          constructor
          · intro ⟨hcompletion, hreason⟩
            have hzip (rows : List DecodeRow) : rows.map DecodeRow.left =
                (rows.map DecodeRow.completion).zip (rows.map fun row => row.stop.reason) := by
              rw [List.zip_map']
              rfl
            rw [hzip, hzip, hcompletion, hreason]
          · intro heq
            have hfst := congrArg (List.map Prod.fst) heq
            have hsnd := congrArg (List.map Prod.snd) heq
            rw [List.map_map, List.map_map] at hfst hsnd
            exact ⟨hfst, hsnd⟩
        rw [hrun, hrun']
        simp only [Except.ok.injEq]
        rw [hjoined rfl, hpairs, hleft, hleft', List.map_inj_left, DecodeSession.ReadsAlike]
        exact ⟨fun h _ row hrow => (DecodeRow.left_eq_iff (hfresh row hrow) _).mp (h row hrow),
          fun h row hrow => (DecodeRow.left_eq_iff (hfresh row hrow) _).mpr (h hpos row hrow)⟩
      · -- a batch of empty prompts raises in both modes, unless there is nothing to generate
        have hzero : session.maxPromptLen = 0 := Nat.eq_zero_of_not_pos hpos
        have halike : session.ReadsAlike engine params := fun h => absurd h hpos
        have hstep : session.step = 0 := (hdriven true).step_eq
        have hprev : session.prevPos = 0 := (hdriven true).prevPos_eq
        have hpending : session.pendingFrom = 0 := by
          rw [(hdriven true).pendingFrom_eq, hzero]
          rfl
        have hrows := (hdriven true).yielded_eq rfl
        simp only [halike, iff_true]
        cases htotal : session.totalLen with
        | zero =>
            have hnone (stream : Bool) : session.run engine params stream = .ok session := by
              have hsteps : session.decodeSteps engine params stream
                  (session.totalLen - session.maxPromptLen) = .ok session := by
                rw [htotal, hzero]
                rfl
              rw [DecodeSession.run_of_steps hsteps, hpending, htotal, if_neg (Nat.lt_irrefl 0)]
            simp only [hnone, hrows]
        | succ total =>
            simp only [DecodeSession.run, htotal, hzero, DecodeSession.decodeSteps, bind, Except.bind,
              hstep, hprev, Nat.sub_zero, Nat.add_zero, if_true]

end

/-- A tokenizer that spells every token with as many letters as half a window has. -/
@[reducible] def longTokenizer : Tokenizer := ⟨fun tokenIds => List.replicate (64 * tokenIds.length) 0x61⟩

/-- A model that goes round in a loop from its first token on. -/
def loopingEngine : LLMEngine ℚ :=
  { eosPadded with
    maxSeqLen := 16
    logits := fun _ => [0, 1, 0]
    detectRepetition := detectRepetition (fun c => decide (0x30 ≤ c ∧ c ≤ 0x39)) 128 3
    logits_length := fun _ => rfl }

/-- A greedy request that stops where its text repeats itself. -/
def loopRequest : SamplingParams :=
  { greedyRequest with
    maxGenLen := some 8
    stopOnRepeat := true
    maxGenLen_pos := fun hzero => Nat.succ_ne_zero 7 (Option.some.inj hzero) }

/-- The poll that finds the loop drops one token of a stream, and the whole window of a run that
does not stream. -/
theorem LLMEngine.blocking_drops_window :
    letI := longTokenizer
    loopingEngine.streamed loopRequest [[1]] ≠ loopingEngine.blocking loopRequest [[1]] := by
  decide +kernel

end RapidLlm
