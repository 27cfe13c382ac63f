import RapidLlm.Engine.RequestTracker

/-!
# RapidLlm.Engine.StreamedText

The text of a stream (`IncrementalDetokenizer` in `engine/detokenizer.py`, and the two that append
to it: `Scheduler._harvest` and `_RequestStream.push_event`), against the decode of the whole
sequence.

* `DecodesByParts` is what the window arithmetic relies on: what is decoded up to a complete
  character stays as it is.
* `Windowed` is the invariant of one sequence: the text returned so far decodes the tokens up to
  `read_offset`, and what comes after them is nothing yet or ends inside a character.
* So the deltas are the whole text unless that text ends in U+FFFD; nothing flushes what is held
  back when the stream ends.
-/

namespace RapidLlm

/-- A text that ends inside a character, or in a character no token completes. -/
def EndsOpen (text : Text) : Prop := text.getLast? = some REPLACEMENT_CHAR

instance (text : Text) : Decidable (EndsOpen text) :=
  inferInstanceAs (Decidable (text.getLast? = some REPLACEMENT_CHAR))

theorem not_endsOpen_nil : ¬ EndsOpen [] := by simp [EndsOpen]

/-- How a text ends is how its last part ends. -/
theorem endsOpen_append {text more : Text} (h : more ≠ []) : EndsOpen (text ++ more) ↔ EndsOpen more := by
  obtain ⟨init, last, rfl⟩ := List.eq_nil_or_concat more |>.resolve_left h
  simp [EndsOpen]

/-- The window is its context and what follows. -/
theorem drop_window {α : Type} {xs : List α} {i j : Nat} (hij : i ≤ j) (hj : j ≤ xs.length) :
    xs.drop i = (xs.take j).drop i ++ xs.drop j := by
  conv_lhs => rw [← List.take_append_drop j xs]
  rw [List.drop_append_of_le_length (by rw [List.length_take]; omega)]

/-- Decoding may be cut wherever the text so far does not end open. -/
def DecodesByParts [Tokenizer] : Prop :=
  ∀ a b : List Token, ¬ EndsOpen (Tokenizer.decode a) →
    Tokenizer.decode (a ++ b) = Tokenizer.decode a ++ Tokenizer.decode b

section

variable [Tokenizer]

@[simp] theorem decodeIds_nil : decodeIds [] = [] := rfl

theorem decodeIds_append (hparts : DecodesByParts) {a : List Token} (b : List Token)
    (h : ¬ EndsOpen (decodeIds a)) : decodeIds (a ++ b) = decodeIds a ++ decodeIds b := by
  by_cases ha : a = []
  · simp [ha]
  by_cases hb : b = []
  · simp [hb]
  simp only [decodeIds, ha, hb, if_false, List.append_eq_nil_iff, false_and] at h ⊢
  exact hparts a b h

/-! ### One sequence -/

/-- Where a sequence stands after `tokens`, with `out` returned so far. -/
structure Windowed (state : SequenceState) (tokens : List Token) (out : Text) : Prop where
  htokens : state.tokens = tokens
  hprefix : state.prefixOffset ≤ state.readOffset
  hread : state.readOffset ≤ tokens.length
  hcached : ∀ text, state.prefixText = some text →
    text = decodeIds ((tokens.take state.readOffset).drop state.prefixOffset)
  hout : out = decodeIds (tokens.take state.readOffset)
  hcontext : ¬ EndsOpen (decodeIds ((tokens.take state.readOffset).drop state.prefixOffset))
  hwhole : ¬ EndsOpen (decodeIds (tokens.take state.readOffset))
  hheld : decodeIds (tokens.drop state.readOffset) = [] ∨
    EndsOpen (decodeIds (tokens.drop state.readOffset))

variable {state : SequenceState} {tokens : List Token} {out : Text}

theorem Windowed.init : Windowed {} [] [] where
  htokens := rfl
  hprefix := le_rfl
  hread := le_rfl
  hcached := by simp
  hout := by simp
  hcontext := by simpa using not_endsOpen_nil
  hwhole := by simpa using not_endsOpen_nil
  hheld := by simp

theorem Windowed.append (hparts : DecodesByParts) (h : Windowed state tokens out) (tokenId : Token) :
    Windowed (state.append tokenId).2 (tokens ++ [tokenId]) (out ++ (state.append tokenId).1) := by
  have htake : (tokens ++ [tokenId]).take state.readOffset = tokens.take state.readOffset :=
    List.take_append_of_le_length h.hread
  have hlen : state.readOffset ≤ (tokens ++ [tokenId]).length := by
    rw [List.length_append]
    exact h.hread.trans (Nat.le_add_right _ _)
  have hcached : state.prefixText.getD
      (decodeIds (((tokens ++ [tokenId]).take state.readOffset).drop state.prefixOffset)) =
      decodeIds ((tokens.take state.readOffset).drop state.prefixOffset) := by
    rw [htake]
    cases htext : state.prefixText with
    | none => rfl
    | some text => exact h.hcached text htext
  have hfull : decodeIds ((tokens ++ [tokenId]).drop state.prefixOffset) =
      decodeIds ((tokens.take state.readOffset).drop state.prefixOffset) ++
        decodeIds ((tokens ++ [tokenId]).drop state.readOffset) := by
    rw [drop_window h.hprefix hlen, htake, decodeIds_append hparts _ h.hcontext]
  have hall : decodeIds (tokens ++ [tokenId]) =
      out ++ decodeIds ((tokens ++ [tokenId]).drop state.readOffset) := by
    conv_lhs => rw [← List.take_append_drop state.readOffset (tokens ++ [tokenId]), htake]
    rw [decodeIds_append hparts _ h.hwhole, ← h.hout]
  simp only [SequenceState.append, h.htokens, hcached, hfull]
  generalize hrest : decodeIds ((tokens ++ [tokenId]).drop state.readOffset) = rest at hall
  split
  · -- held back: both offsets stay
    rename_i hhold
    refine ⟨rfl, h.hprefix, hlen, ?_, ?_, ?_, ?_, ?_⟩
    · rintro text heq
      simp only [Option.some.injEq] at heq
      simp only [htake, heq]
    · simp only [htake, List.append_nil]
      exact h.hout
    · simpa only [htake] using h.hcontext
    · simpa only [htake] using h.hwhole
    · simp only [hrest]
      by_cases hnil : rest = []
      · exact .inl hnil
      · rcases hhold with hshort | hopen
        · have : rest.length = 0 := by
            rw [List.length_append] at hshort
            omega
          exact .inl (List.length_eq_zero_iff.mp this)
        · exact .inr ((endsOpen_append hnil).mp hopen)
  · -- readable: what was just returned becomes the context
    rename_i hready
    push Not at hready
    obtain ⟨hlonger, hclosed⟩ := hready
    have hnil : rest ≠ [] := by
      rintro rfl
      simp at hlonger
    have hrestClosed : ¬ EndsOpen rest := fun hopen => hclosed ((endsOpen_append hnil).mpr hopen)
    rw [List.drop_left]
    refine ⟨rfl, hlen, le_rfl, by simp, ?_, ?_, ?_, ?_⟩
    · simp only [List.take_length]
      exact hall.symm
    · simp only [List.take_length, hrest]
      exact hrestClosed
    · simp only [List.take_length, hall]
      exact fun hopen => hrestClosed ((endsOpen_append hnil).mp hopen)
    · simp

/-- What was returned is the whole text, unless that ends open. -/
theorem Windowed.complete_iff (hparts : DecodesByParts) (h : Windowed state tokens out) :
    out = decodeIds tokens ↔ ¬ EndsOpen (decodeIds tokens) := by
  have hall : decodeIds tokens = out ++ decodeIds (tokens.drop state.readOffset) := by
    conv_lhs => rw [← List.take_append_drop state.readOffset tokens]
    rw [decodeIds_append hparts _ h.hwhole, ← h.hout]
  have hclosed : ¬ EndsOpen out := h.hout ▸ h.hwhole
  by_cases hnil : decodeIds (tokens.drop state.readOffset) = []
  · rw [hall, hnil, List.append_nil]
    exact iff_of_true rfl hclosed
  · have hopen := h.hheld.resolve_left hnil
    rw [hall, endsOpen_append hnil]
    refine iff_of_false (fun heq => hnil ?_) (not_not_intro hopen)
    simpa using heq

/-! ### A batch of sequences -/

namespace IncrementalDetokenizer

/-- The calls of `append` in the order they are made, and the delta each returns. -/
def appendEach (detokenizer : IncrementalDetokenizer) : List (Nat × Token) → List (Nat × Text)
  | [] => []
  | call :: calls =>
      let appended := detokenizer.append call.1 call.2
      (call.1, appended.1) :: appended.2.appendEach calls

/-- The tokens appended to one sequence. -/
def tokensOf (index : Nat) (calls : List (Nat × Token)) : List Token :=
  (calls.filter fun call => call.1 = index).map Prod.snd

/-- The deltas of one sequence, joined. -/
def deltasOf (index : Nat) (deltas : List (Nat × Text)) : Text :=
  (deltas.filter fun delta => delta.1 = index).flatMap Prod.snd

/-- Sequence `index` has been given `tokens` and has returned `out`. -/
def Reads (detokenizer : IncrementalDetokenizer) (index : Nat) (tokens : List Token) (out : Text) :
    Prop :=
  ∃ state, detokenizer.states[index]? = some state ∧ Windowed state tokens out

variable {detokenizer : IncrementalDetokenizer} {index : Nat}

theorem Reads.create {batchSize : Nat} (h : index < batchSize) :
    (create batchSize).Reads index [] [] :=
  ⟨{}, by simp [IncrementalDetokenizer.create, h], .init⟩

theorem Reads.append (hparts : DecodesByParts) (h : detokenizer.Reads index tokens out)
    (tokenId : Token) :
    (detokenizer.append index tokenId).2.Reads index (tokens ++ [tokenId])
      (out ++ (detokenizer.append index tokenId).1) := by
  obtain ⟨state, hstate, hwindow⟩ := h
  obtain ⟨hlt, -⟩ := List.getElem?_eq_some_iff.mp hstate
  have happ : detokenizer.append index tokenId =
      ((state.append tokenId).1, ⟨detokenizer.states.set index (state.append tokenId).2⟩) := by
    simp only [IncrementalDetokenizer.append, hstate]
  rw [happ]
  exact ⟨_, List.getElem?_set_self hlt, hwindow.append hparts tokenId⟩

/-- Other sequences do not matter. -/
theorem Reads.append_of_ne {other : Nat} (h : detokenizer.Reads index tokens out)
    (hne : other ≠ index) (tokenId : Token) :
    (detokenizer.append other tokenId).2.Reads index tokens out := by
  obtain ⟨state, hstate, hwindow⟩ := h
  refine ⟨state, ?_, hwindow⟩
  unfold IncrementalDetokenizer.append
  split
  · exact hstate
  · rw [← hstate]
    exact List.getElem?_set_ne hne

theorem Reads.appendAll (hparts : DecodesByParts) (more : List Token) :
    ∀ {detokenizer : IncrementalDetokenizer} {tokens : List Token} {out : Text},
      detokenizer.Reads index tokens out →
      (detokenizer.appendAll index more).2.Reads index (tokens ++ more)
        (out ++ (detokenizer.appendAll index more).1) := by
  induction more with
  | nil =>
    intro detokenizer tokens out h
    simpa [IncrementalDetokenizer.appendAll] using h
  | cons tokenId more ih =>
    intro detokenizer tokens out h
    have hrest := ih (h.append hparts tokenId)
    simpa only [IncrementalDetokenizer.appendAll, List.append_assoc, List.singleton_append]
      using hrest

theorem Reads.complete_iff (hparts : DecodesByParts) (h : detokenizer.Reads index tokens out) :
    out = decodeIds tokens ↔ ¬ EndsOpen (decodeIds tokens) := by
  obtain ⟨_, -, hwindow⟩ := h
  exact hwindow.complete_iff hparts

/-- However the calls of a batch interleave, one sequence reads its own. -/
theorem Reads.appendEach (hparts : DecodesByParts) (calls : List (Nat × Token)) :
    ∀ {detokenizer : IncrementalDetokenizer} {tokens : List Token} {out : Text},
      detokenizer.Reads index tokens out →
      ∃ final : IncrementalDetokenizer, final.Reads index (tokens ++ tokensOf index calls)
        (out ++ deltasOf index (detokenizer.appendEach calls)) := by
  induction calls with
  | nil =>
    intro detokenizer tokens out h
    exact ⟨detokenizer, by simpa [tokensOf, deltasOf, IncrementalDetokenizer.appendEach] using h⟩
  | cons call calls ih =>
    intro detokenizer tokens out h
    obtain ⟨other, tokenId⟩ := call
    by_cases hother : other = index
    · subst hother
      obtain ⟨final, hfinal⟩ := ih (h.append hparts tokenId)
      refine ⟨final, ?_⟩
      simpa [tokensOf, deltasOf, IncrementalDetokenizer.appendEach] using hfinal
    · obtain ⟨final, hfinal⟩ := ih (h.append_of_ne hother tokenId)
      refine ⟨final, ?_⟩
      simpa [tokensOf, deltasOf, IncrementalDetokenizer.appendEach, hother] using hfinal

end IncrementalDetokenizer

end

/-! ### The text of a request -/

/-- What `_harvest` asks before it lets a request go on. `repeats` is `detect_repetition` for a
request that has `stop_on_repeat`. -/
structure TextLimits where
  promptLen : Nat
  maxNewTokens : Nat
  maxSeqLen : Nat
  stopTokenIds : List Token
  repeats : Text → Bool

/-- The text side of a `Request`, with the detokenizer the scheduler keeps for it. -/
structure TextRow where
  outputTokenIds : List Token := []
  text : Text := []
  delta : Text := []
  finishReason : Option String := none
  detokenizer : IncrementalDetokenizer := .create 1
  deriving DecidableEq, Repr

namespace TextRow

variable [Tokenizer]

/-- One round of the loop of `_harvest`. -/
def harvestToken (limits : TextLimits) (checkRepeat : Bool) (row : TextRow) (tokenId : Token) :
    TextRow :=
  if row.finishReason.isSome then row
  else if tokenId ∈ limits.stopTokenIds then { row with finishReason := some "eos" }
  else
    let appended := row.detokenizer.append 0 tokenId
    let row : TextRow := { row with
      outputTokenIds := row.outputTokenIds ++ [tokenId]
      delta := row.delta ++ appended.1
      text := row.text ++ appended.1
      detokenizer := appended.2 }
    if limits.maxNewTokens ≤ row.outputTokenIds.length ∨
        limits.maxSeqLen ≤ limits.promptLen + row.outputTokenIds.length then
      { row with finishReason := some "length" }
    else if checkRepeat && limits.repeats row.text then { row with finishReason := some "repeat" }
    else row

/-- `_harvest`, as one request sees it: the step's tokens that are its own. -/
def harvest (limits : TextLimits) (row : TextRow) (step : Bool × List Token) : TextRow :=
  if row.finishReason.isSome ∨ step.2 = [] then row
  else step.2.foldl (harvestToken limits step.1) { row with delta := [] }

/-- The text is what the detokenizer returned for the output tokens. -/
def Kept (row : TextRow) : Prop := row.detokenizer.Reads 0 row.outputTokenIds row.text

variable {limits : TextLimits} {row : TextRow}

theorem Kept.init : Kept {} := .create Nat.one_pos

theorem Kept.harvestToken (hparts : DecodesByParts) (h : row.Kept) (checkRepeat : Bool)
    (tokenId : Token) : (row.harvestToken limits checkRepeat tokenId).Kept := by
  unfold TextRow.harvestToken
  split
  · exact h
  · split
    · exact h
    · have happ := IncrementalDetokenizer.Reads.append hparts h tokenId
      dsimp only
      split
      · exact happ
      · split <;> exact happ

theorem Kept.harvest (hparts : DecodesByParts) (h : row.Kept) (step : Bool × List Token) :
    (row.harvest limits step).Kept := by
  unfold TextRow.harvest
  split
  · exact h
  · have hopened : Kept { row with delta := [] } := h
    generalize { row with delta := [] } = opened at hopened
    induction step.2 generalizing opened with
    | nil => exact hopened
    | cons tokenId tokenIds ih => exact ih _ (hopened.harvestToken hparts step.1 tokenId)

theorem Kept.harvestAll (hparts : DecodesByParts) (steps : List (Bool × List Token)) (h : row.Kept) :
    (steps.foldl (TextRow.harvest limits) row).Kept := by
  induction steps generalizing row with
  | nil => exact h
  | cons step steps ih => exact ih (h.harvest hparts step)

end TextRow

/-! ### The text of a stream -/

/-- What an item adds to the text. -/
def StreamItem.delta : StreamItem → Text
  | .output chunk => chunk.delta
  | _ => []

namespace RequestStream

/-- The deltas a client has been sent, joined. -/
def sent (stream : RequestStream) : Text := stream.queue.flatMap StreamItem.delta

/-- The tokens of the events that carry no error. -/
def delivered (events : List RequestEvent) : List Token :=
  (events.filter fun event => event.error = none).flatMap RequestEvent.newTokenIds

variable [Tokenizer] {stream : RequestStream} {tokens : List Token}

/-- The text of a stream is what its detokenizer returned, and all of it was sent. -/
structure Kept (stream : RequestStream) (tokens : List Token) : Prop where
  hreads : stream.detokenizer.Reads 0 tokens stream.text
  hsent : stream.sent = stream.text

theorem Kept.init (requestId : RequestId) : Kept { requestId } [] :=
  ⟨.create Nat.one_pos, rfl⟩

theorem Kept.pushEvent (hparts : DecodesByParts) (h : stream.Kept tokens) (event : RequestEvent) :
    (stream.pushEvent event).Kept (tokens ++ delivered [event]) := by
  unfold RequestStream.pushEvent
  cases herror : event.error with
  | some message =>
    refine ⟨by simpa [delivered, herror, RequestStream.fail, RequestStream.push] using h.hreads, ?_⟩
    simpa [sent, RequestStream.fail, RequestStream.push, StreamItem.delta] using h.hsent
  | none =>
    have happ := h.hreads.appendAll hparts event.newTokenIds
    have hdelivered : delivered [event] = event.newTokenIds := by simp [delivered, herror]
    rw [hdelivered]
    have hsent := h.hsent
    dsimp only
    split
    · rename_i hquiet
      refine ⟨happ, ?_⟩
      simpa [sent, hquiet.1] using hsent
    · refine ⟨happ, ?_⟩
      simpa [sent, RequestStream.push, StreamItem.delta] using hsent

theorem Kept.pushEvents (hparts : DecodesByParts) (events : List RequestEvent)
    (h : stream.Kept tokens) :
    (events.foldl RequestStream.pushEvent stream).Kept (tokens ++ delivered events) := by
  induction events generalizing stream tokens with
  | nil => simpa [delivered] using h
  | cons event events ih =>
    have hrest := ih (h.pushEvent hparts event)
    have hcons : delivered [event] ++ delivered events = delivered (event :: events) := by
      simp only [delivered, ← List.flatMap_append, ← List.filter_append, List.singleton_append]
    rw [List.append_assoc, hcons] at hrest
    exact hrest

end RequestStream

/-- **Streamed text is the decode of the whole sequence exactly if that does not end in U+FFFD**:
for every sequence of a batch, for the text a request carries, and for what an async client is
sent. -/
theorem streamed_eq_decode_iff [Tokenizer] (hparts : DecodesByParts) :
    (∀ (batchSize index : Nat) (calls : List (Nat × Token)), index < batchSize →
      (IncrementalDetokenizer.deltasOf index
          ((IncrementalDetokenizer.create batchSize).appendEach calls) =
          decodeIds (IncrementalDetokenizer.tokensOf index calls) ↔
        ¬ EndsOpen (decodeIds (IncrementalDetokenizer.tokensOf index calls)))) ∧
    (∀ (limits : TextLimits) (steps : List (Bool × List Token)),
      ((steps.foldl (TextRow.harvest limits) {}).text =
          decodeIds (steps.foldl (TextRow.harvest limits) {}).outputTokenIds ↔
        ¬ EndsOpen (decodeIds (steps.foldl (TextRow.harvest limits) {}).outputTokenIds))) ∧
    ∀ (requestId : RequestId) (events : List RequestEvent),
      ((events.foldl RequestStream.pushEvent { requestId }).sent =
          decodeIds (RequestStream.delivered events) ↔
        ¬ EndsOpen (decodeIds (RequestStream.delivered events))) := by
  refine ⟨fun batchSize index calls hindex => ?_, fun limits steps => ?_, fun requestId events => ?_⟩
  · obtain ⟨final, hfinal⟩ := (IncrementalDetokenizer.Reads.create hindex).appendEach hparts calls
    simpa using hfinal.complete_iff hparts
  · exact (TextRow.Kept.init.harvestAll hparts steps).complete_iff hparts
  · have hkept := (RequestStream.Kept.init requestId).pushEvents hparts events
    rw [hkept.hsent]
    simpa using hkept.hreads.complete_iff hparts

/-! ### A tokenizer that decodes by parts -/

/-- UTF-8 with replacement, as far as the two-byte characters that begin with the byte `C3`. -/
def decodeBytes : List Token → Text
  | [] => []
  | [byte] => [if byte < 0x80 then byte else REPLACEMENT_CHAR]
  | lead :: byte :: rest =>
      if lead < 0x80 then lead :: decodeBytes (byte :: rest)
      else if lead = 0xc3 ∧ 0x80 ≤ byte ∧ byte < 0xc0 then (byte + 0x40) :: decodeBytes rest
      else REPLACEMENT_CHAR :: decodeBytes (byte :: rest)

/-- A byte a token. -/
@[reducible] def byteTokenizer : Tokenizer := ⟨decodeBytes⟩

theorem byteTokenizer_parts : @DecodesByParts byteTokenizer := by
  intro a
  change ∀ b, ¬ EndsOpen (decodeBytes a) → decodeBytes (a ++ b) = decodeBytes a ++ decodeBytes b
  have hrest {c : Nat} {text : Text} (h : ¬ EndsOpen (c :: text)) : ¬ EndsOpen text := by
    intro hopen
    have hnil : text ≠ [] := by
      rintro rfl
      exact not_endsOpen_nil hopen
    exact h ((@endsOpen_append [c] text hnil).mpr hopen)
  induction a using decodeBytes.induct with
  | case1 => simp [decodeBytes]
  | case2 byte =>
    intro b h
    have hascii : byte < 0x80 := by
      by_contra hlarge
      exact h (by simp [decodeBytes, hlarge, EndsOpen])
    cases b with
    | nil => simp [decodeBytes]
    | cons c b => simp [decodeBytes, hascii]
  | case3 lead byte rest hascii ih =>
    intro b h
    simp only [decodeBytes, hascii, if_true] at h
    have := ih b (hrest h)
    simp only [List.cons_append] at this
    simp [decodeBytes, hascii, this]
  | case4 lead byte rest hascii hpair ih =>
    intro b h
    simp only [decodeBytes, hpair, and_self, if_true] at h
    simp [decodeBytes, hpair, ih b (hrest h)]
  | case5 lead byte rest hascii hpair ih =>
    intro b h
    simp only [decodeBytes, hascii, hpair, if_false] at h
    have := ih b (hrest h)
    simp only [List.cons_append] at this
    simp [decodeBytes, hascii, hpair, this]

/-- A character in two tokens arrives whole, by every way. -/
theorem streamed_whole_character :
    IncrementalDetokenizer.deltasOf 0
        (@IncrementalDetokenizer.appendEach byteTokenizer (.create 1) [(0, 0xc3), (0, 0xa9)]) =
      @decodeIds byteTokenizer [0xc3, 0xa9] :=
  ((@streamed_eq_decode_iff byteTokenizer byteTokenizer_parts).1 1 0 [(0, 0xc3), (0, 0xa9)]
    Nat.one_pos).mpr (by decide)

/-- A sequence that ends inside a character: its end is never sent. -/
theorem streamed_ends_held :
    @DecodesByParts byteTokenizer ∧
      IncrementalDetokenizer.deltasOf 0
        (@IncrementalDetokenizer.appendEach byteTokenizer (.create 1) [(0, 0x63), (0, 0xc3)]) ≠
      @decodeIds byteTokenizer [0x63, 0xc3] :=
  ⟨byteTokenizer_parts, by decide⟩

end RapidLlm
