import Mathlib.Data.List.Infix
import RapidLlm.Lib.TagSearch
import RapidLlm.Engine.Detokenizer

/-!
# RapidLlm.Engine.ToolParser

Streaming tool-call extraction (`engine/tool_parser.py`): the contract of a `ToolParser`, `_merge`,
and the DeepSeek family.

* `read` is what one `feed` does with the held text and the delta together: it steps until the
  text is used up or a step waits for more. `finish` flushes.
* Two streams are `Same` if their content is equal and their deltas merge alike on top of anything.

The axiom of the module docstring is that any chunking gives what `parse` gives. `read_append` is
the reason it holds as long as the markup is well formed: reading on from what was held back is
reading the longer text. A malformed header or fence is where it stops to hold: the text that has
arrived becomes content unread (`dumps_of_malformed`), and how much has arrived is up to the
chunking.
-/

namespace RapidLlm

open TagSearch

/-! ### Wire types -/

/-- `ToolCallDelta` -/
structure ToolCallDelta where
  index : Int
  arguments : Text := []
  id : Option Text := none
  name : Option Text := none
  deriving DecidableEq, Repr

/-- `ToolCall` -/
structure ToolCall where
  name : Text
  arguments : Text
  id : Text
  deriving DecidableEq, Repr

/-- `ToolStream` -/
structure ToolStream where
  content : Text := []
  calls : List ToolCallDelta := []
  deriving DecidableEq, Repr

instance : Append ToolStream := ⟨fun a b => ⟨a.content ++ b.content, a.calls ++ b.calls⟩⟩

@[simp] theorem ToolStream.content_append (a b : ToolStream) :
    (a ++ b).content = a.content ++ b.content := rfl

@[simp] theorem ToolStream.calls_append (a b : ToolStream) :
    (a ++ b).calls = a.calls ++ b.calls := rfl

/-- `_call_id` -/
def callId (index : Int) : Text := codePoints ("call_" ++ toString index).toList

/-! ### The contract -/

/-- What a family provides: its initial state, `feed` and `finish`. -/
structure ToolParser (σ : Type) where
  init : σ
  feed : σ → Text → σ × ToolStream
  finish : σ → ToolStream

/-- One round of the loop of `_merge`. -/
def mergeDelta (calls : List (Int × ToolCall)) (delta : ToolCallDelta) : List (Int × ToolCall) :=
  if calls.any fun entry => entry.1 == delta.index then
    calls.map fun entry =>
      if entry.1 = delta.index then
        (entry.1, { entry.2 with arguments := entry.2.arguments ++ delta.arguments })
      else entry
  else
    calls ++ [(delta.index, ⟨delta.name.getD [], delta.arguments, delta.id.getD []⟩)]

/-- `_merge` -/
def merge (deltas : List ToolCallDelta) : List ToolCall :=
  (deltas.foldl mergeDelta []).map Prod.snd

namespace ToolParser

variable {σ : Type}

/-- `ToolParser.parse` -/
def parse (p : ToolParser σ) (text : Text) : Text × List ToolCall :=
  let fed := p.feed p.init text
  let stream := fed.2 ++ p.finish fed.1
  (stream.content, merge stream.calls)

/-- Feeding deltas one after another. -/
def feedAll (p : ToolParser σ) : σ → List Text → σ × ToolStream
  | s, [] => (s, {})
  | s, delta :: deltas =>
      let fed := p.feed s delta
      let rest := p.feedAll fed.1 deltas
      (rest.1, fed.2 ++ rest.2)

/-- What a client gets: both channels over every `feed` and `finish`. -/
def stream (p : ToolParser σ) (deltas : List Text) : Text × List ToolCall :=
  let fed := p.feedAll p.init deltas
  let stream := fed.2 ++ p.finish fed.1
  (stream.content, merge stream.calls)

end ToolParser

/-! ### Streams that come to the same -/

/-- A bare arguments delta fuses with the delta of its call before it. -/
theorem mergeDelta_fuse (calls : List (Int × ToolCall)) (delta : ToolCallDelta) (more : Text) :
    mergeDelta (mergeDelta calls delta) { index := delta.index, arguments := more } =
      mergeDelta calls { delta with arguments := delta.arguments ++ more } := by
  unfold mergeDelta
  by_cases hany : calls.any fun entry => entry.1 == delta.index
  · have hmap : (calls.map fun entry => if entry.1 = delta.index then
        (entry.1, { entry.2 with arguments := entry.2.arguments ++ delta.arguments })
        else entry).any (fun entry => entry.1 == delta.index) = true := by
      obtain ⟨entry, hentry, hindex⟩ := List.any_eq_true.mp hany
      refine List.any_eq_true.mpr ⟨_, List.mem_map_of_mem hentry, ?_⟩
      rw [if_pos (eq_of_beq hindex)]
      exact hindex
    simp only [hany, hmap, if_true, List.map_map]
    refine List.map_congr_left fun entry _ => ?_
    by_cases hindex : entry.1 = delta.index
    · simp only [Function.comp, hindex, if_true, List.append_assoc]
    · simp only [Function.comp, if_neg hindex]
  · have hfresh : ∀ entry ∈ calls, entry.1 ≠ delta.index := fun entry hentry heq =>
      hany (List.any_eq_true.mpr ⟨entry, hentry, beq_iff_eq.mpr heq⟩)
    have hlast : (calls ++ [(delta.index, (⟨delta.name.getD [], delta.arguments,
        delta.id.getD []⟩ : ToolCall))]).any (fun entry => entry.1 == delta.index) = true :=
      List.any_eq_true.mpr ⟨_, List.mem_append_right _ (List.mem_singleton_self _),
        beq_self_eq_true _⟩
    have hkeep : (calls.map fun entry => if entry.1 = delta.index then
        (entry.1, { entry.2 with arguments := entry.2.arguments ++ more }) else entry) = calls :=
      (List.map_congr_left fun entry hentry => if_neg (hfresh entry hentry)).trans (List.map_id _)
    simp only [hany, hlast, Bool.false_eq_true, if_true, if_false, List.map_append, hkeep,
      List.map_cons, List.map_nil]

namespace ToolStream

/-- Equal content, and deltas that merge alike on top of any calls. -/
structure Same (a b : ToolStream) : Prop where
  content : a.content = b.content
  calls : ∀ acc, a.calls.foldl mergeDelta acc = b.calls.foldl mergeDelta acc

theorem Same.refl (a : ToolStream) : a.Same a := ⟨rfl, fun _ => rfl⟩

theorem Same.trans {a b c : ToolStream} (h : a.Same b) (h' : b.Same c) : a.Same c :=
  ⟨h.content.trans h'.content, fun acc => (h.calls acc).trans (h'.calls acc)⟩

theorem Same.append {a b a' b' : ToolStream} (h : a.Same b) (h' : a'.Same b') :
    (a ++ a').Same (b ++ b') :=
  ⟨by rw [content_append, content_append, h.content, h'.content], fun acc => by
    rw [calls_append, calls_append, List.foldl_append, List.foldl_append, h.calls, h'.calls]⟩

theorem Same.merge {a b : ToolStream} (h : a.Same b) : merge a.calls = merge b.calls := by
  unfold RapidLlm.merge
  rw [h.calls]

theorem append_assoc (a b c : ToolStream) : a ++ b ++ c = a ++ (b ++ c) := by
  show (⟨_, _⟩ : ToolStream) = ⟨_, _⟩
  rw [content_append, content_append, calls_append, calls_append, List.append_assoc,
    List.append_assoc]

@[simp] theorem append_empty (a : ToolStream) : a ++ ({} : ToolStream) = a := by
  show (⟨a.content ++ [], a.calls ++ []⟩ : ToolStream) = a
  rw [List.append_nil, List.append_nil]

@[simp] theorem empty_append (a : ToolStream) : ({} : ToolStream) ++ a = a := rfl

/-- Two pieces of the arguments of one call are one piece. -/
theorem same_fuse (index : Int) (text more : Text) (out : ToolStream) :
    ToolStream.Same ({ calls := [{ index, arguments := text ++ more }] } ++ out)
      ({ calls := [{ index, arguments := text }] } ++
        ({ calls := [{ index, arguments := more }] } ++ out)) :=
  ⟨rfl, fun acc => congrArg (out.calls.foldl mergeDelta)
    (mergeDelta_fuse acc { index, arguments := text } more).symm⟩

end ToolStream

/-! ### DeepSeek -/

/-- `_BAR` -/
def BAR : Char := '\uff5c'

/-- `_US` -/
def US : Char := '\u2581'

/-- `_DS_CALLS_BEGIN` -/
def DS_CALLS_BEGIN : Text := codePoints
  ['<', BAR, 't', 'o', 'o', 'l', US, 'c', 'a', 'l', 'l', 's', US, 'b', 'e', 'g', 'i', 'n', BAR, '>']

/-- `_DS_CALL_BEGIN` -/
def DS_CALL_BEGIN : Text := codePoints
  ['<', BAR, 't', 'o', 'o', 'l', US, 'c', 'a', 'l', 'l', US, 'b', 'e', 'g', 'i', 'n', BAR, '>']

/-- `_DS_SEP` -/
def DS_SEP : Text := codePoints ['<', BAR, 't', 'o', 'o', 'l', US, 's', 'e', 'p', BAR, '>']

/-- `_DS_CALL_END` -/
def DS_CALL_END : Text := codePoints
  ['<', BAR, 't', 'o', 'o', 'l', US, 'c', 'a', 'l', 'l', US, 'e', 'n', 'd', BAR, '>']

/-- `_DS_CALLS_END` -/
def DS_CALLS_END : Text := codePoints
  ['<', BAR, 't', 'o', 'o', 'l', US, 'c', 'a', 'l', 'l', 's', US, 'e', 'n', 'd', BAR, '>']

/-- `_BT`: the code fence. -/
def BT : Text := [96, 96, 96]

/-- `_DS_HEADER` -/
def DS_HEADER : Text :=
  DS_CALL_BEGIN ++ codePoints ['f', 'u', 'n', 'c', 't', 'i', 'o', 'n'] ++ DS_SEP

/-- `_DS_FENCE` -/
def DS_FENCE : Text := BT ++ codePoints ['j', 's', 'o', 'n', '\n']

/-- `_DS_ARGS_END` -/
def DS_ARGS_END : Text := codePoints ['\n'] ++ BT ++ DS_CALL_END

/-- `"\n"` -/
def NEWLINE : Text := codePoints ['\n']

namespace DeepSeek

/-- `_state` -/
inductive State
  | outside
  | header
  | name
  | fence
  | args
  | trailer
  deriving DecidableEq, Repr

/-- What one step leaves: the next section and call index, what it emitted, the text it did not
consume, and whether it waits for more of it. -/
structure Step where
  state : State
  index : Int
  out : ToolStream := {}
  text : Text
  blocked : Bool

/-- `_step_outside` -/
def stepOutside (index : Int) (text : Text) : Step :=
  match find DS_CALLS_BEGIN text with
  | some k => ⟨.header, index, { content := text.take k }, text.drop (k + DS_CALLS_BEGIN.length), false⟩
  | none =>
      let held := partialSuffix text DS_CALLS_BEGIN
      ⟨.outside, index, { content := text.take (text.length - held.length) }, held, !held.isEmpty⟩

/-- `_step_header` -/
def stepHeader (index : Int) (text : Text) : Step :=
  if DS_HEADER <+: text then ⟨.name, index, {}, text.drop DS_HEADER.length, false⟩
  else if text <+: DS_HEADER then ⟨.header, index, {}, text, true⟩
  -- The section degrades to content.
  else ⟨.outside, index, { content := text }, [], false⟩

/-- `_step_name` -/
def stepName (index : Int) (text : Text) : Step :=
  match find NEWLINE text with
  | none => ⟨.name, index, {}, text, true⟩
  | some k => ⟨.fence, index + 1,
      { calls := [{ index, id := some (callId index), name := some (text.take k) }] },
      text.drop (k + 1), false⟩

/-- `_step_fence` -/
def stepFence (index : Int) (text : Text) : Step :=
  if DS_FENCE <+: text then ⟨.args, index, {}, text.drop DS_FENCE.length, false⟩
  else if text <+: DS_FENCE then ⟨.fence, index, {}, text, true⟩
  else ⟨.outside, index, { content := text }, [], false⟩

/-- `_step_args` -/
def stepArgs (index : Int) (text : Text) : Step :=
  match find DS_ARGS_END text with
  | some k => ⟨.trailer, index, { calls := [{ index := index - 1, arguments := text.take k }] },
      text.drop (k + DS_ARGS_END.length), false⟩
  | none =>
      let held := partialSuffix text DS_ARGS_END
      ⟨.args, index,
        { calls := [{ index := index - 1, arguments := text.take (text.length - held.length) }] },
        held, true⟩

/-- `_step_trailer` -/
def stepTrailer (index : Int) (text : Text) : Step :=
  if DS_CALLS_END <+: text then ⟨.outside, index, {}, text.drop DS_CALLS_END.length, false⟩
  else if text <+: DS_CALLS_END then ⟨.trailer, index, {}, text, true⟩
  -- Another call follows in the same section.
  else ⟨.header, index, {}, text, false⟩

/-- The step of a section. -/
def step : State → Int → Text → Step
  | .outside => stepOutside
  | .header => stepHeader
  | .name => stepName
  | .fence => stepFence
  | .args => stepArgs
  | .trailer => stepTrailer

end DeepSeek

/-- `DeepSeekToolParser` -/
structure DeepSeekToolParser where
  state : DeepSeek.State := .outside
  held : Text := []
  index : Int := 0
  deriving DecidableEq, Repr

namespace DeepSeek

/-- The loop of `feed`, for this many steps at most. -/
def drive : Nat → State → Int → Text → DeepSeekToolParser × ToolStream
  | 0, state, index, text => (⟨state, text, index⟩, {})
  | _ + 1, state, index, [] => (⟨state, [], index⟩, {})
  | fuel + 1, state, index, c :: text =>
      let r := step state index (c :: text)
      if r.blocked then (⟨r.state, r.text, r.index⟩, r.out)
      else
        let rest := drive fuel r.state r.index r.text
        (rest.1, r.out ++ rest.2)

/-- The loop of `feed`. A step that does not wait consumes something, or goes from a trailer to a
header: twice the length is enough (`read_step`). -/
def read (state : State) (index : Int) (text : Text) : DeepSeekToolParser × ToolStream :=
  drive (2 * text.length + 1) state index text

/-- `DeepSeekToolParser.feed` -/
def feed (p : DeepSeekToolParser) (delta : Text) : DeepSeekToolParser × ToolStream :=
  read p.state p.index (p.held ++ delta)

/-- `DeepSeekToolParser.finish` -/
def finish (p : DeepSeekToolParser) : ToolStream :=
  if p.state = .args then { calls := [{ index := p.index - 1, arguments := p.held }] }
  else { content := p.held }

/-- The family `deepseek`. -/
def parser : ToolParser DeepSeekToolParser where
  init := {}
  feed := feed
  finish := finish

/-! ### Reading -/

/-- What the loop can still do: one extra step for the trailer that turns into a header. -/
def budget (state : State) (text : Text) : Nat :=
  2 * text.length + if state = .trailer then 1 else 0

theorem budget_lt_of_length {state state' : State} {text text' : Text}
    (h : text'.length < text.length) : budget state' text' < budget state text := by
  unfold budget
  split <;> split <;> omega

/-- Every step that does not wait spends some of the budget. -/
theorem step_budget {state : State} {index : Int} {text : Text} (htext : text ≠ [])
    (hgo : (step state index text).blocked = false) :
    budget (step state index text).state (step state index text).text < budget state text := by
  have hpos : 0 < text.length := List.length_pos_iff.mpr htext
  have hdrop : ∀ k, 0 < k → (text.drop k).length < text.length := fun k hk => by
    rw [List.length_drop]
    omega
  cases state with
  | outside =>
    simp only [step, stepOutside] at hgo ⊢
    cases hf : find DS_CALLS_BEGIN text with
    | some k => exact budget_lt_of_length (hdrop _ (Nat.add_pos_right _ (by decide)))
    | none =>
      simp only [hf, Bool.not_eq_false', List.isEmpty_iff] at hgo ⊢
      rw [hgo]
      exact budget_lt_of_length hpos
  | header =>
    simp only [step, stepHeader] at hgo ⊢
    by_cases hpre : DS_HEADER <+: text
    · simp only [if_pos hpre]
      exact budget_lt_of_length (hdrop _ (by decide))
    · by_cases hwait : text <+: DS_HEADER
      · simp only [if_neg hpre, if_pos hwait, Bool.true_eq_false] at hgo
      · simp only [if_neg hpre, if_neg hwait]
        exact budget_lt_of_length hpos
  | name =>
    simp only [step, stepName] at hgo ⊢
    cases hf : find NEWLINE text with
    | none => simp only [hf, Bool.true_eq_false] at hgo
    | some k => exact budget_lt_of_length (hdrop _ (Nat.succ_pos _))
  | fence =>
    simp only [step, stepFence] at hgo ⊢
    by_cases hpre : DS_FENCE <+: text
    · simp only [if_pos hpre]
      exact budget_lt_of_length (hdrop _ (by decide))
    · by_cases hwait : text <+: DS_FENCE
      · simp only [if_neg hpre, if_pos hwait, Bool.true_eq_false] at hgo
      · simp only [if_neg hpre, if_neg hwait]
        exact budget_lt_of_length hpos
  | args =>
    simp only [step, stepArgs] at hgo ⊢
    cases hf : find DS_ARGS_END text with
    | none => simp only [hf, Bool.true_eq_false] at hgo
    | some k => exact budget_lt_of_length (hdrop _ (Nat.add_pos_right _ (by decide)))
  | trailer =>
    simp only [step, stepTrailer] at hgo ⊢
    by_cases hpre : DS_CALLS_END <+: text
    · simp only [if_pos hpre]
      exact budget_lt_of_length (hdrop _ (by decide))
    · by_cases hwait : text <+: DS_CALLS_END
      · simp only [if_neg hpre, if_pos hwait, Bool.true_eq_false] at hgo
      · simp only [if_neg hpre, if_neg hwait, budget]
        simp

/-- More steps than the budget change nothing. -/
theorem drive_budget : ∀ {fuel fuel' : Nat} {state : State} {index : Int} {text : Text},
    budget state text ≤ fuel → budget state text ≤ fuel' →
    drive fuel state index text = drive fuel' state index text
  | 0, 0, _, _, _, _, _ => rfl
  | 0, _ + 1, _, _, text, h, _ => by
      have hnil : text = [] := List.length_eq_zero_iff.mp (by unfold budget at h; omega)
      subst hnil
      rfl
  | _ + 1, 0, _, _, text, _, h => by
      have hnil : text = [] := List.length_eq_zero_iff.mp (by unfold budget at h; omega)
      subst hnil
      rfl
  | fuel + 1, fuel' + 1, state, index, [], _, _ => rfl
  | fuel + 1, fuel' + 1, state, index, c :: text, h, h' => by
      unfold drive
      cases hb : (step state index (c :: text)).blocked with
      | true => simp only [hb, if_true]
      | false =>
        have hlt := step_budget (List.cons_ne_nil c text) hb
        have hrest : drive fuel (step state index (c :: text)).state
            (step state index (c :: text)).index (step state index (c :: text)).text =
            drive fuel' _ _ _ :=
          drive_budget (Nat.le_of_lt_succ (hlt.trans_le h)) (Nat.le_of_lt_succ (hlt.trans_le h'))
        simp only [hb, Bool.false_eq_true, if_false, hrest]

theorem budget_le (state : State) (text : Text) : budget state text ≤ 2 * text.length + 1 := by
  unfold budget
  split <;> omega

@[simp] theorem read_nil (state : State) (index : Int) :
    read state index [] = (⟨state, [], index⟩, {}) := rfl

/-- A text a step waits on is read by that step. -/
theorem read_of_blocked {state : State} {index : Int} {text : Text} (htext : text ≠ [])
    (hb : (step state index text).blocked = true) :
    read state index text = (⟨(step state index text).state, (step state index text).text,
      (step state index text).index⟩, (step state index text).out) := by
  cases text with
  | nil => exact absurd rfl htext
  | cons c text => simp only [read, drive, hb, if_true]

/-- Any other step, and then the rest. -/
theorem read_step {state : State} {index : Int} {text : Text} (htext : text ≠ [])
    (hb : (step state index text).blocked = false) :
    read state index text =
      ((read (step state index text).state (step state index text).index
          (step state index text).text).1,
        (step state index text).out ++ (read (step state index text).state
          (step state index text).index (step state index text).text).2) := by
  have hlt := step_budget htext hb
  cases text with
  | nil => exact absurd rfl htext
  | cons c text =>
    have hle := hlt.trans_le (budget_le state (c :: text))
    have hrest : drive (2 * (c :: text).length) (step state index (c :: text)).state
        (step state index (c :: text)).index (step state index (c :: text)).text =
        read (step state index (c :: text)).state (step state index (c :: text)).index
          (step state index (c :: text)).text :=
      drive_budget (Nat.le_of_lt_succ hle) (budget_le _ _)
    unfold read
    rw [drive]
    simp only [hb, Bool.false_eq_true, if_false, hrest]
    rfl

/-! ### Markup -/

/-- The step sees the marker it looks for, and goes on behind it. -/
def Moves : State → Text → Prop
  | .outside, text => DS_CALLS_BEGIN <:+: text
  | .header, text => DS_HEADER <+: text
  | .name, text => NEWLINE <:+: text
  | .fence, text => DS_FENCE <+: text
  | .args, text => DS_ARGS_END <:+: text
  | .trailer, text => DS_CALLS_END <+: text ∨ ¬ text <+: DS_CALLS_END

/-- The step has the beginning of its marker, and waits for the rest. -/
def Waits : State → Text → Prop
  | .outside, _ => False
  | .header, text => ¬ DS_HEADER <+: text ∧ text <+: DS_HEADER
  | .name, text => ¬ NEWLINE <:+: text
  | .fence, text => ¬ DS_FENCE <+: text ∧ text <+: DS_FENCE
  | .args, _ => False
  | .trailer, text => ¬ DS_CALLS_END <+: text ∧ text <+: DS_CALLS_END

/-- **Malformed markup.** Read from this state on, the text comes to a place where a call header or
a code fence must stand and neither does, nor can it still come. -/
inductive Malformed : State → Text → Prop
  | begin_ {text : Text} {k : Nat} : find DS_CALLS_BEGIN text = some k →
      Malformed .header (text.drop (k + DS_CALLS_BEGIN.length)) → Malformed .outside text
  | header {text : Text} : ¬ DS_HEADER <+: text → ¬ text <+: DS_HEADER → Malformed .header text
  | afterHeader {text : Text} : DS_HEADER <+: text →
      Malformed .name (text.drop DS_HEADER.length) → Malformed .header text
  | afterName {text : Text} {k : Nat} : find NEWLINE text = some k →
      Malformed .fence (text.drop (k + 1)) → Malformed .name text
  | fence {text : Text} : ¬ DS_FENCE <+: text → ¬ text <+: DS_FENCE → Malformed .fence text
  | afterFence {text : Text} : DS_FENCE <+: text →
      Malformed .args (text.drop DS_FENCE.length) → Malformed .fence text
  | afterArgs {text : Text} {k : Nat} : find DS_ARGS_END text = some k →
      Malformed .trailer (text.drop (k + DS_ARGS_END.length)) → Malformed .args text
  | afterSection {text : Text} : DS_CALLS_END <+: text →
      Malformed .outside (text.drop DS_CALLS_END.length) → Malformed .trailer text
  | nextCall {text : Text} : ¬ DS_CALLS_END <+: text → ¬ text <+: DS_CALLS_END →
      Malformed .header text → Malformed .trailer text

/-- Nothing is read as malformed in no text. -/
theorem not_malformed_nil {state : State} : ¬ Malformed state [] := by
  intro h
  cases h with
  | begin_ hf _ => cases (show find DS_CALLS_BEGIN [] = none from rfl).symm.trans hf
  | header _ hwait => exact hwait List.nil_prefix
  | afterHeader hpre _ => exact absurd hpre (by decide)
  | afterName hf _ => cases (show find NEWLINE [] = none from rfl).symm.trans hf
  | fence _ hwait => exact hwait List.nil_prefix
  | afterFence hpre _ => exact absurd hpre (by decide)
  | afterArgs hf _ => cases (show find DS_ARGS_END [] = none from rfl).symm.trans hf
  | afterSection hpre _ => exact absurd hpre (by decide)
  | nextCall _ hwait _ => exact hwait List.nil_prefix

theorem drop_append_of_isPrefix {marker text : Text} (h : marker <+: text) (more : Text) :
    (text ++ more).drop marker.length = text.drop marker.length ++ more :=
  List.drop_append_of_le_length h.length_le

theorem drop_append_of_find {marker text : Text} {k : Nat} (h : find marker text = some k)
    (more : Text) :
    (text ++ more).drop (k + marker.length) = text.drop (k + marker.length) ++ more :=
  List.drop_append_of_le_length (find_le h)

/-- What is malformed stays so as it grows. -/
theorem Malformed.append {state : State} {text : Text} (h : Malformed state text) (more : Text) :
    Malformed state (text ++ more) := by
  induction h with
  | begin_ hf _ ih =>
    exact .begin_ (find_append_of_some hf more) (by rw [drop_append_of_find hf]; exact ih)
  | header hpre hwait =>
    exact .header (not_prefix_append hpre hwait more).1 (not_prefix_append hpre hwait more).2
  | afterHeader hpre _ ih =>
    exact .afterHeader (hpre.trans (List.prefix_append _ _))
      (by rw [drop_append_of_isPrefix hpre]; exact ih)
  | afterName hf _ ih =>
    refine .afterName (find_append_of_some hf more) ?_
    rw [show ∀ n, n + 1 = n + NEWLINE.length from fun _ => rfl, drop_append_of_find hf]
    exact ih
  | fence hpre hwait =>
    exact .fence (not_prefix_append hpre hwait more).1 (not_prefix_append hpre hwait more).2
  | afterFence hpre _ ih =>
    exact .afterFence (hpre.trans (List.prefix_append _ _))
      (by rw [drop_append_of_isPrefix hpre]; exact ih)
  | afterArgs hf _ ih =>
    exact .afterArgs (find_append_of_some hf more) (by rw [drop_append_of_find hf]; exact ih)
  | afterSection hpre _ ih =>
    exact .afterSection (hpre.trans (List.prefix_append _ _))
      (by rw [drop_append_of_isPrefix hpre]; exact ih)
  | nextCall hpre hwait _ ih =>
    exact .nextCall (not_prefix_append hpre hwait more).1 (not_prefix_append hpre hwait more).2 ih

/-! ### One step on a longer text -/

/-- A step that sees its marker goes on, and takes whatever else has arrived along. -/
theorem step_of_moves {state : State} (index : Int) {text : Text} (h : Moves state text)
    (more : Text) :
    (step state index text).blocked = false ∧
      step state index (text ++ more) =
        { step state index text with text := (step state index text).text ++ more } := by
  have hfound : ∀ {marker : Text}, marker <:+: text → ∃ k, find marker text = some k := by
    intro marker hin
    exact Option.ne_none_iff_exists'.mp fun hnone => find_eq_none_iff.mp hnone hin
  have hgrown : ∀ {marker : Text}, marker <+: text → marker <+: text ++ more :=
    fun hpre => hpre.trans (List.prefix_append _ _)
  cases state with
  | outside =>
    obtain ⟨k, hk⟩ := hfound h
    have hle := find_le hk
    simp only [step, stepOutside, hk, find_append_of_some hk, drop_append_of_find hk,
      List.take_append_of_le_length (show k ≤ text.length by omega), and_self]
  | header =>
    have hpre : DS_HEADER <+: text := h
    simp only [step, stepHeader, if_pos hpre, if_pos (hgrown hpre), drop_append_of_isPrefix hpre,
      and_self]
  | name =>
    obtain ⟨k, hk⟩ := hfound h
    have hle := find_le hk
    have hdrop : (text ++ more).drop (k + 1) = text.drop (k + 1) ++ more :=
      drop_append_of_find hk more
    simp only [step, stepName, hk, find_append_of_some hk, hdrop,
      List.take_append_of_le_length (show k ≤ text.length by omega), and_self]
  | fence =>
    have hpre : DS_FENCE <+: text := h
    simp only [step, stepFence, if_pos hpre, if_pos (hgrown hpre), drop_append_of_isPrefix hpre,
      and_self]
  | args =>
    obtain ⟨k, hk⟩ := hfound h
    have hle := find_le hk
    simp only [step, stepArgs, hk, find_append_of_some hk, drop_append_of_find hk,
      List.take_append_of_le_length (show k ≤ text.length by omega), and_self]
  | trailer =>
    by_cases hpre : DS_CALLS_END <+: text
    · simp only [step, stepTrailer, if_pos hpre, if_pos (hgrown hpre),
        drop_append_of_isPrefix hpre, and_self]
    · have hwait : ¬ text <+: DS_CALLS_END := (show _ ∨ _ from h).resolve_left hpre
      have hmore := not_prefix_append hpre hwait more
      simp only [step, stepTrailer, if_neg hpre, if_neg hwait, if_neg hmore.1, if_neg hmore.2,
        and_self]

/-- What the rest of a text holds that is malformed, the whole holds. -/
theorem malformed_of_moves {state : State} (index : Int) {text : Text} (h : Moves state text)
    (hrest : Malformed (step state index text).state (step state index text).text) :
    Malformed state text := by
  cases state with
  | outside =>
    cases hk : find DS_CALLS_BEGIN text with
    | none => exact absurd h (find_eq_none_iff.mp hk)
    | some k => exact .begin_ hk (by simpa only [step, stepOutside, hk] using hrest)
  | header =>
    have hpre : DS_HEADER <+: text := h
    exact .afterHeader hpre (by simpa only [step, stepHeader, if_pos hpre] using hrest)
  | name =>
    cases hk : find NEWLINE text with
    | none => exact absurd h (find_eq_none_iff.mp hk)
    | some k => exact .afterName hk (by simpa only [step, stepName, hk] using hrest)
  | fence =>
    have hpre : DS_FENCE <+: text := h
    exact .afterFence hpre (by simpa only [step, stepFence, if_pos hpre] using hrest)
  | args =>
    cases hk : find DS_ARGS_END text with
    | none => exact absurd h (find_eq_none_iff.mp hk)
    | some k => exact .afterArgs hk (by simpa only [step, stepArgs, hk] using hrest)
  | trailer =>
    by_cases hpre : DS_CALLS_END <+: text
    · exact .afterSection hpre (by simpa only [step, stepTrailer, if_pos hpre] using hrest)
    · have hwait : ¬ text <+: DS_CALLS_END := (show _ ∨ _ from h).resolve_left hpre
      exact .nextCall hpre hwait
        (by simpa only [step, stepTrailer, if_neg hpre, if_neg hwait] using hrest)

/-- A step that waits keeps the text as it is. -/
theorem step_of_waits {state : State} (index : Int) {text : Text} (h : Waits state text) :
    step state index text = ⟨state, index, {}, text, true⟩ := by
  cases state with
  | outside => exact absurd h id
  | header =>
    have hwait : ¬ DS_HEADER <+: text ∧ text <+: DS_HEADER := h
    simp only [step, stepHeader, if_neg hwait.1, if_pos hwait.2]
  | name =>
    have hwait : ¬ NEWLINE <:+: text := h
    simp only [step, stepName, find_eq_none_iff.mpr hwait]
  | fence =>
    have hwait : ¬ DS_FENCE <+: text ∧ text <+: DS_FENCE := h
    simp only [step, stepFence, if_neg hwait.1, if_pos hwait.2]
  | args => exact absurd h id
  | trailer =>
    have hwait : ¬ DS_CALLS_END <+: text ∧ text <+: DS_CALLS_END := h
    simp only [step, stepTrailer, if_neg hwait.1, if_pos hwait.2]

/-- Outside, text without a section is content, but for what may become its marker. -/
theorem read_outside_none {index : Int} {text : Text} (h : find DS_CALLS_BEGIN text = none) :
    read .outside index text = (⟨.outside, partialSuffix text DS_CALLS_BEGIN, index⟩,
      { content := safePart text DS_CALLS_BEGIN }) := by
  cases text with
  | nil => rfl
  | cons c text =>
    have hstep : step .outside index (c :: text) = ⟨.outside, index,
        { content := safePart (c :: text) DS_CALLS_BEGIN },
        partialSuffix (c :: text) DS_CALLS_BEGIN,
        !(partialSuffix (c :: text) DS_CALLS_BEGIN).isEmpty⟩ := by
      simp only [step, stepOutside, h, safePart]
    cases hb : (partialSuffix (c :: text) DS_CALLS_BEGIN).isEmpty with
    | false =>
      rw [read_of_blocked (List.cons_ne_nil _ _) (by rw [hstep, hb]; rfl), hstep]
    | true =>
      have hnil := List.isEmpty_iff.mp hb
      rw [read_step (List.cons_ne_nil _ _) (by rw [hstep, hb]; rfl), hstep, hnil]
      simp only [read_nil, ToolStream.append_empty]

/-- In the arguments of a call, text without their end is arguments, but for what may become it. -/
theorem read_args_none {index : Int} {text : Text} (htext : text ≠ [])
    (h : find DS_ARGS_END text = none) :
    read .args index text = (⟨.args, partialSuffix text DS_ARGS_END, index⟩,
      { calls := [{ index := index - 1, arguments := safePart text DS_ARGS_END }] }) := by
  have hstep : step .args index text = ⟨.args, index,
      { calls := [{ index := index - 1, arguments := safePart text DS_ARGS_END }] },
      partialSuffix text DS_ARGS_END, true⟩ := by
    simp only [step, stepArgs, h, safePart]
  rw [read_of_blocked htext (by rw [hstep]), hstep]

/-! ### Reading on -/

/-- Two ways to the same parser state, with streams that come to the same. -/
def Alike (a b : DeepSeekToolParser × ToolStream) : Prop := a.1 = b.1 ∧ a.2.Same b.2

theorem Alike.refl (a : DeepSeekToolParser × ToolStream) : Alike a a := ⟨rfl, .refl a.2⟩

theorem Alike.trans {a b c : DeepSeekToolParser × ToolStream} (h : Alike a b) (h' : Alike b c) :
    Alike a c := ⟨h.1.trans h'.1, h.2.trans h'.2⟩

/-- Feeding one more delta. -/
def feedOn (fed : DeepSeekToolParser × ToolStream) (delta : Text) :
    DeepSeekToolParser × ToolStream :=
  ((feed fed.1 delta).1, fed.2 ++ (feed fed.1 delta).2)

theorem Alike.feedOn {a b : DeepSeekToolParser × ToolStream} (h : Alike a b) (delta : Text) :
    Alike (feedOn a delta) (feedOn b delta) := by
  obtain ⟨hstate, hstream⟩ := h
  refine ⟨?_, ?_⟩
  · show (feed a.1 delta).1 = (feed b.1 delta).1
    rw [hstate]
  · show (a.2 ++ (feed a.1 delta).2).Same (b.2 ++ (feed b.1 delta).2)
    rw [hstate]
    exact hstream.append (.refl _)

/-- What comes out first comes out first. -/
theorem Alike.cons {a b : DeepSeekToolParser × ToolStream} (h : Alike a b) (out : ToolStream) :
    Alike (a.1, out ++ a.2) (b.1, out ++ b.2) :=
  ⟨h.1, (ToolStream.Same.refl out).append h.2⟩

theorem feedOn_cons (fed : DeepSeekToolParser × ToolStream) (out : ToolStream) (delta : Text) :
    feedOn (fed.1, out ++ fed.2) delta = ((feedOn fed delta).1, out ++ (feedOn fed delta).2) :=
  congrArg (Prod.mk _) (ToolStream.append_assoc _ _ _)

theorem ne_nil_of_moves {state : State} {text : Text} (h : Moves state text) : text ≠ [] := by
  intro hnil
  subst hnil
  cases state with
  | outside => exact absurd (List.infix_nil.mp h) (by decide)
  | header => exact absurd (List.prefix_nil.mp h) (by decide)
  | name => exact absurd (List.infix_nil.mp h) (by decide)
  | fence => exact absurd (List.prefix_nil.mp h) (by decide)
  | args => exact absurd (List.infix_nil.mp h) (by decide)
  | trailer =>
    exact (show _ ∨ _ from h).elim (fun hpre => absurd (List.prefix_nil.mp hpre) (by decide))
      (fun hwait => hwait List.nil_prefix)

/-- Unless a header or a fence is missing, a step moves on, waits, or passes on the text that its
marker has not been found in. -/
theorem cases_of_not_malformed {state : State} {text : Text} (h : ¬ Malformed state text) :
    Moves state text ∨ Waits state text ∨
      (state = .outside ∧ find DS_CALLS_BEGIN text = none) ∨
      (state = .args ∧ find DS_ARGS_END text = none) := by
  cases state with
  | outside =>
    by_cases hin : DS_CALLS_BEGIN <:+: text
    · exact .inl hin
    · exact .inr (.inr (.inl ⟨rfl, find_eq_none_iff.mpr hin⟩))
  | header =>
    by_cases hpre : DS_HEADER <+: text
    · exact .inl hpre
    · by_cases hwait : text <+: DS_HEADER
      · exact .inr (.inl ⟨hpre, hwait⟩)
      · exact absurd (.header hpre hwait) h
  | name =>
    by_cases hin : NEWLINE <:+: text
    · exact .inl hin
    · exact .inr (.inl hin)
  | fence =>
    by_cases hpre : DS_FENCE <+: text
    · exact .inl hpre
    · by_cases hwait : text <+: DS_FENCE
      · exact .inr (.inl ⟨hpre, hwait⟩)
      · exact absurd (.fence hpre hwait) h
  | args =>
    by_cases hin : DS_ARGS_END <:+: text
    · exact .inl hin
    · exact .inr (.inr (.inr ⟨rfl, find_eq_none_iff.mpr hin⟩))
  | trailer =>
    by_cases hpre : DS_CALLS_END <+: text
    · exact .inl (.inl hpre)
    · by_cases hwait : text <+: DS_CALLS_END
      · exact .inr (.inl ⟨hpre, hwait⟩)
      · exact .inl (.inr hwait)

theorem read_of_moves {state : State} (index : Int) {text : Text} (h : Moves state text)
    (more : Text) :
    read state index (text ++ more) =
      ((read (step state index text).state (step state index text).index
          ((step state index text).text ++ more)).1,
        (step state index text).out ++ (read (step state index text).state
          (step state index text).index ((step state index text).text ++ more)).2) := by
  obtain ⟨hgo, hmore⟩ := step_of_moves index h more
  have hne : text ++ more ≠ [] := fun hnil => ne_nil_of_moves h (List.append_eq_nil_iff.mp hnil).1
  rw [read_step hne (by rw [hmore]; exact hgo), hmore]

/-- Outside, no section so far. -/
theorem read_append_outside {index : Int} {text : Text} (h : find DS_CALLS_BEGIN text = none)
    (delta : Text) :
    Alike (read .outside index (text ++ delta)) (feedOn (read .outside index text) delta) := by
  rw [read_outside_none h]
  show Alike _ ((read .outside index (partialSuffix text DS_CALLS_BEGIN ++ delta)).1, _)
  have hsearch := find_append h delta
  cases hf : find DS_CALLS_BEGIN (partialSuffix text DS_CALLS_BEGIN ++ delta) with
  | none =>
    rw [hf] at hsearch
    rw [read_outside_none hsearch, partialSuffix_append h, safePart_append_more h]
    refine ⟨by rw [read_outside_none hf], ?_⟩
    show ToolStream.Same _ (_ ++ (read .outside index _).2)
    rw [read_outside_none hf]
    exact .refl _
  | some k =>
    rw [hf] at hsearch
    have hmoves : Moves .outside (partialSuffix text DS_CALLS_BEGIN ++ delta) := by
      by_contra hin
      rw [find_eq_none_iff.mpr hin] at hf
      cases hf
    have hall : Moves .outside (text ++ delta) := by
      by_contra hin
      rw [find_eq_none_iff.mpr hin] at hsearch
      cases hsearch
    have hone := read_of_moves index hall []
    have htwo := read_of_moves index hmoves []
    simp only [List.append_nil, step, stepOutside, hf, hsearch, Option.map_some, Nat.add_assoc,
      drop_safePart, take_safePart] at hone htwo
    rw [hone]
    refine ⟨by rw [htwo], ?_⟩
    show ToolStream.Same _ (_ ++ (read .outside index _).2)
    rw [htwo]
    exact ⟨List.append_assoc _ _ _, fun _ => rfl⟩

/-- Inside the arguments, no end so far: the deltas of one call fuse. -/
theorem read_append_args {index : Int} {text : Text} (htext : text ≠ [])
    (h : find DS_ARGS_END text = none) (delta : Text) :
    Alike (read .args index (text ++ delta)) (feedOn (read .args index text) delta) := by
  rw [read_args_none htext h]
  show Alike _ ((read .args index (partialSuffix text DS_ARGS_END ++ delta)).1, _)
  have hsearch := find_append h delta
  cases hf : find DS_ARGS_END (partialSuffix text DS_ARGS_END ++ delta) with
  | none =>
    rw [hf] at hsearch
    have hne : text ++ delta ≠ [] := fun hnil => htext (List.append_eq_nil_iff.mp hnil).1
    rw [read_args_none hne hsearch, partialSuffix_append h, safePart_append_more h]
    by_cases hnil : partialSuffix text DS_ARGS_END ++ delta = []
    · -- nothing is held and nothing arrives
      rw [hnil, read_nil]
      refine ⟨rfl, ?_⟩
      show ToolStream.Same _ (_ ++ (read .args index _).2)
      rw [hnil, read_nil, show safePart ([] : Text) DS_ARGS_END = [] from rfl, List.append_nil]
      exact .refl _
    · refine ⟨by rw [read_args_none hnil hf], ?_⟩
      show ToolStream.Same _ (_ ++ (read .args index _).2)
      rw [read_args_none hnil hf]
      exact ToolStream.same_fuse _ _ _ {}
  | some k =>
    rw [hf] at hsearch
    have hmoves : Moves .args (partialSuffix text DS_ARGS_END ++ delta) := by
      by_contra hin
      rw [find_eq_none_iff.mpr hin] at hf
      cases hf
    have hall : Moves .args (text ++ delta) := by
      by_contra hin
      rw [find_eq_none_iff.mpr hin] at hsearch
      cases hsearch
    have hone := read_of_moves index hall []
    have htwo := read_of_moves index hmoves []
    simp only [List.append_nil, step, stepArgs, hf, hsearch, Option.map_some, Nat.add_assoc,
      drop_safePart, take_safePart] at hone htwo
    rw [hone]
    refine ⟨by rw [htwo], ?_⟩
    show ToolStream.Same _ (_ ++ (read .args index _).2)
    rw [htwo]
    exact ToolStream.same_fuse _ _ _ _

/-- **Reading on is reading more.** On markup that is not malformed, what was held back and the next
delta give what the whole gives. -/
theorem read_append {state : State} {index : Int} {text : Text} (h : ¬ Malformed state text)
    (delta : Text) :
    Alike (read state index (text ++ delta)) (feedOn (read state index text) delta) := by
  induction hn : budget state text using Nat.strongRecOn generalizing state index text with
  | ind n ih =>
    by_cases htext : text = []
    · subst htext
      exact .refl _
    rcases cases_of_not_malformed h with hmoves | hwaits | ⟨rfl, hnone⟩ | ⟨rfl, hnone⟩
    · have hgo := (step_of_moves index hmoves []).1
      have hrest : Alike (read (step state index text).state (step state index text).index
            ((step state index text).text ++ delta))
          (feedOn (read (step state index text).state (step state index text).index
            (step state index text).text) delta) :=
        ih _ (hn ▸ step_budget htext hgo) (fun hbad => h (malformed_of_moves index hmoves hbad)) rfl
      rw [read_of_moves index hmoves, read_step htext hgo, feedOn_cons]
      exact hrest.cons _
    · have hstep := step_of_waits index hwaits
      rw [read_of_blocked htext (by rw [hstep]), hstep]
      exact .refl _
    · exact read_append_outside hnone delta
    · exact read_append_args htext hnone delta

/-! ### Reading past malformed markup -/

/-- Whatever arrives behind this text in the same delta becomes content, and leaves the parser
outside with nothing held. -/
def Dumps (state : State) (index : Int) (text : Text) : Prop :=
  ∃ (last : Int) (out : ToolStream), ∀ more, read state index (text ++ more) =
    (⟨.outside, [], last⟩, out ++ { content := more })

theorem Dumps.of_moves {state : State} {index : Int} {text : Text} (h : Moves state text)
    (hrest : Dumps (step state index text).state (step state index text).index
      (step state index text).text) : Dumps state index text := by
  obtain ⟨last, out, hread⟩ := hrest
  refine ⟨last, (step state index text).out ++ out, fun more => ?_⟩
  rw [read_of_moves index h, hread, ToolStream.append_assoc]

/-- The degradation to content, of all the text there is. -/
theorem Dumps.of_step {state : State} {index : Int} {text : Text} (htext : text ≠ [])
    (h : ∀ more, step state index (text ++ more) =
      ⟨.outside, index, { content := text ++ more }, [], false⟩) : Dumps state index text := by
  refine ⟨index, { content := text }, fun more => ?_⟩
  have hne : text ++ more ≠ [] := fun hnil => htext (List.append_eq_nil_iff.mp hnil).1
  rw [read_step hne (by rw [h]), h, read_nil, ToolStream.append_empty]
  rfl

theorem infix_of_find {marker text : Text} {k : Nat} (h : find marker text = some k) :
    marker <:+: text := by
  by_contra hin
  rw [find_eq_none_iff.mpr hin] at h
  cases h

theorem ne_nil_of_not_isPrefix {marker text : Text} (h : ¬ text <+: marker) : text ≠ [] :=
  fun hnil => h (hnil ▸ List.nil_prefix)

/-- **Malformed markup.** How much of a text becomes content unread is how much has arrived. -/
theorem dumps_of_malformed {state : State} {text : Text} (h : Malformed state text) (index : Int) :
    Dumps state index text := by
  induction h generalizing index with
  | begin_ hf _ ih =>
    refine .of_moves (infix_of_find hf) ?_
    simpa only [step, stepOutside, hf] using ih index
  | header hpre hwait =>
    refine .of_step (ne_nil_of_not_isPrefix hwait) fun more => ?_
    have hmore := not_prefix_append hpre hwait more
    simp only [step, stepHeader, if_neg hmore.1, if_neg hmore.2]
  | afterHeader hpre _ ih =>
    refine .of_moves (show Moves .header _ from hpre) ?_
    simpa only [step, stepHeader, if_pos hpre] using ih index
  | afterName hf _ ih =>
    refine .of_moves (show Moves .name _ from infix_of_find hf) ?_
    simpa only [step, stepName, hf] using ih (index + 1)
  | fence hpre hwait =>
    refine .of_step (ne_nil_of_not_isPrefix hwait) fun more => ?_
    have hmore := not_prefix_append hpre hwait more
    simp only [step, stepFence, if_neg hmore.1, if_neg hmore.2]
  | afterFence hpre _ ih =>
    refine .of_moves (show Moves .fence _ from hpre) ?_
    simpa only [step, stepFence, if_pos hpre] using ih index
  | afterArgs hf _ ih =>
    refine .of_moves (show Moves .args _ from infix_of_find hf) ?_
    simpa only [step, stepArgs, hf] using ih index
  | afterSection hpre _ ih =>
    refine .of_moves (show Moves .trailer _ from .inl hpre) ?_
    simpa only [step, stepTrailer, if_pos hpre] using ih index
  | nextCall hpre hwait _ ih =>
    refine .of_moves (show Moves .trailer _ from .inr hwait) ?_
    simpa only [step, stepTrailer, if_neg hpre, if_neg hwait] using ih index

/-! ### Content -/

/-- The steps of a section: nothing is read twice. -/
theorem step_length (state : State) (index : Int) (text : Text) :
    (step state index text).out.content.length + (step state index text).text.length ≤
      text.length := by
  have hdrop : ∀ {marker : Text} {k : Nat}, find marker text = some k →
      (text.take k).length + (text.drop (k + marker.length)).length ≤ text.length := by
    intro marker k hk
    rw [List.length_take, List.length_drop]
    omega
  cases state with
  | outside =>
    simp only [step, stepOutside]
    cases hf : find DS_CALLS_BEGIN text with
    | none => exact (safePart_length text DS_CALLS_BEGIN).le
    | some k => exact hdrop hf
  | header =>
    simp only [step, stepHeader]
    by_cases hpre : DS_HEADER <+: text
    · simp only [if_pos hpre, List.length_nil, List.length_drop]
      omega
    · by_cases hwait : text <+: DS_HEADER
      · simp only [if_neg hpre, if_pos hwait, List.length_nil, Nat.zero_add, le_refl]
      · simp only [if_neg hpre, if_neg hwait, List.length_nil, Nat.add_zero, le_refl]
  | name =>
    simp only [step, stepName]
    cases hf : find NEWLINE text with
    | none => simp only [List.length_nil, Nat.zero_add, le_refl]
    | some k =>
      simp only [List.length_nil, List.length_drop]
      omega
  | fence =>
    simp only [step, stepFence]
    by_cases hpre : DS_FENCE <+: text
    · simp only [if_pos hpre, List.length_nil, List.length_drop]
      omega
    · by_cases hwait : text <+: DS_FENCE
      · simp only [if_neg hpre, if_pos hwait, List.length_nil, Nat.zero_add, le_refl]
      · simp only [if_neg hpre, if_neg hwait, List.length_nil, Nat.add_zero, le_refl]
  | args =>
    simp only [step, stepArgs]
    cases hf : find DS_ARGS_END text with
    | none =>
      show 0 + (partialSuffix text DS_ARGS_END).length ≤ text.length
      have := safePart_length text DS_ARGS_END
      omega
    | some k =>
      simp only [List.length_nil, List.length_drop]
      omega
  | trailer =>
    simp only [step, stepTrailer]
    by_cases hpre : DS_CALLS_END <+: text
    · simp only [if_pos hpre, List.length_nil, List.length_drop]
      omega
    · by_cases hwait : text <+: DS_CALLS_END
      · simp only [if_neg hpre, if_pos hwait, List.length_nil, Nat.zero_add, le_refl]
      · simp only [if_neg hpre, if_neg hwait, List.length_nil, Nat.zero_add, le_refl]

/-- No `feed` puts out, or holds, more than it was given. -/
theorem read_length (state : State) (index : Int) (text : Text) :
    (read state index text).2.content.length + (read state index text).1.held.length ≤
      text.length := by
  induction hn : budget state text using Nat.strongRecOn generalizing state index text with
  | ind n ih =>
    have hstep := step_length state index text
    by_cases htext : text = []
    · subst htext
      exact Nat.le_refl 0
    cases hb : (step state index text).blocked with
    | true =>
      rw [read_of_blocked htext hb]
      exact hstep
    | false =>
      have hrest := ih _ (hn ▸ step_budget htext hb) (step state index text).state
        (step state index text).index (step state index text).text rfl
      rw [read_step htext hb, ToolStream.content_append, List.length_append]
      dsimp only
      omega

theorem feed_length (p : DeepSeekToolParser) (delta : Text) :
    (feed p delta).2.content.length + (feed p delta).1.held.length ≤
      p.held.length + delta.length := by
  have h := read_length p.state p.index (p.held ++ delta)
  rwa [List.length_append] at h

theorem feedAll_length (p : DeepSeekToolParser) (deltas : List Text) :
    (parser.feedAll p deltas).2.content.length + (parser.feedAll p deltas).1.held.length ≤
      p.held.length + deltas.flatten.length := by
  induction deltas generalizing p with
  | nil => exact (Nat.zero_add _).le
  | cons delta deltas ih =>
    have hone := feed_length p delta
    have hrest := ih (feed p delta).1
    show ((feed p delta).2.content ++ (parser.feedAll (feed p delta).1 deltas).2.content).length +
      (parser.feedAll (feed p delta).1 deltas).1.held.length ≤ _
    rw [List.length_append, List.flatten_cons, List.length_append]
    omega

/-- Outside, text that shows no section is content and nothing else. -/
theorem feedAll_no_section {deltas : List Text} : ∀ (held : Text) (index : Int),
    ¬ DS_CALLS_BEGIN <:+: held ++ deltas.flatten →
    ∃ last content, parser.feedAll ⟨.outside, held, index⟩ deltas =
      (⟨.outside, last, index⟩, { content := content }) ∧
      content ++ last = held ++ deltas.flatten := by
  induction deltas with
  | nil =>
    intro held index _
    exact ⟨held, [], rfl, (List.append_nil held).symm⟩
  | cons delta deltas ih =>
    intro held index h
    have hassoc : held ++ (delta :: deltas).flatten = held ++ delta ++ deltas.flatten := by
      rw [List.flatten_cons, List.append_assoc]
    rw [hassoc] at h
    have hnone : find DS_CALLS_BEGIN (held ++ delta) = none := find_eq_none_iff.mpr fun hin =>
      h (hin.trans (List.prefix_append _ _).isInfix)
    have hfeed : parser.feed ⟨.outside, held, index⟩ delta =
        (⟨.outside, partialSuffix (held ++ delta) DS_CALLS_BEGIN, index⟩,
          { content := safePart (held ++ delta) DS_CALLS_BEGIN }) := read_outside_none hnone
    have hsplit := safePart_append (held ++ delta) DS_CALLS_BEGIN
    obtain ⟨last, content, hall, hcontent⟩ := ih
      (partialSuffix (held ++ delta) DS_CALLS_BEGIN) index (fun hin => h (by
        rw [← hsplit, List.append_assoc]
        exact hin.trans (List.suffix_append _ _).isInfix))
    refine ⟨last, safePart (held ++ delta) DS_CALLS_BEGIN ++ content, ?_, ?_⟩
    · simp only [ToolParser.feedAll, hfeed, hall]
      rfl
    · rw [List.append_assoc, hcontent, ← List.append_assoc, hsplit, hassoc]

/-- Outside, text that shows a section loses its marker to it. -/
theorem feedAll_section {deltas : List Text} : ∀ (held : Text) (index : Int),
    DS_CALLS_BEGIN <:+: held ++ deltas.flatten → ¬ DS_CALLS_BEGIN <:+: held →
    (parser.feedAll ⟨.outside, held, index⟩ deltas).2.content.length +
      (parser.feedAll ⟨.outside, held, index⟩ deltas).1.held.length <
        held.length + deltas.flatten.length := by
  induction deltas with
  | nil =>
    intro held index h hnot
    rw [List.flatten_nil, List.append_nil] at h
    exact absurd h hnot
  | cons delta deltas ih =>
    intro held index h hnot
    rw [List.flatten_cons, ← List.append_assoc] at h
    show ((feed ⟨.outside, held, index⟩ delta).2.content ++
      (parser.feedAll (feed ⟨.outside, held, index⟩ delta).1 deltas).2.content).length +
      (parser.feedAll (feed ⟨.outside, held, index⟩ delta).1 deltas).1.held.length < _
    rw [List.length_append, List.flatten_cons, List.length_append]
    cases hf : find DS_CALLS_BEGIN (held ++ delta) with
    | some k =>
      -- the marker is neither content nor held
      have hle := find_le hf
      have hmarker : 0 < DS_CALLS_BEGIN.length := by decide
      have hread := read_of_moves index (show Moves .outside _ from infix_of_find hf) []
      simp only [List.append_nil, step, stepOutside, hf] at hread
      have hone := read_length .header index
        ((held ++ delta).drop (k + DS_CALLS_BEGIN.length))
      have hrest := feedAll_length (feed ⟨.outside, held, index⟩ delta).1 deltas
      have hfeed : feed ⟨.outside, held, index⟩ delta = _ := hread
      rw [hfeed] at hrest ⊢
      rw [ToolStream.content_append, List.length_append, List.length_take]
      rw [List.length_drop] at hone
      rw [List.length_append] at hle hone ⊢
      dsimp only at hrest ⊢
      omega
    | none =>
      have hsplit := safePart_length (held ++ delta) DS_CALLS_BEGIN
      have hfeed : feed ⟨.outside, held, index⟩ delta =
          (⟨.outside, partialSuffix (held ++ delta) DS_CALLS_BEGIN, index⟩,
            { content := safePart (held ++ delta) DS_CALLS_BEGIN }) := read_outside_none hf
      have hlater : DS_CALLS_BEGIN <:+:
          partialSuffix (held ++ delta) DS_CALLS_BEGIN ++ deltas.flatten := by
        by_contra hnone
        have hsearch := find_append hf deltas.flatten
        rw [find_eq_none_iff.mpr hnone, Option.map_none] at hsearch
        exact find_eq_none_iff.mp hsearch h
      have hheld : ¬ DS_CALLS_BEGIN <:+: partialSuffix (held ++ delta) DS_CALLS_BEGIN :=
        fun hin => find_eq_none_iff.mp hf
          (hin.trans (partialSuffix_suffix DS_CALLS_BEGIN _).isInfix)
      have hrest := ih _ index hlater hheld
      rw [hfeed]
      rw [List.length_append] at hsplit
      simp only at hrest ⊢
      omega

/-! ### The axiom of the contract -/

theorem feedAll_concat (p : DeepSeekToolParser) (deltas : List Text) (delta : Text) :
    parser.feedAll p (deltas ++ [delta]) = feedOn (parser.feedAll p deltas) delta := by
  induction deltas generalizing p with
  | nil => exact congrArg (Prod.mk _) (ToolStream.append_empty _)
  | cons first deltas ih =>
    have hrest := ih (feed p first).1
    show ((parser.feedAll (feed p first).1 (deltas ++ [delta])).1,
      (feed p first).2 ++ (parser.feedAll (feed p first).1 (deltas ++ [delta])).2) = _
    rw [hrest]
    exact (feedOn_cons _ _ _).symm

theorem feedAll_append (p : DeepSeekToolParser) (before after : List Text) :
    parser.feedAll p (before ++ after) =
      ((parser.feedAll (parser.feedAll p before).1 after).1,
        (parser.feedAll p before).2 ++ (parser.feedAll (parser.feedAll p before).1 after).2) := by
  induction before generalizing p with
  | nil => rfl
  | cons first before ih =>
    have hrest := ih (feed p first).1
    show ((parser.feedAll (feed p first).1 (before ++ after)).1,
      (feed p first).2 ++ (parser.feedAll (feed p first).1 (before ++ after)).2) = _
    rw [hrest]
    exact congrArg (Prod.mk _) (ToolStream.append_assoc _ _ _).symm

/-- As long as no delta but the last ends behind malformed markup, the deltas are read as one. -/
theorem feedAll_alike (deltas : List Text) : ∀ (delta : Text),
    ¬ Malformed .outside deltas.flatten →
    Alike (read .outside 0 (deltas.flatten ++ delta))
      (feedOn (parser.feedAll parser.init deltas) delta) := by
  induction deltas using List.reverseRecOn with
  | nil => exact fun delta _ => .refl _
  | append_singleton deltas first ih =>
    intro delta h
    rw [List.flatten_append, List.flatten_singleton] at h ⊢
    rw [feedAll_concat]
    exact (read_append h delta).trans ((ih first fun hbad => h (hbad.append first)).feedOn delta)

/-- The first delta that ends behind malformed markup. -/
theorem exists_first_malformed {deltas : List Text} (h : Malformed .outside deltas.flatten) :
    ∃ before delta after, deltas = before ++ delta :: after ∧
      ¬ Malformed .outside before.flatten ∧ Malformed .outside (before.flatten ++ delta) := by
  induction deltas using List.reverseRecOn with
  | nil => exact absurd h not_malformed_nil
  | append_singleton deltas last ih =>
    by_cases hbad : Malformed .outside deltas.flatten
    · obtain ⟨before, delta, after, heq, hbefore, hat⟩ := ih hbad
      exact ⟨before, delta, after ++ [last], by rw [heq, List.append_assoc, List.cons_append],
        hbefore, hat⟩
    · rw [List.flatten_append, List.flatten_singleton] at h
      exact ⟨deltas, last, [], rfl, hbad, h⟩

/-- Both channels at the end of the stream. -/
def channels (fed : DeepSeekToolParser × ToolStream) : Text × List ToolCall :=
  ((fed.2 ++ parser.finish fed.1).content, merge (fed.2 ++ parser.finish fed.1).calls)

theorem stream_eq (deltas : List Text) :
    parser.stream deltas = channels (parser.feedAll parser.init deltas) := rfl

theorem parse_eq (text : Text) : parser.parse text = channels (read .outside 0 text) := rfl

theorem Alike.channels {a b : DeepSeekToolParser × ToolStream} (h : Alike a b) :
    channels a = channels b := by
  have hsame : (a.2 ++ parser.finish a.1).Same (b.2 ++ parser.finish b.1) := by
    rw [h.1]
    exact h.2.append (.refl _)
  show (_, _) = (_, _)
  rw [hsame.content, hsame.merge]

theorem finish_length (p : DeepSeekToolParser) :
    (parser.finish p).content.length ≤ p.held.length := by
  show (finish p).content.length ≤ _
  unfold finish
  split
  · exact Nat.zero_le _
  · exact Nat.le_refl _

/-- Without malformed markup, the chunking does not matter. -/
theorem stream_of_not_malformed {deltas : List Text} (h : ¬ Malformed .outside deltas.flatten) :
    parser.stream deltas = parser.parse deltas.flatten := by
  rw [stream_eq, parse_eq]
  induction deltas using List.reverseRecOn with
  | nil => rfl
  | append_singleton deltas delta _ =>
    rw [List.flatten_append, List.flatten_singleton] at h ⊢
    rw [feedAll_concat]
    exact (feedAll_alike deltas delta fun hbad => h (hbad.append delta)).channels.symm

/-- With malformed markup, it does not matter exactly if no section begins in a delta after it. -/
theorem stream_of_malformed {before after : List Text} {delta : Text}
    (hbefore : ¬ Malformed .outside before.flatten)
    (hat : Malformed .outside (before.flatten ++ delta)) :
    parser.stream (before ++ delta :: after) = parser.parse (before ++ delta :: after).flatten ↔
      ¬ DS_CALLS_BEGIN <:+: after.flatten := by
  obtain ⟨last, out, hread⟩ := dumps_of_malformed hat 0
  -- all in one: the rest is content
  have hparse : parser.parse (before ++ delta :: after).flatten =
      (out.content ++ after.flatten, merge out.calls) := by
    rw [parse_eq, List.flatten_append, List.flatten_cons, ← List.append_assoc, hread]
    show (_ ++ _ ++ [], merge (_ ++ [] ++ [])) = _
    rw [List.append_nil, List.append_nil, List.append_nil]
  -- delta by delta: the rest is read from outside
  obtain ⟨hstate, hsame⟩ := feedAll_alike before delta hbefore
  have hnil := hread []
  rw [List.append_nil] at hnil
  rw [hnil] at hstate hsame
  rw [show (out ++ { content := [] } : ToolStream) = out from ToolStream.append_empty out] at hsame
  rw [← feedAll_concat] at hstate hsame
  have hstream : parser.stream (before ++ delta :: after) =
      channels ((parser.feedAll ⟨.outside, [], last⟩ after).1,
        out ++ (parser.feedAll ⟨.outside, [], last⟩ after).2) := by
    rw [stream_eq, ← List.singleton_append, ← List.append_assoc, feedAll_append, ← hstate]
    have halike : Alike ((parser.feedAll ⟨.outside, [], last⟩ after).1,
        (parser.feedAll parser.init (before ++ [delta])).2 ++
          (parser.feedAll ⟨.outside, [], last⟩ after).2) ((parser.feedAll ⟨.outside, [], last⟩ after).1,
        out ++ (parser.feedAll ⟨.outside, [], last⟩ after).2) :=
      ⟨rfl, ToolStream.Same.append ⟨hsame.content.symm, fun acc => (hsame.calls acc).symm⟩ (.refl _)⟩
    exact halike.channels
  rw [hparse, hstream]
  by_cases hsection : DS_CALLS_BEGIN <:+: after.flatten
  · -- the marker that starts it is lost to the section, and is content in one piece
    refine ⟨fun heq => ?_, fun hno => absurd hsection hno⟩
    have hlt := feedAll_section [] last hsection (by decide)
    have hfinish := finish_length (parser.feedAll ⟨.outside, [], last⟩ after).1
    have hlen := congrArg (fun both => both.1.length) heq
    simp only [channels, ToolStream.content_append, List.length_append, List.length_nil] at hlen hlt
    omega
  · refine ⟨fun _ => hsection, fun _ => ?_⟩
    obtain ⟨held, content, hall, hcontent⟩ := feedAll_no_section [] last hsection
    rw [hall]
    show (out.content ++ content ++ held, merge (out.calls ++ [] ++ [])) = _
    rw [List.append_assoc, hcontent, List.append_nil, List.append_nil, List.nil_append]

/-- **The axiom of the contract, and where it holds.** A text fed delta by delta comes to what it
comes to in one piece, exactly if no section begins in the deltas after one that ends behind a
malformed call header or code fence. -/
theorem stream_eq_parse_iff (deltas : List Text) :
    parser.stream deltas = parser.parse deltas.flatten ↔
      ∀ before after, deltas = before ++ after → Malformed .outside before.flatten →
        ¬ DS_CALLS_BEGIN <:+: after.flatten := by
  by_cases hbad : Malformed .outside deltas.flatten
  · obtain ⟨before, delta, after, rfl, hbefore, hat⟩ := exists_first_malformed hbad
    rw [stream_of_malformed hbefore hat]
    constructor
    · intro hsection early late hcut hearly hlate
      -- a later cut leaves less of the text
      have hprefix : before ++ [delta] <+: early := by
        have hall : before ++ [delta] <+: early ++ late :=
          ⟨after, by rw [← hcut, List.append_assoc, List.singleton_append]⟩
        refine List.prefix_of_prefix_length_le hall (List.prefix_append _ _) ?_
        by_contra hshort
        rw [List.length_append, List.length_singleton] at hshort
        obtain ⟨between, hbetween⟩ := List.prefix_of_prefix_length_le
          (show early <+: before ++ delta :: after from ⟨late, hcut.symm⟩)
          (List.prefix_append before _) (by omega)
        refine hbefore ?_
        rw [← hbetween, List.flatten_append]
        exact hearly.append _
      obtain ⟨between, rfl⟩ := hprefix
      have hafter : after = between ++ late := by
        rw [List.append_assoc, List.append_assoc, List.singleton_append] at hcut
        exact (List.cons.inj (List.append_cancel_left hcut)).2
      rw [hafter, List.flatten_append] at hsection
      exact hsection (hlate.trans (List.suffix_append _ _).isInfix)
    · intro h
      refine h (before ++ [delta]) after (by rw [List.append_assoc, List.singleton_append]) ?_
      rwa [List.flatten_append, List.flatten_singleton]
  · refine iff_of_true (stream_of_not_malformed hbad) fun before after hcut hbefore => ?_
    refine absurd ?_ hbad
    rw [hcut, List.flatten_append]
    exact hbefore.append _

/-- A begin marker, a call header that is none, and the next begin marker in a delta of its own: the
stream drops the second marker, the one-shot parse returns it as content. -/
theorem malformed_header_split :
    parser.stream [DS_CALLS_BEGIN ++ codePoints ['x'], DS_CALLS_BEGIN] =
        (codePoints ['x'], []) ∧
      parser.parse [DS_CALLS_BEGIN ++ codePoints ['x'], DS_CALLS_BEGIN].flatten =
        (codePoints ['x'] ++ DS_CALLS_BEGIN, []) ∧
      parser.stream [DS_CALLS_BEGIN ++ codePoints ['x'], DS_CALLS_BEGIN] ≠
        parser.parse [DS_CALLS_BEGIN ++ codePoints ['x'], DS_CALLS_BEGIN].flatten := by
  decide +kernel

end DeepSeek

end RapidLlm
