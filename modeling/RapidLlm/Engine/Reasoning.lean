import RapidLlm.Lib.TagSearch
import RapidLlm.Engine.Detokenizer

/-!
# RapidLlm.Engine.Reasoning

Streaming think-block splitting (`engine/reasoning.py`): a `ReasoningSplitter` routes every
character of a generation to the reasoning or the content channel, delta by delta.

The contract of the module docstring is that any split of the text yields what `parse` returns in
one piece. `feed_append` is the reason: feeding two deltas one after the other is feeding them
joined, since what a delta holds back is all that a later one may still need of it. `Grammar` says
what `parse` returns without naming a state.
-/

namespace RapidLlm

open TagSearch

/-- What reached the two channels. -/
structure Channels where
  reasoning : Text := []
  content : Text := []
  deriving DecidableEq, Repr

instance : Append Channels := ⟨fun a b => ⟨a.reasoning ++ b.reasoning, a.content ++ b.content⟩⟩

namespace Channels

@[simp] theorem mk_append (r c r' c' : Text) :
    (⟨r, c⟩ ++ ⟨r', c'⟩ : Channels) = ⟨r ++ r', c ++ c'⟩ := rfl

@[simp] theorem empty_append (a : Channels) : ({} : Channels) ++ a = a := rfl

/-- What adds nothing is empty. -/
theorem eq_empty_of_append {a b : Channels} (h : a = a ++ b) : b = {} := by
  cases a
  cases b
  simpa using h

end Channels

/-- Where a splitter stands. -/
inductive ReasoningState
  | opening
  | thinking
  | content
  deriving DecidableEq, Repr

/-- `ReasoningSplitter`; `held` is the tail that may yet complete a tag. -/
structure ReasoningSplitter where
  state : ReasoningState
  held : Text := []
  deriving DecidableEq, Repr

namespace ReasoningSplitter

/-- `_tag` -/
def tag (name : List Char) : Text := codePoints (['<'] ++ name ++ ['>'])

/-- `_OPEN` -/
def OPEN : Text := tag ['t', 'h', 'i', 'n', 'k']

/-- `_CLOSE` -/
def CLOSE : Text := tag ['/', 't', 'h', 'i', 'n', 'k']

/-- `ReasoningSplitter(starts_inside)` -/
def create (startsInside : Bool) : ReasoningSplitter :=
  ⟨if startsInside then .thinking else .opening, []⟩

/-- `_feed_thinking` -/
def feedThinking (text : Text) : ReasoningSplitter × Channels :=
  match find CLOSE text with
  | some index => (⟨.content, []⟩, ⟨text.take index, text.drop (index + CLOSE.length)⟩)
  | none =>
      let held := partialSuffix text CLOSE
      (⟨.thinking, held⟩, ⟨text.take (text.length - held.length), []⟩)

/-- `_feed_opening` -/
def feedOpening (text : Text) : ReasoningSplitter × Channels :=
  if OPEN <+: text then feedThinking (text.drop OPEN.length)
  else if text <+: OPEN then (⟨.opening, text⟩, {})
  else
    -- no opening tag: from here on a closing tag is content like any other text
    (⟨.content, []⟩, ⟨[], text⟩)

/-- `feed` -/
def feed (splitter : ReasoningSplitter) (delta : Text) : ReasoningSplitter × Channels :=
  match splitter.state with
  | .content => (splitter, ⟨[], delta⟩)
  | .opening => feedOpening (splitter.held ++ delta)
  | .thinking => feedThinking (splitter.held ++ delta)

/-- `finish` -/
def finish (splitter : ReasoningSplitter) : Channels :=
  match splitter.state with
  | .opening => ⟨[], splitter.held⟩
  | _ => ⟨splitter.held, []⟩

/-- `parse` -/
def parse (startsInside : Bool) (text : Text) : Channels :=
  let fed := (create startsInside).feed text
  fed.2 ++ fed.1.finish

/-- Feeding deltas one after another. -/
def feedAll (splitter : ReasoningSplitter) : List Text → ReasoningSplitter × Channels
  | [] => (splitter, {})
  | delta :: deltas =>
      let fed := splitter.feed delta
      let rest := fed.1.feedAll deltas
      (rest.1, fed.2 ++ rest.2)

/-- What a client gets: both channels over every `feed` and `finish`. -/
def stream (startsInside : Bool) (deltas : List Text) : Channels :=
  let fed := (create startsInside).feedAll deltas
  fed.2 ++ fed.1.finish

/-! ### The one-shot result -/

/-- A text inside the reasoning section: reasoning up to the first closing tag, content after it. -/
inductive Inside : Text → Channels → Prop
  | closed {text : Text} {k : Nat} (h : FirstAt CLOSE text k) :
      Inside text ⟨text.take k, text.drop (k + CLOSE.length)⟩
  | unclosed {text : Text} (h : ¬ CLOSE <:+: text) : Inside text ⟨text, []⟩

/-- A text from its beginning: it starts inside, it opens the section itself, or it is all
content. -/
inductive Grammar : Bool → Text → Channels → Prop
  | inside {text : Text} {channels : Channels} (h : Inside text channels) :
      Grammar true text channels
  | opened {text : Text} {channels : Channels} (h : Inside text channels) :
      Grammar false (OPEN ++ text) channels
  | plain {text : Text} (h : ¬ OPEN <+: text) : Grammar false text ⟨[], text⟩

/-- What `_feed_thinking` passes on and holds back, told as channels. -/
theorem feedThinking_inside (text : Text) :
    Inside text ((feedThinking text).2 ++ (feedThinking text).1.finish) := by
  unfold feedThinking
  cases hfind : find CLOSE text with
  | some index => simpa [finish] using Inside.closed (find_some hfind)
  | none =>
    have hheld : text.take (text.length - (partialSuffix text CLOSE).length) ++
        partialSuffix text CLOSE = text := safePart_append text CLOSE
    simpa [finish, hheld] using Inside.unclosed (find_eq_none_iff.mp hfind)

theorem parse_grammar (startsInside : Bool) (text : Text) :
    Grammar startsInside text (parse startsInside text) := by
  cases startsInside with
  | true => exact .inside (feedThinking_inside text)
  | false =>
    change Grammar false text ((feedOpening text).2 ++ (feedOpening text).1.finish)
    unfold feedOpening
    split
    · rename_i hopen
      obtain ⟨rest, rfl⟩ := hopen
      rw [List.drop_left]
      exact .opened (feedThinking_inside rest)
    · rename_i hopen
      split <;> simpa [finish] using Grammar.plain hopen

theorem Inside.unique {text : Text} {a b : Channels} (h : Inside text a) (h' : Inside text b) :
    a = b := by
  cases h with
  | closed hk =>
    cases h' with
    | closed hk' => rw [hk.unique hk']
    | unclosed hnone => exact absurd hk.isInfix hnone
  | unclosed hnone =>
    cases h' with
    | closed hk' => exact absurd hk'.isInfix hnone
    | unclosed _ => rfl

/-- The grammar leaves no choice. -/
theorem Grammar.unique {startsInside : Bool} {text : Text} {a b : Channels}
    (h : Grammar startsInside text a) (h' : Grammar startsInside text b) : a = b := by
  cases h with
  | inside ha =>
    cases h' with
    | inside hb => exact ha.unique hb
  | @opened rest _ ha =>
    generalize htext : OPEN ++ rest = text at h'
    cases h' with
    | opened hb =>
      obtain rfl := List.append_cancel_left htext
      exact ha.unique hb
    | plain hopen => exact absurd ⟨rest, htext⟩ hopen
  | plain hopen =>
    cases h' with
    | opened _ => exact absurd (List.prefix_append _ _) hopen
    | plain _ => rfl

/-! ### Any chunking -/

theorem feedThinking_append (text more : Text) :
    feedThinking (text ++ more) =
      (((feedThinking text).1.feed more).1,
        (feedThinking text).2 ++ ((feedThinking text).1.feed more).2) := by
  cases hfind : find CLOSE text with
  | some index =>
    have hle := find_le hfind
    have htake : (text ++ more).take index = text.take index :=
      List.take_append_of_le_length (by omega)
    have hdrop : (text ++ more).drop (index + CLOSE.length) =
        text.drop (index + CLOSE.length) ++ more := List.drop_append_of_le_length hle
    simp [feedThinking, hfind, find_append_of_some hfind more, feed, htake, hdrop]
  | none =>
    have hon := find_append hfind more
    have hpassed : text.take (text.length - (partialSuffix text CLOSE).length) =
      safePart text CLOSE := rfl
    cases hrest : find CLOSE (partialSuffix text CLOSE ++ more) with
    | some k =>
      rw [hrest, Option.map_some] at hon
      have hdrop := drop_safePart text CLOSE more (k + CLOSE.length)
      rw [← Nat.add_assoc] at hdrop
      simp [feedThinking, hfind, hon, feed, hrest, hpassed, take_safePart, hdrop]
    | none =>
      rw [hrest, Option.map_none] at hon
      have hmore := safePart_append_more hfind more
      rw [safePart, safePart, safePart, partialSuffix_append hfind] at hmore
      simp only [feedThinking, hfind, hon, feed, hrest, partialSuffix_append hfind, hmore,
        Channels.mk_append, List.append_nil]

theorem feed_append (splitter : ReasoningSplitter) (delta more : Text) :
    splitter.feed (delta ++ more) =
      (((splitter.feed delta).1.feed more).1,
        (splitter.feed delta).2 ++ ((splitter.feed delta).1.feed more).2) := by
  obtain ⟨state, held⟩ := splitter
  cases state with
  | content => rfl
  | thinking =>
    simp only [feed, ← List.append_assoc]
    exact feedThinking_append _ _
  | opening =>
    simp only [feed, ← List.append_assoc]
    generalize held ++ delta = text
    by_cases hopen : OPEN <+: text
    · have hdrop : (text ++ more).drop OPEN.length = text.drop OPEN.length ++ more :=
        List.drop_append_of_le_length hopen.length_le
      have hmore : OPEN <+: text ++ more := hopen.trans (List.prefix_append _ _)
      simp only [feedOpening, if_pos hopen, if_pos hmore, hdrop]
      exact feedThinking_append _ _
    · by_cases hwait : text <+: OPEN
      · simp [feedOpening, hopen, hwait]
      · obtain ⟨hopen', hwait'⟩ := not_prefix_append hopen hwait more
        simp [feedOpening, hopen, hwait, hopen', hwait']

/-- Deltas fed to a splitter that an empty delta leaves alone come to their text fed in one
piece. -/
theorem feedAll_eq (deltas : List Text) : ∀ {splitter : ReasoningSplitter},
    splitter.feed [] = (splitter, {}) →
    splitter.feedAll deltas = splitter.feed deltas.flatten := by
  induction deltas with
  | nil =>
    intro splitter hnil
    exact hnil.symm
  | cons delta deltas ih =>
    intro splitter _
    have happ := feed_append splitter delta []
    rw [List.append_nil] at happ
    have hstate := congrArg Prod.fst happ
    have hout := Channels.eq_empty_of_append (congrArg Prod.snd happ)
    have hnil : (splitter.feed delta).1.feed [] = ((splitter.feed delta).1, {}) :=
      Prod.ext hstate.symm hout
    rw [feedAll, ih hnil, List.flatten_cons, feed_append]

theorem feed_create (startsInside : Bool) :
    (create startsInside).feed [] = (create startsInside, {}) := by
  cases startsInside <;> decide

/-- **Any chunking yields the one-shot result**, and the one-shot result is the grammar's. -/
theorem splitter_stream_eq_parse (startsInside : Bool) (deltas : List Text) :
    stream startsInside deltas = parse startsInside deltas.flatten ∧
      ∀ text channels, Grammar startsInside text channels ↔ parse startsInside text = channels := by
  constructor
  · simp only [stream, parse]
    rw [feedAll_eq deltas (feed_create startsInside)]
  · intro text channels
    have hparse := parse_grammar startsInside text
    exact ⟨hparse.unique, fun h => h ▸ hparse⟩

/-- A tag cut in two, with a partial tag before it. -/
example : stream false [codePoints "<thi".toList, codePoints "nk>a</</th".toList,
    codePoints "ink>b</think>".toList] =
    ⟨codePoints "a</".toList, codePoints "b</think>".toList⟩ := by decide

end ReasoningSplitter

end RapidLlm
