import RapidLlm.Engine.PrefixCache

/-!
# RapidLlm.Engine.Detokenizer

Incremental detokenisation (`engine/detokenizer.py`): token ids in, the text that has become
readable out. A text is the list of its code points, and the tokenizer is whatever decodes a list of
ids.
-/

namespace RapidLlm

/-- A Python string, as its code points. -/
abbrev Text := List Nat

/-- The code points of some characters. -/
def codePoints (cs : List Char) : Text := cs.map Char.toNat

/-- `Tokenizer`: `decode(token_ids, skip_special_tokens=True)`. -/
class Tokenizer where
  decode : List Token → Text

/-- One code point a token. -/
@[reducible] def spellingTokenizer : Tokenizer := ⟨fun tokenIds => tokenIds⟩

/-- `_REPLACEMENT_CHAR` -/
def REPLACEMENT_CHAR : Nat := 0xfffd

/-- `_SequenceState` -/
structure SequenceState where
  tokens : List Token := []
  prefixOffset : Nat := 0
  readOffset : Nat := 0
  prefixText : Option Text := none
  deriving DecidableEq, Repr

/-- `IncrementalDetokenizer`: one state per sequence. -/
structure IncrementalDetokenizer where
  states : List SequenceState
  deriving DecidableEq, Repr

section

variable [Tokenizer]

/-- `_decode` -/
def decodeIds (tokenIds : List Token) : Text :=
  if tokenIds = [] then [] else Tokenizer.decode tokenIds

/-- `append`, on the state of the sequence. -/
def SequenceState.append (state : SequenceState) (tokenId : Token) : Text × SequenceState :=
  let tokens := state.tokens ++ [tokenId]
  let prefixText := state.prefixText.getD
    (decodeIds ((tokens.take state.readOffset).drop state.prefixOffset))
  let fullText := decodeIds (tokens.drop state.prefixOffset)
  if fullText.length ≤ prefixText.length ∨ fullText.getLast? = some REPLACEMENT_CHAR then
    -- Nothing new is safely readable yet.
    ([], { state with
      tokens
      prefixText := some prefixText })
  else
    (fullText.drop prefixText.length,
      { tokens, prefixOffset := state.readOffset, readOffset := tokens.length, prefixText := none })

/-- `append`. An index without a sequence raises in the code; a stream has the one sequence 0. -/
def IncrementalDetokenizer.append (detokenizer : IncrementalDetokenizer) (index : Nat)
    (tokenId : Token) : Text × IncrementalDetokenizer :=
  match detokenizer.states[index]? with
  | none => ([], detokenizer)
  | some state =>
      let appended := state.append tokenId
      (appended.1, ⟨detokenizer.states.set index appended.2⟩)

/-- The deltas of several tokens, joined. -/
def IncrementalDetokenizer.appendAll (detokenizer : IncrementalDetokenizer) (index : Nat) :
    List Token → Text × IncrementalDetokenizer
  | [] => ([], detokenizer)
  | tokenId :: tokenIds =>
      let first := detokenizer.append index tokenId
      let rest := first.2.appendAll index tokenIds
      (first.1 ++ rest.1, rest.2)

end

/-- `IncrementalDetokenizer(tokenizer, batch_size)` -/
def IncrementalDetokenizer.create (batchSize : Nat) : IncrementalDetokenizer :=
  ⟨List.replicate batchSize {}⟩

end RapidLlm
