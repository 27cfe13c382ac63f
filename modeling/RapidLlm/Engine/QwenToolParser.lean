import RapidLlm.Engine.ToolParser

/-!
# RapidLlm.Engine.QwenToolParser

The Qwen family of `engine/tool_parser.py`: one JSON object inside each `tool_call` element.

* `JsonCallScanner` reads an object character by character; `QwenToolParser` drives it, and looks
  for the tags around it.
* `Reading` is the same parser as a one-pass fold over the characters. It keeps the text of the
  section it is in, and does with it at the end of a delta (`pause`) what the parser does.
* `feed_reads` connects the two: what the parser has emitted and holds after some deltas is what the
  fold says. `stream_eq_result` is that for a whole stream.
-/

namespace RapidLlm

open TagSearch

/-- `_QWEN_OPEN` -/
def QWEN_OPEN : Text := codePoints ['<', 't', 'o', 'o', 'l', '_', 'c', 'a', 'l', 'l', '>']

/-- `_QWEN_CLOSE` -/
def QWEN_CLOSE : Text := codePoints ['<', '/', 't', 'o', 'o', 'l', '_', 'c', 'a', 'l', 'l', '>']

namespace Qwen

/-! ### Characters of JSON -/

/-- The quotation mark. -/
def QUOTE : Nat := 34

/-- The backslash. -/
def BACKSLASH : Nat := 92

/-- The comma. -/
def COMMA : Nat := 44

/-- The colon. -/
def COLON : Nat := 58

/-- The brace that opens an object. -/
def LBRACE : Nat := 123

/-- The brace that closes an object. -/
def RBRACE : Nat := 125

/-- The bracket that opens an array. -/
def LBRACKET : Nat := 91

/-- The bracket that closes an array. -/
def RBRACKET : Nat := 93

/-- Whitespace: space, newline, carriage return, tab. -/
def SPACES : Text := [32, 10, 13, 9]

/-! ### The scanner -/

/-- `_KEY` to `_DONE` -/
inductive ScanState
  | key
  | colon
  | name
  | other
  | args
  | done
  deriving DecidableEq, Repr

/-- `_JsonCallScanner` -/
structure JsonCallScanner where
  name : Option Text := none
  state : ScanState := .key
  inKey : Bool := false
  key : Text := []
  buf : Text := []
  depth : Int := 0
  argsDepth : Int := 0
  otherDepth : Int := 0
  inString : Bool := false
  escaped : Bool := false
  deriving DecidableEq, Repr

namespace JsonCallScanner

/-- `_track_string` -/
def trackString (scanner : JsonCallScanner) (char : Nat) : JsonCallScanner :=
  if scanner.escaped then { scanner with escaped := false }
  else if char = BACKSLASH then { scanner with escaped := true }
  else if char = QUOTE then { scanner with inString := false }
  else scanner

/-- `_take_key` -/
def takeKey (scanner : JsonCallScanner) (char : Nat) : JsonCallScanner :=
  if scanner.inKey then
    if char = QUOTE then { scanner with
      key := scanner.buf
      buf := []
      inKey := false
      state := .colon }
    else { scanner with buf := scanner.buf ++ [char] }
  else if char = QUOTE then { scanner with
    inKey := true
    buf := [] }
  else if char = LBRACE then { scanner with depth := scanner.depth + 1 }
  else if char = RBRACE then
    let depth := scanner.depth - 1
    { scanner with
      depth
      state := if depth = 0 then .done else scanner.state }
  else scanner

/-- `_take_colon` -/
def takeColon (scanner : JsonCallScanner) (char : Nat) : JsonCallScanner :=
  if char = COLON then
    if scanner.key = codePoints ['n', 'a', 'm', 'e'] then { scanner with
      state := .name
      inString := false
      escaped := false
      buf := [] }
    else if scanner.key = codePoints ['a', 'r', 'g', 'u', 'm', 'e', 'n', 't', 's'] then { scanner with
      state := .args
      argsDepth := 0
      buf := [] }
    else { scanner with
      state := .other
      otherDepth := 0
      inString := false
      buf := [] }
  else scanner

/-- `_take_name` -/
def takeName (scanner : JsonCallScanner) (char : Nat) : JsonCallScanner :=
  if scanner.inString = false then
    if char = QUOTE then { scanner with inString := true } else scanner
  else if scanner.escaped then { scanner with
    buf := scanner.buf ++ [char]
    escaped := false }
  else if char = BACKSLASH then { scanner with
    buf := scanner.buf ++ [char]
    escaped := true }
  else if char = QUOTE then { scanner with
    name := some scanner.buf
    inString := false
    state := .key }
  else { scanner with buf := scanner.buf ++ [char] }

/-- `_take_other` -/
def takeOther (scanner : JsonCallScanner) (char : Nat) : JsonCallScanner :=
  if scanner.inString then scanner.trackString char
  else if char = QUOTE then { scanner with inString := true }
  else if char = LBRACE ∨ char = LBRACKET then { scanner with otherDepth := scanner.otherDepth + 1 }
  else if char = RBRACE ∨ char = RBRACKET then
    if 0 < scanner.otherDepth then { scanner with otherDepth := scanner.otherDepth - 1 }
    else if char = RBRACE then
      let depth := scanner.depth - 1
      { scanner with
        depth
        state := if depth = 0 then .done else .key }
    else scanner
  else if char = COMMA ∧ scanner.otherDepth = 0 then { scanner with state := .key }
  else scanner

/-- `_take_args`, with the text it emits. -/
def takeArgs (scanner : JsonCallScanner) (char : Nat) : JsonCallScanner × Text :=
  if scanner.argsDepth = 0 ∧ scanner.inString = false ∧ char ∈ SPACES then (scanner, [])
  else if scanner.inString then (scanner.trackString char, [char])
  else if char = QUOTE then ({ scanner with inString := true }, [char])
  else if char = LBRACE ∨ char = LBRACKET then
    ({ scanner with argsDepth := scanner.argsDepth + 1 }, [char])
  else if char = RBRACE ∨ char = RBRACKET then
    let argsDepth := scanner.argsDepth - 1
    ({ scanner with
      argsDepth
      state := if argsDepth = 0 then .key else scanner.state }, [char])
  else (scanner, [char])

/-- `_take` -/
def take (scanner : JsonCallScanner) (char : Nat) : JsonCallScanner × Text :=
  match scanner.state with
  | .args => scanner.takeArgs char
  | .name => (scanner.takeName char, [])
  | .other => (scanner.takeOther char, [])
  | .colon => (scanner.takeColon char, [])
  | _ => (scanner.takeKey char, [])

/-- `feed`: the scanner, the arguments, and how much was consumed. The object is complete once the
state is `done`. -/
def feed (scanner : JsonCallScanner) : Text → JsonCallScanner × Text × Nat
  | [] => (scanner, [], 0)
  | char :: text =>
      if scanner.state = .done then (scanner, [], 0)
      else
        let taken := scanner.take char
        let rest := taken.1.feed text
        (rest.1, taken.2 ++ rest.2.1, rest.2.2 + 1)

end JsonCallScanner

/-! ### The parser -/

/-- `_state` -/
inductive State
  | outside
  | scanning
  | closing
  deriving DecidableEq, Repr

end Qwen

/-- `QwenToolParser`. `scanner` means nothing outside an element. -/
structure QwenToolParser where
  state : Qwen.State := .outside
  held : Text := []
  scanner : Qwen.JsonCallScanner := {}
  index : Int := 0
  announced : Bool := false
  pendingArgs : Text := []
  deriving DecidableEq, Repr

namespace Qwen

/-- What one step leaves: the parser, what it emitted, the text it did not consume, and whether it
waits for more. -/
structure Step where
  parser : QwenToolParser
  out : ToolStream := {}
  text : Text
  blocked : Bool

/-- `_outside` -/
def stepOutside (p : QwenToolParser) (text : Text) : Step :=
  match find QWEN_OPEN text with
  | some k => {
      parser := { p with
        state := .scanning
        scanner := {}
        announced := false
        pendingArgs := [] }
      out := { content := text.take k }
      text := text.drop (k + QWEN_OPEN.length)
      blocked := false }
  | none =>
      let held := partialSuffix text QWEN_OPEN
      { parser := p
        out := { content := text.take (text.length - held.length) }
        text := held
        blocked := !held.isEmpty }

/-- The first half of `_scanning`: the name has come, so the call goes out. -/
def announce (p : QwenToolParser) : QwenToolParser × List ToolCallDelta :=
  match p.announced, p.scanner.name with
  | false, some name =>
      ({ p with
        announced := true
        index := p.index + 1
        pendingArgs := [] },
        { index := p.index, id := some (callId p.index), name := some name } ::
          if p.pendingArgs = [] then [] else [{ index := p.index, arguments := p.pendingArgs }])
  | _, _ => (p, [])

/-- The second half: arguments go out, or wait for the name. -/
def passArgs (p : QwenToolParser) (args : Text) : QwenToolParser × List ToolCallDelta :=
  if args = [] then (p, [])
  else if p.announced then (p, [{ index := p.index - 1, arguments := args }])
  else ({ p with pendingArgs := p.pendingArgs ++ args }, [])

/-- `_scanning` -/
def stepScanning (p : QwenToolParser) (text : Text) : Step :=
  let fed := p.scanner.feed text
  let announced := announce { p with scanner := fed.1 }
  let passed := passArgs announced.1 fed.2.1
  let out : ToolStream := { calls := announced.2 ++ passed.2 }
  if fed.1.state = .done then {
    parser := { passed.1 with state := .closing }
    out
    text := text.drop fed.2.2
    blocked := false }
  else {
    parser := passed.1
    out
    text := []
    blocked := true }

/-- `_closing` -/
def stepClosing (p : QwenToolParser) (text : Text) : Step :=
  match find QWEN_CLOSE text with
  | some k => {
      parser := { p with state := .outside }
      text := text.drop (k + QWEN_CLOSE.length)
      blocked := false }
  | none =>
      let held := partialSuffix text QWEN_CLOSE
      { parser := p
        out := { content := text.take (text.length - held.length) }
        text := held
        blocked := !held.isEmpty }

/-- The step of a section. -/
def step (p : QwenToolParser) (text : Text) : Step :=
  match p.state with
  | .outside => stepOutside p text
  | .scanning => stepScanning p text
  | .closing => stepClosing p text

/-- The loop of `feed`, for this many steps at most. -/
def drive : Nat → QwenToolParser → Text → QwenToolParser × ToolStream
  | 0, p, text => ({ p with held := text }, {})
  | _ + 1, p, [] => (p, {})
  | fuel + 1, p, c :: text =>
      let r := step p (c :: text)
      if r.blocked then ({ r.parser with held := r.text }, r.out)
      else
        let rest := drive fuel r.parser r.text
        (rest.1, r.out ++ rest.2)

/-- `QwenToolParser.feed`. Every step that does not wait consumes something. -/
def feed (p : QwenToolParser) (delta : Text) : QwenToolParser × ToolStream :=
  drive (p.held ++ delta).length { p with held := [] } (p.held ++ delta)

/-- The family `qwen`. -/
def parser : ToolParser QwenToolParser where
  init := {}
  feed := feed
  finish := fun p => { content := p.held }

/-! ### One pass over the characters -/

/-- The section a reader is in: the text outside so far; the object with its arguments, and the name
that was announced; the text behind an object, and what of it was shown. -/
inductive Place
  | outside (text : Text)
  | scanning (scanner : JsonCallScanner) (args : Text) (announced : Option Text)
  | closing (gap shown : Text)

/-- A reader, and what it has of the sections before. -/
structure Reading where
  place : Place := .outside []
  content : Text := []
  calls : List ToolCall := []

/-- A call with a name is the next. -/
def addCall (calls : List ToolCall) (name : Option Text) (args : Text) : List ToolCall :=
  match name with
  | none => calls
  | some name => calls ++ [⟨name, args, callId calls.length⟩]

namespace Reading

/-- One character. -/
def take (r : Reading) (char : Nat) : Reading :=
  match r.place with
  | .outside text =>
      if QWEN_OPEN <:+ text ++ [char] then { r with
        place := .scanning {} [] none
        content := r.content ++ (text ++ [char]).take (text.length + 1 - QWEN_OPEN.length) }
      else { r with place := .outside (text ++ [char]) }
  | .scanning scanner args announced =>
      let taken := scanner.take char
      if taken.1.state = .done then { r with
        place := .closing [] []
        calls := addCall r.calls (announced.or taken.1.name) (args ++ taken.2) }
      else { r with place := .scanning taken.1 (args ++ taken.2) announced }
  | .closing gap shown =>
      if QWEN_CLOSE <:+ gap ++ [char] then { r with
        place := .outside []
        content := r.content ++ shown }
      else { r with place := .closing (gap ++ [char]) shown }

/-- The end of a delta: a known name is announced, and what cannot be the closing tag is shown. -/
def pause (r : Reading) : Reading :=
  match r.place with
  | .outside _ => r
  | .scanning scanner args announced =>
      { r with place := .scanning scanner args (announced.or scanner.name) }
  | .closing gap _ => { r with place := .closing gap (safePart gap QWEN_CLOSE) }

/-- The characters of a text. -/
def takeAll (r : Reading) (text : Text) : Reading := text.foldl take r

/-- Delta by delta. -/
def readAll (r : Reading) (deltas : List Text) : Reading :=
  deltas.foldl (fun r delta => (r.takeAll delta).pause) r

/-- What it comes to if nothing follows. -/
def result (r : Reading) : Text × List ToolCall :=
  match r.place with
  | .outside text => (r.content ++ text, r.calls)
  | .scanning scanner args announced =>
      (r.content, addCall r.calls (announced.or scanner.name) args)
  | .closing gap _ => (r.content ++ gap, r.calls)

variable {r : Reading} {text : Text}

@[simp] theorem takeAll_nil : r.takeAll [] = r := rfl

@[simp] theorem takeAll_cons (c : Nat) : r.takeAll (c :: text) = (r.take c).takeAll text := rfl

theorem takeAll_append (more : Text) : r.takeAll (text ++ more) = (r.takeAll text).takeAll more :=
  List.foldl_append

/-! ### Whole sections -/

/-- Outside, up to the first opening tag. -/
theorem takeAll_outside_some {content : Text} {calls : List ToolCall} : ∀ {more before : Text} {k : Nat},
    find QWEN_OPEN before = none → find QWEN_OPEN (before ++ more) = some k →
    takeAll ⟨.outside before, content, calls⟩ more =
      takeAll ⟨.scanning {} [] none, content ++ (before ++ more).take k, calls⟩
        ((before ++ more).drop (k + QWEN_OPEN.length))
  | [], before, k, hnone, hsome => by
      rw [List.append_nil, hnone] at hsome
      cases hsome
  | c :: more, before, k, hnone, hsome => by
      have happ : before ++ c :: more = before ++ [c] ++ more := by
        rw [List.append_assoc, List.singleton_append]
      rw [happ] at hsome ⊢
      rw [takeAll_cons]
      by_cases hsuf : QWEN_OPEN <:+ before ++ [c]
      · have hfound := find_concat_of_suffix hnone hsuf
        have hle := find_le hfound
        have hlen := hsuf.length_le
        rw [find_append_of_some hfound more] at hsome
        obtain rfl := Option.some.inj hsome
        rw [List.length_append, List.length_singleton] at hle hlen
        rw [List.take_append_of_le_length (by rw [List.length_append, List.length_singleton]; omega),
          Nat.sub_add_cancel hlen, List.drop_left' (by rw [List.length_append, List.length_singleton])]
        simp only [take, if_pos hsuf]
      · have hstep : take ⟨.outside before, content, calls⟩ c = ⟨.outside (before ++ [c]), content, calls⟩ := by
          simp only [take, if_neg hsuf]
        rw [hstep]
        exact takeAll_outside_some (find_concat_of_not_suffix hnone hsuf) hsome

/-- Outside, without an opening tag. -/
theorem takeAll_outside_none {content : Text} {calls : List ToolCall} : ∀ {more before : Text},
    find QWEN_OPEN (before ++ more) = none →
    takeAll ⟨.outside before, content, calls⟩ more = ⟨.outside (before ++ more), content, calls⟩
  | [], before, _ => by rw [List.append_nil, takeAll_nil]
  | c :: more, before, hnone => by
      have happ : before ++ c :: more = before ++ [c] ++ more := by
        rw [List.append_assoc, List.singleton_append]
      rw [happ] at hnone ⊢
      have hsuf : ¬ QWEN_OPEN <:+ before ++ [c] := fun h =>
        find_eq_none_iff.mp (find_none_of_append hnone) h.isInfix
      have hstep : take ⟨.outside before, content, calls⟩ c = ⟨.outside (before ++ [c]), content, calls⟩ := by
        simp only [take, if_neg hsuf]
      rw [takeAll_cons, hstep]
      exact takeAll_outside_none hnone

/-- Behind an object, up to the first closing tag. -/
theorem takeAll_closing_some {content shown : Text} {calls : List ToolCall} :
    ∀ {more gap : Text} {k : Nat}, find QWEN_CLOSE gap = none →
    find QWEN_CLOSE (gap ++ more) = some k →
    takeAll ⟨.closing gap shown, content, calls⟩ more =
      takeAll ⟨.outside [], content ++ shown, calls⟩ ((gap ++ more).drop (k + QWEN_CLOSE.length))
  | [], gap, k, hnone, hsome => by
      rw [List.append_nil, hnone] at hsome
      cases hsome
  | c :: more, gap, k, hnone, hsome => by
      have happ : gap ++ c :: more = gap ++ [c] ++ more := by
        rw [List.append_assoc, List.singleton_append]
      rw [happ] at hsome ⊢
      rw [takeAll_cons]
      by_cases hsuf : QWEN_CLOSE <:+ gap ++ [c]
      · have hfound := find_concat_of_suffix hnone hsuf
        have hlen := hsuf.length_le
        rw [find_append_of_some hfound more] at hsome
        obtain rfl := Option.some.inj hsome
        rw [List.length_append, List.length_singleton] at hlen
        rw [Nat.sub_add_cancel hlen,
          List.drop_left' (by rw [List.length_append, List.length_singleton])]
        simp only [take, if_pos hsuf]
      · have hstep : take ⟨.closing gap shown, content, calls⟩ c =
            ⟨.closing (gap ++ [c]) shown, content, calls⟩ := by
          simp only [take, if_neg hsuf]
        rw [hstep]
        exact takeAll_closing_some (find_concat_of_not_suffix hnone hsuf) hsome

/-- Behind an object, without a closing tag. -/
theorem takeAll_closing_none {content shown : Text} {calls : List ToolCall} : ∀ {more gap : Text},
    find QWEN_CLOSE (gap ++ more) = none →
    takeAll ⟨.closing gap shown, content, calls⟩ more = ⟨.closing (gap ++ more) shown, content, calls⟩
  | [], gap, _ => by rw [List.append_nil, takeAll_nil]
  | c :: more, gap, hnone => by
      have happ : gap ++ c :: more = gap ++ [c] ++ more := by
        rw [List.append_assoc, List.singleton_append]
      rw [happ] at hnone ⊢
      have hsuf : ¬ QWEN_CLOSE <:+ gap ++ [c] := fun h =>
        find_eq_none_iff.mp (find_none_of_append hnone) h.isInfix
      have hstep : take ⟨.closing gap shown, content, calls⟩ c =
          ⟨.closing (gap ++ [c]) shown, content, calls⟩ := by
        simp only [take, if_neg hsuf]
      rw [takeAll_cons, hstep]
      exact takeAll_closing_none hnone

/-- In an element, up to the end of its object. -/
theorem takeAll_scanning {content : Text} {calls : List ToolCall} {announced : Option Text} :
    ∀ {text args : Text} {scanner : JsonCallScanner}, scanner.state ≠ .done →
    takeAll ⟨.scanning scanner args announced, content, calls⟩ text =
      if (scanner.feed text).1.state = .done then
        takeAll ⟨.closing [] [], content, addCall calls (announced.or (scanner.feed text).1.name)
          (args ++ (scanner.feed text).2.1)⟩ (text.drop (scanner.feed text).2.2)
      else ⟨.scanning (scanner.feed text).1 (args ++ (scanner.feed text).2.1) announced, content, calls⟩
  | [], args, scanner, hdone => by
      simp only [JsonCallScanner.feed, if_neg hdone, List.append_nil, takeAll_nil]
  | c :: text, args, scanner, hdone => by
      rw [takeAll_cons]
      simp only [JsonCallScanner.feed, if_neg hdone]
      by_cases hnext : (scanner.take c).1.state = .done
      · have hfeed : (scanner.take c).1.feed text = ((scanner.take c).1, [], 0) := by
          cases text with
          | nil => rfl
          | cons d text => simp only [JsonCallScanner.feed, if_pos hnext]
        simp only [hfeed, hnext, if_true, List.append_nil, Nat.zero_add, List.drop_succ_cons,
          List.drop_zero, take]
      · have hstep : take ⟨.scanning scanner args announced, content, calls⟩ c =
            ⟨.scanning (scanner.take c).1 (args ++ (scanner.take c).2) announced, content, calls⟩ := by
          simp only [take, if_neg hnext]
        rw [hstep, takeAll_scanning hnext]
        simp only [List.append_assoc, List.drop_succ_cons]

end Reading

/-! ### The parser reads so -/

/-- Calls under their indices. -/
def indexed (calls : List ToolCall) : List (Int × ToolCall) :=
  calls.mapIdx fun index call => ((index : Int), call)

theorem indexed_concat (calls : List ToolCall) (call : ToolCall) :
    indexed (calls ++ [call]) = indexed calls ++ [((calls.length : Int), call)] :=
  List.mapIdx_concat

theorem indexed_ne {calls : List ToolCall} {entry : Int × ToolCall} (h : entry ∈ indexed calls) :
    entry.1 ≠ calls.length := by
  obtain ⟨index, hlt, rfl⟩ := List.mem_mapIdx.mp h
  exact fun heq => absurd (Int.ofNat.inj heq) hlt.ne

theorem indexed_snd (calls : List ToolCall) : (indexed calls).map Prod.snd = calls := by
  refine List.ext_getElem ?_ fun index _ _ => ?_
  · rw [indexed, List.length_map, List.length_mapIdx]
  · simp only [indexed, List.getElem_map, List.getElem_mapIdx]

/-- A delta with a name opens the next call. -/
theorem mergeDelta_open (calls : List ToolCall) (name arguments id : Text) :
    mergeDelta (indexed calls)
        { index := calls.length, arguments, id := some id, name := some name } =
      indexed (calls ++ [⟨name, arguments, id⟩]) := by
  have hnew : ¬ (indexed calls).any (fun entry => entry.1 == (calls.length : Int)) = true := by
    intro hany
    obtain ⟨entry, hentry, heq⟩ := List.any_eq_true.mp hany
    exact indexed_ne hentry (eq_of_beq heq)
  rw [indexed_concat]
  unfold mergeDelta
  rw [if_neg hnew]
  rfl

/-- A bare delta goes to the last. -/
theorem mergeDelta_last (calls : List ToolCall) (call : ToolCall) (arguments : Text) :
    mergeDelta (indexed (calls ++ [call])) { index := calls.length, arguments } =
      indexed (calls ++ [{ call with arguments := call.arguments ++ arguments }]) := by
  have hany : (indexed (calls ++ [call])).any (fun entry => entry.1 == (calls.length : Int)) = true := by
    rw [indexed_concat]
    exact List.any_eq_true.mpr
      ⟨_, List.mem_append_right _ (List.mem_singleton_self _), beq_self_eq_true _⟩
  unfold mergeDelta
  rw [if_pos hany, indexed_concat, indexed_concat, List.map_append]
  congr 1
  · exact (List.map_congr_left fun entry hentry => if_neg (indexed_ne hentry)).trans (List.map_id _)
  · simp only [List.map_cons, List.map_nil, if_true]

/-- What the parser holds of a section. -/
def Place.held : Place → Text
  | outside text => partialSuffix text QWEN_OPEN
  | scanning _ _ _ => []
  | closing gap _ => partialSuffix gap QWEN_CLOSE

/-- What it has emitted of it. -/
def Place.emitted : Place → Text
  | outside text => safePart text QWEN_OPEN
  | scanning _ _ _ => []
  | closing _ shown => shown

/-- The calls, and the one that was announced. -/
def Reading.openCalls (r : Reading) : List ToolCall :=
  match r.place with
  | .scanning _ args announced => addCall r.calls announced args
  | _ => r.calls

/-- The parser is in this section, and nothing is left to announce or to show. -/
def At (p : QwenToolParser) : Place → Prop
  | .outside text => p.state = .outside ∧ find QWEN_OPEN text = none
  | .scanning scanner args announced => p.state = .scanning ∧ p.scanner = scanner ∧
      scanner.state ≠ .done ∧ p.announced = announced.isSome ∧
      (announced = none → scanner.name = none ∧ p.pendingArgs = args)
  | .closing gap shown => p.state = .closing ∧ find QWEN_CLOSE gap = none ∧
      shown = safePart gap QWEN_CLOSE

/-- The parser, with what it has emitted, is where the reader is. -/
structure Reads (r : Reading) (p : QwenToolParser) (out : ToolStream) : Prop where
  place : At p r.place
  content : out.content = r.content ++ r.place.emitted
  calls : out.calls.foldl mergeDelta [] = indexed r.openCalls
  index : p.index = r.openCalls.length

variable {p : QwenToolParser} {out : ToolStream} {r : Reading} {text : Text}

theorem Reads.init : Reads {} parser.init {} where
  place := ⟨rfl, rfl⟩
  content := rfl
  calls := rfl
  index := rfl

theorem Reads.pause_eq (h : Reads r p out) : r.pause = r := by
  obtain ⟨place, content, calls⟩ := r
  have hplace := h.place
  cases place with
  | outside text => rfl
  | scanning scanner args announced =>
    have hname : announced.or scanner.name = announced := by
      cases announced with
      | none => rw [Option.none_or, (hplace.2.2.2.2 rfl).1]
      | some name => rfl
    simp only [Reading.pause, hname]
  | closing gap shown => simp only [Reading.pause, ← hplace.2.2]

/-- Where the text is held does not matter. -/
theorem Reads.hold (h : Reads r p out) (held : Text) : Reads r { p with held } out := by
  refine ⟨?_, h.content, h.calls, h.index⟩
  have hplace := h.place
  cases hr : r.place with
  | outside text => exact hr ▸ hplace
  | scanning scanner args announced => exact hr ▸ hplace
  | closing gap shown => exact hr ▸ hplace

theorem unheld (hheld : p.held = []) : { p with held := [] } = p := by rw [← hheld]

theorem drive_nil {fuel : Nat} (hheld : p.held = []) : drive fuel p [] = (p, {}) := by
  cases fuel with
  | zero => exact congrArg (fun p => (p, ({} : ToolStream))) (unheld hheld)
  | succ fuel => rfl

/-- A step that waits ends the loop. -/
theorem drive_of_blocked {fuel : Nat} (htext : text ≠ []) (hb : (step p text).blocked = true) :
    drive (fuel + 1) p text = ({ (step p text).parser with held := (step p text).text },
      (step p text).out) := by
  cases text with
  | nil => exact absurd rfl htext
  | cons c text => simp only [drive, hb, if_true]

/-- Any other goes on. -/
theorem drive_step {fuel : Nat} (htext : text ≠ []) (hb : (step p text).blocked = false) :
    drive (fuel + 1) p text = ((drive fuel (step p text).parser (step p text).text).1,
      (step p text).out ++ (drive fuel (step p text).parser (step p text).text).2) := by
  cases text with
  | nil => exact absurd rfl htext
  | cons c text => simp only [drive, hb, Bool.false_eq_true, if_false]

/-- A step without a tag holds what may become one, and ends the loop. -/
theorem drive_held {fuel : Nat} {tag : Text} (htext : text ≠ []) (hheld : p.held = [])
    (hstep : step p text = ⟨p, { content := safePart text tag }, partialSuffix text tag,
      !(partialSuffix text tag).isEmpty⟩) :
    drive (fuel + 1) p text =
      ({ p with held := partialSuffix text tag }, { content := safePart text tag }) := by
  cases hb : (partialSuffix text tag).isEmpty with
  | false =>
    rw [drive_of_blocked htext (by rw [hstep, hb]; rfl), hstep]
  | true =>
    have hnil := List.isEmpty_iff.mp hb
    rw [drive_step htext (by rw [hstep, hb]; rfl), hstep, hnil, drive_nil hheld, unheld hheld]
    exact congrArg (Prod.mk p) (ToolStream.append_empty _)

/-- Arguments go to the last call. -/
theorem foldl_args (calls : List ToolCall) (call : ToolCall) (args : Text) :
    (if args = [] then [] else [({ index := calls.length, arguments := args } : ToolCallDelta)]).foldl
        mergeDelta (indexed (calls ++ [call])) =
      indexed (calls ++ [{ call with arguments := call.arguments ++ args }]) := by
  by_cases hargs : args = []
  · rw [if_pos hargs, hargs, List.append_nil]
    rfl
  · rw [if_neg hargs]
    exact mergeDelta_last calls call args

theorem passArgs_open (h : p.announced = true) (args : Text) : passArgs p args =
    (p, if args = [] then [] else [{ index := p.index - 1, arguments := args }]) := by
  unfold passArgs
  rw [h]
  split <;> rfl

theorem passArgs_waiting (h : p.announced = false) (args : Text) :
    passArgs p args = ({ p with pendingArgs := p.pendingArgs ++ args }, []) := by
  unfold passArgs
  by_cases hargs : args = []
  · rw [if_pos hargs, hargs, List.append_nil]
  · rw [if_neg hargs, if_neg (by rw [h]; exact Bool.false_ne_true)]

theorem announce_open (h : p.announced = true) : announce p = (p, []) := by
  unfold announce
  rw [h]

theorem announce_waiting (h : p.scanner.name = none) : announce p = (p, []) := by
  unfold announce
  rw [h]
  cases p.announced <;> rfl

theorem announce_name {name : Text} (hclosed : p.announced = false) (h : p.scanner.name = some name) :
    announce p = ({ p with
        announced := true
        index := p.index + 1
        pendingArgs := [] },
      { index := p.index, id := some (callId p.index), name := some name } ::
        if p.pendingArgs = [] then [] else [{ index := p.index, arguments := p.pendingArgs }]) := by
  unfold announce
  rw [hclosed, h]

/-- What the two halves of `_scanning` leave: these calls, and this parser. -/
structure Scanned (p p' : QwenToolParser) (deltas : List ToolCallDelta) (next : JsonCallScanner)
    (announced : Option Text) (args : Text) (calls before : List ToolCall) : Prop where
  merged : deltas.foldl mergeDelta (indexed before) = indexed (addCall calls announced args)
  index : p'.index = (addCall calls announced args).length
  flag : p'.announced = announced.isSome
  pending : announced = none → p'.pendingArgs = args
  scanner : p'.scanner = next
  held : p'.held = p.held
  state : p'.state = p.state

/-- **An element.** What is emitted once a name is known is the call with all the arguments so
far. -/
theorem scanned {scanner next : JsonCallScanner} {args new content : Text} {announced : Option Text}
    {calls : List ToolCall} (h : Reads ⟨.scanning scanner args announced, content, calls⟩ p out) :
    Scanned p (passArgs (announce { p with scanner := next }).1 new).1
      ((announce { p with scanner := next }).2 ++
        (passArgs (announce { p with scanner := next }).1 new).2)
      next (announced.or next.name) (args ++ new) calls (addCall calls announced args) := by
  obtain ⟨_, _, _, hannounced, hnone⟩ := h.place
  have hindex := h.index
  cases announced with
  | some name =>
    -- the call is open, and takes the arguments
    have hopen : ({ p with scanner := next } : QwenToolParser).announced = true := hannounced
    rw [announce_open hopen, passArgs_open hopen]
    have hlen : (addCall calls (some name) (args ++ new)).length =
        (addCall calls (some name) args).length := by simp only [addCall, List.length_append, List.length_singleton]
    have hlast : p.index - 1 = (calls.length : Int) := by
      rw [hindex]
      simp only [Reading.openCalls, addCall, List.length_append, List.length_singleton]
      omega
    refine ⟨?_, hindex.trans (by rw [Option.some_or, hlen]; rfl), hannounced, fun heq => ?_, rfl, rfl, rfl⟩
    · rw [hlast]
      exact foldl_args calls _ new
    · exact absurd heq (Option.some_ne_none _)
  | none =>
    have hclosed : ({ p with scanner := next } : QwenToolParser).announced = false := hannounced
    have hpending := (hnone rfl).2
    have hindex : p.index = (calls.length : Int) := hindex
    rw [Option.none_or]
    cases hname : next.name with
    | none =>
      -- there is no name yet, so the arguments wait
      rw [announce_waiting hname, passArgs_waiting hclosed]
      exact ⟨rfl, hindex, hannounced, fun _ => congrArg (· ++ new) hpending, rfl, rfl, rfl⟩
    | some name =>
      -- the name has come: the call, what waited for it, and the arguments
      rw [announce_name hclosed hname, passArgs_open rfl]
      have hlast : (calls.length : Int) + 1 - 1 = calls.length := by omega
      refine ⟨?_, ?_, rfl, fun heq => absurd heq (Option.some_ne_none _), rfl, rfl, rfl⟩
      · dsimp only
        rw [hindex, hpending, hlast, List.cons_append, List.foldl_cons, List.foldl_append]
        have hfirst := mergeDelta_open calls name [] (callId calls.length)
        show List.foldl mergeDelta (List.foldl mergeDelta (mergeDelta (indexed calls) _) _) _ = _
        rw [hfirst, foldl_args, foldl_args]
        rfl
      · show p.index + 1 = _
        rw [hindex, addCall, List.length_append, List.length_singleton, Int.natCast_add,
          Int.natCast_one]

theorem feed_consumes {scanner : JsonCallScanner} (hdone : scanner.state ≠ .done) (htext : text ≠ []) :
    0 < (scanner.feed text).2.2 := by
  cases text with
  | nil => exact absurd rfl htext
  | cons c text =>
    rw [JsonCallScanner.feed, if_neg hdone]
    exact Nat.succ_pos _

/-- The step of an element. -/
theorem step_scanning {scanner : JsonCallScanner} {args content : Text} {announced : Option Text}
    {calls : List ToolCall} (h : Reads ⟨.scanning scanner args announced, content, calls⟩ p out)
    (text : Text) : ∃ p' deltas,
      Scanned p p' deltas (scanner.feed text).1 (announced.or (scanner.feed text).1.name)
        (args ++ (scanner.feed text).2.1) calls (addCall calls announced args) ∧
      step p text =
        if (scanner.feed text).1.state = .done then
          ⟨{ p' with state := .closing }, { calls := deltas }, text.drop (scanner.feed text).2.2, false⟩
        else ⟨p', { calls := deltas }, [], true⟩ := by
  obtain ⟨hstate, hscanner, _⟩ := h.place
  refine ⟨_, _, scanned h, ?_⟩
  simp only [step, hstate, stepScanning, hscanner]

/-- Where the loop ends, with what is held. -/
def Ends (r : Reading) (out : ToolStream) (fed : QwenToolParser × ToolStream) : Prop :=
  Reads r fed.1 (out ++ fed.2) ∧ fed.1.held = r.place.held

/-- A step that does not wait, and the rest of the loop. -/
theorem Ends.of_step {fuel : Nat} (htext : text ≠ []) (hb : (step p text).blocked = false)
    (h : Ends r (out ++ (step p text).out) (drive fuel (step p text).parser (step p text).text)) :
    Ends r out (drive (fuel + 1) p text) := by
  rw [drive_step htext hb]
  exact ⟨ToolStream.append_assoc .. ▸ h.1, h.2⟩

/-- Without an opening tag the loop passes on what cannot become one. -/
theorem ends_outside {before rest content : Text} {calls : List ToolCall} {fuel : Nat}
    (h : Reads ⟨.outside before, content, calls⟩ p out) (hheld : p.held = [])
    (htext : partialSuffix before QWEN_OPEN ++ rest ≠ [])
    (hnone : find QWEN_OPEN (partialSuffix before QWEN_OPEN ++ rest) = none) :
    Ends (Reading.takeAll ⟨.outside before, content, calls⟩ rest).pause out
      (drive (fuel + 1) p (partialSuffix before QWEN_OPEN ++ rest)) := by
  obtain ⟨hstate, hbefore⟩ := h.place
  have hall := find_append hbefore rest
  rw [hnone, Option.map_none] at hall
  have hstep : step p (partialSuffix before QWEN_OPEN ++ rest) =
      ⟨p, { content := safePart (partialSuffix before QWEN_OPEN ++ rest) QWEN_OPEN },
        partialSuffix (partialSuffix before QWEN_OPEN ++ rest) QWEN_OPEN,
        !(partialSuffix (partialSuffix before QWEN_OPEN ++ rest) QWEN_OPEN).isEmpty⟩ := by
    simp only [step, hstate, stepOutside, hnone, safePart]
  rw [drive_held htext hheld hstep, Reading.takeAll_outside_none hall]
  refine ⟨⟨⟨hstate, hall⟩, ?_, (congrArg (List.foldl mergeDelta []) (List.append_nil _)).trans h.calls,
    h.index⟩, ?_⟩
  · show out.content ++ _ = content ++ safePart (before ++ rest) QWEN_OPEN
    rw [safePart_append_more hbefore, ← List.append_assoc, h.content]
    rfl
  · exact (partialSuffix_append hbefore rest).symm

/-- Without a closing tag likewise. -/
theorem ends_closing {gap shown rest content : Text} {calls : List ToolCall} {fuel : Nat}
    (h : Reads ⟨.closing gap shown, content, calls⟩ p out) (hheld : p.held = [])
    (htext : partialSuffix gap QWEN_CLOSE ++ rest ≠ [])
    (hnone : find QWEN_CLOSE (partialSuffix gap QWEN_CLOSE ++ rest) = none) :
    Ends (Reading.takeAll ⟨.closing gap shown, content, calls⟩ rest).pause out
      (drive (fuel + 1) p (partialSuffix gap QWEN_CLOSE ++ rest)) := by
  obtain ⟨hstate, hgap, hshown⟩ := h.place
  have hall := find_append hgap rest
  rw [hnone, Option.map_none] at hall
  have hstep : step p (partialSuffix gap QWEN_CLOSE ++ rest) =
      ⟨p, { content := safePart (partialSuffix gap QWEN_CLOSE ++ rest) QWEN_CLOSE },
        partialSuffix (partialSuffix gap QWEN_CLOSE ++ rest) QWEN_CLOSE,
        !(partialSuffix (partialSuffix gap QWEN_CLOSE ++ rest) QWEN_CLOSE).isEmpty⟩ := by
    simp only [step, hstate, stepClosing, hnone, safePart]
  rw [drive_held htext hheld hstep, Reading.takeAll_closing_none hall]
  refine ⟨⟨⟨hstate, hall, rfl⟩, ?_, (congrArg (List.foldl mergeDelta []) (List.append_nil _)).trans h.calls,
    h.index⟩, ?_⟩
  · show out.content ++ _ = content ++ safePart (gap ++ rest) QWEN_CLOSE
    rw [safePart_append_more hgap, ← List.append_assoc, h.content, ← hshown]
    rfl
  · exact (partialSuffix_append hgap rest).symm

/-- There is nothing to read. -/
theorem ends_nil {rest : Text} {fuel : Nat} (h : Reads r p out) (hheld : p.held = [])
    (hnil : r.place.held ++ rest = []) :
    Ends (r.takeAll rest).pause out (drive fuel p (r.place.held ++ rest)) := by
  obtain ⟨hnone, rfl⟩ := List.append_eq_nil_iff.mp hnil
  rw [hnil, drive_nil hheld, Reading.takeAll_nil, h.pause_eq]
  exact ⟨(ToolStream.append_empty out).symm ▸ h, hheld.trans hnone.symm⟩

/-- **The loop.** From where the reader is, the loop reads what the reader takes. -/
theorem drive_reads {fuel : Nat} {rest : Text} (hfuel : (r.place.held ++ rest).length ≤ fuel)
    (hheld : p.held = []) (h : Reads r p out) :
    Ends (r.takeAll rest).pause out (drive fuel p (r.place.held ++ rest)) := by
  induction fuel generalizing p out r rest with
  | zero => exact ends_nil h hheld (List.length_eq_zero_iff.mp (Nat.le_zero.mp hfuel))
  | succ fuel ih =>
    by_cases htext : r.place.held ++ rest = []
    · exact ends_nil h hheld htext
    obtain ⟨place, content, calls⟩ := r
    have hcontent := h.content
    have hpos := List.length_pos_iff.mpr htext
    cases place with
    | outside before =>
      obtain ⟨hstate, hbefore⟩ := h.place
      dsimp only [Place.held] at hfuel htext hpos ⊢
      cases hfind : find QWEN_OPEN (partialSuffix before QWEN_OPEN ++ rest) with
      | none => exact ends_outside h hheld htext hfind
      | some k =>
        have hstep : step p (partialSuffix before QWEN_OPEN ++ rest) = ⟨{ p with
              state := .scanning
              scanner := {}
              announced := false
              pendingArgs := [] },
            { content := (partialSuffix before QWEN_OPEN ++ rest).take k },
            (partialSuffix before QWEN_OPEN ++ rest).drop (k + QWEN_OPEN.length), false⟩ := by
          simp only [step, hstate, stepOutside, hfind]
        have hall := find_append hbefore rest
        rw [hfind, Option.map_some] at hall
        rw [Reading.takeAll_outside_some hbefore hall, Nat.add_assoc, drop_safePart,
          take_safePart]
        refine .of_step htext (by rw [hstep]) ?_
        rw [hstep]
        refine ih ?_ hheld ⟨⟨rfl, rfl, ScanState.noConfusion, rfl, fun _ => ⟨rfl, rfl⟩⟩, ?_,
          (congrArg (List.foldl mergeDelta []) (List.append_nil _)).trans h.calls, h.index⟩
        · show (List.drop _ _).length ≤ fuel
          have htag : 0 < QWEN_OPEN.length := by decide
          rw [List.length_drop]
          omega
        · show out.content ++ _ = _ ++ []
          rw [hcontent, List.append_nil, List.append_assoc]
          rfl
    | scanning scanner args announced =>
      obtain ⟨hstate, _, hdone, _⟩ := h.place
      obtain ⟨p', deltas, hscanned, hstep⟩ := step_scanning h rest
      dsimp only [Place.held, List.nil_append] at hfuel htext hpos ⊢
      have hmerged : (out.calls ++ deltas).foldl mergeDelta [] =
          indexed (addCall calls (announced.or (scanner.feed rest).1.name)
            (args ++ (scanner.feed rest).2.1)) := by
        rw [List.foldl_append, h.calls]
        exact hscanned.merged
      rw [Reading.takeAll_scanning hdone]
      by_cases hcomplete : (scanner.feed rest).1.state = .done
      · rw [if_pos hcomplete] at hstep ⊢
        refine .of_step htext (by rw [hstep]) ?_
        rw [hstep]
        refine ih ?_ (hscanned.held.trans hheld) ⟨⟨rfl, rfl, rfl⟩, ?_, hmerged, hscanned.index⟩
        · show (List.drop _ _).length ≤ fuel
          have hconsumed := feed_consumes hdone htext
          rw [List.length_drop]
          omega
        · show out.content ++ [] = content ++ []
          rw [List.append_nil]
          exact hcontent
      · rw [if_neg hcomplete] at hstep ⊢
        rw [drive_of_blocked htext (by rw [hstep]), hstep]
        refine ⟨⟨⟨hscanned.state.trans hstate, hscanned.scanner, hcomplete, hscanned.flag,
          fun hnone => ⟨(Option.or_eq_none_iff.mp hnone).2, hscanned.pending hnone⟩⟩, ?_, hmerged,
          hscanned.index⟩, rfl⟩
        show out.content ++ [] = content ++ []
        rw [List.append_nil]
        exact hcontent
    | closing gap shown =>
      obtain ⟨hstate, hgap, hshown⟩ := h.place
      dsimp only [Place.held] at hfuel htext hpos ⊢
      cases hfind : find QWEN_CLOSE (partialSuffix gap QWEN_CLOSE ++ rest) with
      | none => exact ends_closing h hheld htext hfind
      | some k =>
        have hstep : step p (partialSuffix gap QWEN_CLOSE ++ rest) = ⟨{ p with
              state := .outside }, {},
            (partialSuffix gap QWEN_CLOSE ++ rest).drop (k + QWEN_CLOSE.length), false⟩ := by
          simp only [step, hstate, stepClosing, hfind]
        have hall := find_append hgap rest
        rw [hfind, Option.map_some] at hall
        rw [Reading.takeAll_closing_some hgap hall, Nat.add_assoc, drop_safePart]
        refine .of_step htext (by rw [hstep]) ?_
        rw [hstep, ToolStream.append_empty]
        refine ih ?_ hheld ⟨⟨rfl, rfl⟩, ?_, h.calls, h.index⟩
        · show (List.drop _ _).length ≤ fuel
          have htag : 0 < QWEN_CLOSE.length := by decide
          rw [List.length_drop]
          omega
        · show out.content = content ++ shown ++ []
          rw [hcontent, List.append_nil]
          rfl

/-- One delta. -/
theorem feed_reads (h : Reads r p out) (hheld : p.held = r.place.held) (delta : Text) :
    Ends (r.takeAll delta).pause out (feed p delta) := by
  unfold feed
  rw [hheld]
  exact drive_reads le_rfl rfl (h.hold [])

/-- All deltas. -/
theorem feedAll_reads (h : Reads r p out) (hheld : p.held = r.place.held) (deltas : List Text) :
    Ends (r.readAll deltas) out (parser.feedAll p deltas) := by
  induction deltas generalizing p out r with
  | nil => exact ⟨(ToolStream.append_empty out).symm ▸ h, hheld⟩
  | cons delta deltas ih =>
    have hone := feed_reads h hheld delta
    have hrest := ih hone.1 hone.2
    exact ⟨ToolStream.append_assoc .. ▸ hrest.1, hrest.2⟩

/-- What the parser comes to is what the reader comes to. -/
theorem Reads.result (h : Reads r p out) (hheld : p.held = r.place.held) :
    ((out ++ parser.finish p).content, merge (out ++ parser.finish p).calls) = r.result := by
  have hcalls : merge (out ++ parser.finish p).calls = r.openCalls := by
    show merge (out.calls ++ []) = _
    rw [List.append_nil, merge, h.calls, indexed_snd]
  have hcontent : (out ++ parser.finish p).content = r.content ++ (r.place.emitted ++ r.place.held) := by
    show out.content ++ p.held = _
    rw [h.content, hheld, List.append_assoc]
  rw [hcalls, hcontent]
  obtain ⟨place, content, calls⟩ := r
  have hplace := h.place
  cases place with
  | outside text =>
    show (content ++ (safePart text QWEN_OPEN ++ partialSuffix text QWEN_OPEN), calls) = _
    rw [safePart_append]
    rfl
  | scanning scanner args announced =>
    have hname : announced.or scanner.name = announced := by
      cases announced with
      | none => rw [Option.none_or, (hplace.2.2.2.2 rfl).1]
      | some name => rfl
    show (content ++ [], addCall calls announced args) = (content, addCall calls _ args)
    rw [hname, List.append_nil]
  | closing gap shown =>
    show (content ++ (shown ++ partialSuffix gap QWEN_CLOSE), calls) = _
    rw [hplace.2.2, safePart_append]
    rfl

/-- **The stream is the reading.** -/
theorem stream_eq_result (deltas : List Text) :
    parser.stream deltas = (Reading.readAll {} deltas).result := by
  obtain ⟨hreads, hheld⟩ := feedAll_reads Reads.init rfl deltas
  exact hreads.result hheld

/-- So is what `parse` returns, in one piece. -/
theorem parse_eq_result (text : Text) : parser.parse text = (Reading.readAll {} [text]).result := by
  have hfed := (feedAll_reads Reads.init rfl [text]).1.result (feedAll_reads Reads.init rfl [text]).2
  rw [← hfed]
  show _ = ((({} ++ (_ ++ {}) : ToolStream) ++ _).content, merge (({} ++ (_ ++ {}) : ToolStream) ++ _).calls)
  rw [ToolStream.empty_append, ToolStream.append_empty]
  rfl

end Qwen

end RapidLlm
