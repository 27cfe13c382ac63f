import Mathlib.Data.List.TakeWhile
import RapidLlm.Engine.QwenChunking
import RapidLlm.Lib.JsonText

/-!
# RapidLlm.Engine.JsonCallScanner

`_JsonCallScanner` of `engine/tool_parser.py` against the grammar of JSON, over any split of the
text into feeds.

* `ToolCallText` is an object with one member that spells `name`, its value a string, and one that
  spells `arguments`. `Scans` is what the scanner owes of it.
* `Reads` is a text that is read without the object being complete before its end; one lemma for
  each thing that is read, in the state it is read in (`At`).
* `scans_iff`: where no key has a colon behind an escaped quote, the scanner does what it owes if
  and only if the two keys are written without escapes and the arguments are an object or an array.
-/

namespace RapidLlm

namespace Qwen

open JsonText

/-- The key the scanner takes the name from. -/
def NAME : Text := codePoints ['n', 'a', 'm', 'e']

/-- The key the scanner takes the arguments from. -/
def ARGUMENTS : Text := codePoints ['a', 'r', 'g', 'u', 'm', 'e', 'n', 't', 's']

/-! ### Objects -/

/-- A member of an object, with the whitespace around its parts. -/
structure Member where
  lead : Text
  key : List Piece
  mid : Text
  trail : Text
  value : Text
  after : Text
  spaces : Spaces lead ∧ Spaces mid ∧ Spaces trail ∧ Spaces after
  isValue : Json .value value

/-- A member as it is written, up to its colon and from there on. -/
def Member.front (m : Member) : Text := m.lead ++ (quoted m.key ++ (m.mid ++ [colon]))

def Member.text (m : Member) : Text := m.front ++ (m.trail ++ (m.value ++ m.after))

/-- `m` is the only member whose key spells `word`. -/
def Only (members : List Member) (word : Text) (m : Member) : Prop :=
  (members.filter fun m => decide (valueOf m.key = word)) = [m]

/-- The text of a call: an object with a name and arguments among its members. -/
structure ToolCallText where
  init : List Member
  last : Member
  nameMember : Member
  name : List Piece
  argsMember : Member
  only_name : Only (init ++ [last]) NAME nameMember
  name_value : nameMember.value = quoted name
  only_args : Only (init ++ [last]) ARGUMENTS argsMember

namespace ToolCallText

def text (call : ToolCallText) : Text :=
  lbrace :: ((call.init.flatMap fun m => m.text ++ [comma]) ++ (call.last.text ++ [rbrace]))

/-- The scanner fed some deltas: what it is then, the arguments it emitted, and what it consumed. -/
def feedAll (scanner : JsonCallScanner) : List Text → JsonCallScanner × Text × Nat
  | [] => (scanner, [], 0)
  | delta :: deltas =>
      let fed := scanner.feed delta
      let rest := feedAll fed.1 deltas
      (rest.1, fed.2.1 ++ rest.2.1, fed.2.2 + rest.2.2)

/-- What the scanner owes: however the text and what follows it are split, the object is complete
with its last character and nothing behind it is consumed, and the name and the arguments are those
of the text, as they are written. -/
def Scans (call : ToolCallText) : Prop :=
  (∀ (deltas : List Text) (rest : Text), deltas.flatten = call.text ++ rest →
    (feedAll {} deltas).1.state = .done ∧ (feedAll {} deltas).1.name = some (textOf call.name) ∧
      (feedAll {} deltas).2.1 = call.argsMember.value ∧ (feedAll {} deltas).2.2 = call.text.length) ∧
  ∀ deltas : List Text, deltas.flatten <+: call.text → deltas.flatten ≠ call.text →
    (feedAll {} deltas).1.state ≠ .done

/-- No key has a colon behind an escaped quote. -/
def ClosedKeys (call : ToolCallText) : Prop :=
  ∀ m ∈ call.init ++ [call.last], colon ∉ (textOf m.key).dropWhile fun c => decide (c ≠ quote)

/-- The two keys are written without escapes. -/
def PlainKeys (call : ToolCallText) : Prop :=
  textOf call.nameMember.key = NAME ∧ textOf call.argsMember.key = ARGUMENTS

end ToolCallText

/-! ### Reading -/

namespace JsonCallScanner

variable {s s' s'' : JsonCallScanner} {text text' args args' : Text} {c : Nat} {name : Option Text}

theorem feed_next (h : s.state ≠ .done) (c : Nat) (text : Text) : s.feed (c :: text) =
    (((s.take c).1.feed text).1, (s.take c).2 ++ ((s.take c).1.feed text).2.1,
      ((s.take c).1.feed text).2.2 + 1) := by
  rw [feed, if_neg h]

/-- Feeding in two parts. -/
theorem feed_append : ∀ (text : Text) (s : JsonCallScanner) (text' : Text),
    s.feed (text ++ text') = (((s.feed text).1.feed text').1,
      (s.feed text).2.1 ++ ((s.feed text).1.feed text').2.1,
      (s.feed text).2.2 + ((s.feed text).1.feed text').2.2)
  | [], s, text' => by simp [feed]
  | c :: text, s, text' => by
      by_cases hdone : s.state = .done
      · simp [feed_of_done hdone]
      · rw [List.cons_append, feed_next hdone, feed_next hdone, feed_append text]
        simp only [List.append_assoc, Prod.mk.injEq, true_and]
        omega

theorem feedAll_eq : ∀ (deltas : List Text) (s : JsonCallScanner),
    ToolCallText.feedAll s deltas = s.feed deltas.flatten
  | [], _ => rfl
  | delta :: deltas, s => by
      rw [ToolCallText.feedAll, feedAll_eq deltas, List.flatten_cons, feed_append]

/-- A text that is consumed whole. -/
def Reads (s : JsonCallScanner) (text : Text) (s' : JsonCallScanner) (args : Text) : Prop :=
  s.feed text = (s', args, text.length)

theorem Reads.nil (s : JsonCallScanner) : Reads s [] s [] := rfl

theorem Reads.append (h : Reads s text s' args) (h' : Reads s' text' s'' args') :
    Reads s (text ++ text') s'' (args ++ args') := by
  rw [Reads, feed_append, h, h', List.length_append]

theorem Reads.one (hstate : s.state ≠ .done) (htake : s.take c = (s', args)) : Reads s [c] s' args := by
  rw [Reads, feed_next hstate, htake]
  simp [feed]

theorem Reads.cons (hstate : s.state ≠ .done) (htake : s.take c = (s', args))
    (h : Reads s' text s'' args') : Reads s (c :: text) s'' (args ++ args') :=
  (Reads.one hstate htake).append h

/-- The object is not complete before the end of a text that is consumed whole. -/
theorem Reads.strict (h : Reads s text s' args) {first : Text} (hfirst : first <+: text)
    (hne : first ≠ text) : (s.feed first).1.state ≠ .done := by
  obtain ⟨more, rfl⟩ := hfirst
  intro hdone
  have hmore : more ≠ [] := fun hnil => hne (by rw [hnil, List.append_nil])
  have hall : (s.feed (first ++ more)).2.2 = (first ++ more).length := congrArg (·.2.2) h
  have hle : ∀ (text : Text) (s : JsonCallScanner), (s.feed text).2.2 ≤ text.length := by
    intro text
    induction text with
    | nil => exact fun s => Nat.le_refl _
    | cons c text ih =>
      intro s
      by_cases hs : s.state = .done
      · rw [feed_of_done hs]
        exact Nat.zero_le _
      · rw [feed_next hs]
        exact Nat.succ_le_succ (ih _)
  rw [feed_append, feed_of_done hdone, List.length_append] at hall
  have hpos : 0 < more.length := List.length_pos_iff.mpr hmore
  have hfirst : (s.feed first).2.2 ≤ first.length := hle first s
  have hsum : (s.feed first).2.2 + 0 = first.length + more.length := hall
  omega

/-! ### The state between two parts of a member -/

/-- The scanner in the top-level object, outside any string. -/
structure At (s : JsonCallScanner) (state : ScanState) (name : Option Text) : Prop where
  state_eq : s.state = state
  name_eq : s.name = name
  inKey : s.inKey = false
  depth : s.depth = 1
  inString : s.inString = false
  escaped : s.escaped = false
  argsDepth : state = .args → s.argsDepth = 0
  otherDepth : state = .other → s.otherDepth = 0

theorem At.ne_done {state : ScanState} (h : s.At state name) (hne : state ≠ .done) : s.state ≠ .done :=
  h.state_eq ▸ hne

/-- Characters that leave the scanner as it is, and emit nothing. -/
theorem reads_idle (hstate : s.state ≠ .done) : ∀ {text : Text},
    (∀ c ∈ text, s.take c = (s, [])) → Reads s text s []
  | [], _ => Reads.nil s
  | c :: _, h => Reads.cons hstate (h c List.mem_cons_self)
      (reads_idle hstate fun c hc => h c (List.mem_cons_of_mem _ hc))

/-- Whitespace is structure in every state. -/
theorem At.reads_spaces {state : ScanState} (h : s.At state name) (hne : state ≠ .done)
    (hspaces : Spaces text) : Reads s text s [] := by
  refine reads_idle (h.ne_done hne) fun c hc => ?_
  have hc := hspaces c hc
  have hquote : c ≠ QUOTE := by show c ≠ 34; omega
  have hcolon : c ≠ COLON := by show c ≠ 58; omega
  have hcomma : c ≠ COMMA := by show c ≠ 44; omega
  have hopen : ¬ (c = LBRACE ∨ c = LBRACKET) := by show ¬ (c = 123 ∨ c = 91); omega
  have hclose : ¬ (c = RBRACE ∨ c = RBRACKET) := by show ¬ (c = 125 ∨ c = 93); omega
  have hlbrace : c ≠ LBRACE := fun heq => hopen (.inl heq)
  have hrbrace : c ≠ RBRACE := fun heq => hclose (.inl heq)
  have hmem : c ∈ SPACES := by
    show c ∈ [32, 10, 13, 9]
    rw [List.mem_cons, List.mem_cons, List.mem_cons, List.mem_singleton]
    omega
  cases state with
  | done => exact absurd rfl hne
  | key => simp [take, h.state_eq, takeKey, h.inKey, hquote, hlbrace, hrbrace]
  | colon => simp [take, h.state_eq, takeColon, hcolon]
  | name => simp [take, h.state_eq, takeName, h.inString, hquote]
  | other => simp [take, h.state_eq, takeOther, h.inString, hquote, hopen, hclose, hcomma]
  | args => simp [take, h.state_eq, takeArgs, h.inString, h.argsDepth rfl, hmem]

/-! ### Keys -/

/-- The key as the scanner reads it: up to the first quote. -/
def keyOf (key : List Piece) : Text := (textOf key).takeWhile fun c => decide (c ≠ quote)

/-- Between the quotes of a key. -/
theorem reads_inKey : ∀ {text : Text} {s : JsonCallScanner}, s.state = .key → s.inKey = true →
    (∀ c ∈ text, c ≠ quote) → Reads s text { s with buf := s.buf ++ text } []
  | [], s, _, _, _ => by simpa using Reads.nil s
  | c :: text, s, hstate, hin, htext => by
      have hquote : c ≠ QUOTE := htext c List.mem_cons_self
      have htake : s.take c = ({ s with buf := s.buf ++ [c] }, []) := by
        simp [take, hstate, takeKey, hin, hquote]
      have hrest := @reads_inKey text { s with buf := s.buf ++ [c] } hstate hin fun c hc =>
        htext c (List.mem_cons_of_mem _ hc)
      have hall := Reads.cons (by rw [hstate]; exact nofun) htake hrest
      simpa using hall

/-- A key without a colon behind an escaped quote: the scanner waits for the colon then. -/
theorem At.reads_key (h : s.At .key name) {key : List Piece}
    (hkey : colon ∉ (textOf key).dropWhile fun c => decide (c ≠ quote)) :
    ∃ s', Reads s (quoted key) s' [] ∧ s'.At .colon name ∧ s'.key = keyOf key := by
  have hopen : s.take quote = ({ s with
      inKey := true
      buf := [] }, []) := by
    simp [take, h.state_eq, takeKey, h.inKey, show quote = QUOTE from rfl]
  -- the scanner's key ends at the first quote
  obtain ⟨more, hmore, hcolon⟩ : ∃ more, (textOf key).dropWhile (fun c => decide (c ≠ quote)) ++ [quote] =
      quote :: more ∧ colon ∉ more := by
    cases hdrop : (textOf key).dropWhile fun c => decide (c ≠ quote) with
    | nil => exact ⟨[], rfl, List.not_mem_nil⟩
    | cons c rest =>
      have hc : c = quote := by
        have := List.head?_dropWhile_not (fun c => decide (c ≠ quote)) (textOf key)
        rw [hdrop] at this
        simpa using this
      rw [hdrop] at hkey
      refine ⟨rest ++ [quote], by rw [hc, List.cons_append], fun hmem => ?_⟩
      rcases List.mem_append.mp hmem with hmem | hmem
      · exact hkey (List.mem_cons_of_mem _ hmem)
      · exact absurd (List.mem_singleton.mp hmem) (by decide)
  have htext : quoted key = [quote] ++ (keyOf key ++ ([quote] ++ more)) := by
    rw [List.singleton_append, List.singleton_append, ← hmore, keyOf, ← List.append_assoc,
      List.takeWhile_append_dropWhile, quoted]
  let opened : JsonCallScanner := { s with
    inKey := true
    buf := [] }
  let closed : JsonCallScanner := { s with
    key := keyOf key
    buf := []
    inKey := false
    state := .colon }
  have hin := @reads_inKey (keyOf key) opened h.state_eq rfl fun c hc => by
    simpa using List.mem_takeWhile_imp hc
  have hclose : ({ opened with buf := opened.buf ++ keyOf key } : JsonCallScanner).take quote =
      (closed, []) := by
    simp [take, opened, closed, h.state_eq, takeKey, show quote = QUOTE from rfl]
  have hwait : Reads closed more closed [] := reads_idle (fun hne => ScanState.noConfusion hne) fun c hc => by
    have hne : c ≠ COLON := fun heq => hcolon ((show c = colon from heq) ▸ hc)
    simp [take, closed, takeColon, hne]
  refine ⟨closed, ?_, ⟨rfl, h.name_eq, rfl, h.depth, h.inString, h.escaped,
    (fun hne => ScanState.noConfusion hne), (fun hne => ScanState.noConfusion hne)⟩, rfl⟩
  rw [htext]
  refine (Reads.one (h.ne_done (by decide)) hopen).append (hin.append
    ((Reads.one ?_ hclose).append hwait))
  exact (h.ne_done (by decide) : s.state ≠ .done)

/-- Up to the colon of a member: the key decides what its value is read as. -/
theorem At.reads_front (h : s.At .key name) (m : Member)
    (hkey : colon ∉ (textOf m.key).dropWhile fun c => decide (c ≠ quote)) :
    ∃ s', Reads s m.front s' [] ∧ s'.buf = [] ∧ s'.At (if keyOf m.key = NAME then .name
      else if keyOf m.key = ARGUMENTS then .args else .other) name := by
  obtain ⟨hlead, hmid, -, -⟩ := m.spaces
  obtain ⟨s', hread, hat, hsame⟩ := h.reads_key hkey
  have htake : s'.take colon = (s'.takeColon colon, []) := by rw [take, hat.state_eq]
  refine ⟨s'.takeColon colon, (h.reads_spaces (by exact nofun) hlead).append (hread.append
    ((hat.reads_spaces (by exact nofun) hmid).append (Reads.one (hat.ne_done (by exact nofun)) htake))),
    ?_, ?_⟩
  · unfold takeColon
    rw [if_pos (show colon = COLON from rfl)]
    split_ifs <;> rfl
  · unfold takeColon
    rw [if_pos (show colon = COLON from rfl), hsame]
    show At (if keyOf m.key = NAME then _ else if keyOf m.key = ARGUMENTS then _ else _) _ _
    split_ifs
    · exact ⟨rfl, hat.name_eq, hat.inKey, hat.depth, rfl, rfl, nofun, nofun⟩
    · exact ⟨rfl, hat.name_eq, hat.inKey, hat.depth, hat.inString, hat.escaped, fun _ => rfl, nofun⟩
    · exact ⟨rfl, hat.name_eq, hat.inKey, hat.depth, rfl, hat.escaped, nofun, fun _ => rfl⟩

/-! ### The name -/

theorem take_name_char (hstate : s.state = .name) (hin : s.inString = true) (hesc : s.escaped = false)
    (hquote : c ≠ quote) (hback : c ≠ backslash) :
    s.take c = ({ s with buf := s.buf ++ [c] }, []) := by
  have hquote : c ≠ QUOTE := hquote
  have hback : c ≠ BACKSLASH := hback
  simp [take, hstate, takeName, hin, hesc, hquote, hback]

/-- A backslash and the character behind it. -/
theorem reads_name_escape (hstate : s.state = .name) (hin : s.inString = true)
    (hesc : s.escaped = false) (c : Nat) :
    Reads s [backslash, c] { s with buf := s.buf ++ [backslash, c] } [] := by
  have hne : s.state ≠ .done := by rw [hstate]; exact nofun
  have hfirst : s.take backslash = ({ s with
      buf := s.buf ++ [backslash]
      escaped := true }, []) := by
    simp [take, hstate, takeName, hin, hesc, show backslash = BACKSLASH from rfl]
  have hsecond : ({ s with
      buf := s.buf ++ [backslash]
      escaped := true } : JsonCallScanner).take c = ({ s with buf := s.buf ++ [backslash, c] }, []) := by
    simp [take, hstate, takeName, hin, hesc]
  exact Reads.cons hne hfirst (Reads.one hne hsecond)

theorem reads_name_piece (hstate : s.state = .name) (hin : s.inString = true)
    (hesc : s.escaped = false) (piece : Piece) :
    Reads s piece.text { s with buf := s.buf ++ piece.text } [] := by
  have hne : s.state ≠ .done := by rw [hstate]; exact nofun
  cases piece with
  | plain c h => exact Reads.one hne (take_name_char hstate hin hesc h.2.1 h.2.2)
  | escape c value h => exact reads_name_escape hstate hin hesc c
  | unicode a b c e h =>
    obtain ⟨ha, hb, hc, he⟩ := h
    have hchar : ∀ {x : Nat} (buf : Text), IsHex x →
        ({ s with buf } : JsonCallScanner).take x = ({ s with buf := buf ++ [x] }, []) :=
      fun buf hx => take_name_char hstate hin hesc hx.ne.1 hx.ne.2
    have hall := (reads_name_escape hstate hin hesc 117).append (Reads.cons hne (hchar _ ha)
      (Reads.cons hne (hchar _ hb) (Reads.cons hne (hchar _ hc) (Reads.one hne (hchar _ he)))))
    simpa [Piece.text] using hall

theorem reads_name_text (pieces : List Piece) : ∀ {s : JsonCallScanner}, s.state = .name →
    s.inString = true → s.escaped = false →
    Reads s (textOf pieces) { s with buf := s.buf ++ textOf pieces } [] := by
  induction pieces with
  | nil =>
    intro s _ _ _
    simpa [textOf] using Reads.nil s
  | cons piece pieces ih =>
    intro s hstate hin hesc
    have hrest := @ih { s with buf := s.buf ++ piece.text } hstate hin hesc
    have hall := (reads_name_piece hstate hin hesc piece).append hrest
    rw [textOf, List.flatMap_cons]
    simpa [textOf] using hall

/-- A string is taken as the name, as it is written. -/
theorem At.reads_name (h : s.At .name name) (hbuf : s.buf = []) (pieces : List Piece) :
    ∃ s', Reads s (quoted pieces) s' [] ∧ s'.At .key (some (textOf pieces)) := by
  have hne : s.state ≠ .done := h.ne_done (by exact nofun)
  have hopen : s.take quote = ({ s with inString := true }, []) := by
    simp [take, h.state_eq, takeName, h.inString, show quote = QUOTE from rfl]
  have htext := @reads_name_text pieces { s with inString := true } h.state_eq rfl h.escaped
  let closed : JsonCallScanner := { s with
    buf := textOf pieces
    name := some (textOf pieces)
    inString := false
    state := .key }
  have hclose : ({ s with
      inString := true
      buf := s.buf ++ textOf pieces } : JsonCallScanner).take quote = (closed, []) := by
    simp [take, h.state_eq, takeName, h.escaped, hbuf, closed, show quote = QUOTE from rfl,
      show ¬ QUOTE = BACKSLASH by decide]
  exact ⟨closed, Reads.cons hne hopen (htext.append (Reads.one hne hclose)), rfl, rfl, h.inKey, h.depth,
    rfl, h.escaped, (fun hne => by cases hne), (fun hne => by cases hne)⟩

/-! ### Other values -/

/-- A text is read along its nesting. -/
theorem reads_along {ok : Nesting → Nat → Prop} (scanner : Nesting → JsonCallScanner) (emit : Nat → Text)
    (hstep : ∀ n c, ok n c → (scanner n).state ≠ .done ∧
      (scanner n).take c = (scanner (n.step c), emit c)) :
    ∀ {text : Text} {n : Nesting}, Along ok n text →
      Reads (scanner n) text (scanner (n.walk text)) (text.flatMap emit)
  | [], n, _ => Reads.nil _
  | c :: _, n, h => by
      obtain ⟨hstate, htake⟩ := hstep n c h.1
      exact Reads.cons hstate htake (reads_along scanner emit hstep h.2)

/-- `_track_string` follows a string as the nesting does. -/
theorem trackString_step (scanner : Bool → Bool → JsonCallScanner)
    (hscanner : ∀ inString escaped, scanner inString escaped = { s with inString, escaped }) (d c : Nat)
    (escaped : Bool) : (scanner true escaped).trackString c =
      scanner ((⟨d, true, escaped⟩ : Nesting).step c).inString
        ((⟨d, true, escaped⟩ : Nesting).step c).escaped := by
  rw [hscanner, hscanner]
  cases escaped with
  | true => simp [trackString, Nesting.step]
  | false =>
    by_cases hback : c = backslash
    · simp [trackString, Nesting.step, hback, BACKSLASH]
    have hback' : c ≠ BACKSLASH := hback
    by_cases hquote : c = quote
    · subst hquote
      rfl
    have hquote' : c ≠ QUOTE := hquote
    simp [trackString, Nesting.step, hback, hback', hquote, hquote']

theorem step_string (d c : Nat) (escaped : Bool) :
    (⟨d, true, escaped⟩ : Nesting).step c = ⟨d, ((⟨d, true, escaped⟩ : Nesting).step c).inString,
      ((⟨d, true, escaped⟩ : Nesting).step c).escaped⟩ := by
  simp only [Nesting.step, if_true]
  split_ifs <;> rfl

/-- The scanner skipping an unknown value. -/
def skipping (s : JsonCallScanner) (n : Nesting) : JsonCallScanner :=
  { s with
    state := .other
    otherDepth := n.depth
    inString := n.inString
    escaped := n.escaped }

theorem skipping_ne_done (s : JsonCallScanner) (n : Nesting) : (skipping s n).state ≠ .done :=
  fun hne => ScanState.noConfusion hne

theorem take_skipping (s : JsonCallScanner) {n : Nesting} (h : Within EndsValue 0 n c) :
    (skipping s n).take c = (skipping s (n.step c), []) := by
  have htake : (skipping s n).take c = ((skipping s n).takeOther c, []) := rfl
  rw [htake]
  congr 1
  obtain ⟨depth, inString, escaped⟩ := n
  cases inString with
  | true =>
    have htrack := @trackString_step (skipping s ⟨depth, true, escaped⟩)
      (fun inString escaped => skipping s ⟨depth, inString, escaped⟩) (fun _ _ => rfl) depth c escaped
    rw [takeOther, if_pos (show (skipping s ⟨depth, true, escaped⟩).inString = true from rfl)]
    exact htrack.trans (congrArg (skipping s) (step_string depth c escaped).symm)
  | false =>
    by_cases hquote : c = quote
    · simp [takeOther, skipping, Nesting.step, hquote, QUOTE]
    have hquote' : c ≠ QUOTE := hquote
    by_cases hopen : c = lbrace ∨ c = lbracket
    · have hopen' : c = LBRACE ∨ c = LBRACKET := hopen
      simp [takeOther, skipping, Nesting.step, hquote, hquote', hopen, hopen']
    have hopen' : ¬ (c = LBRACE ∨ c = LBRACKET) := hopen
    by_cases hclose : c = rbrace ∨ c = rbracket
    · have hclose' : c = RBRACE ∨ c = RBRACKET := hclose
      have hdeep : 0 < depth := h.elim (fun hin => absurd hin Bool.false_ne_true) fun h =>
        h.resolve_right fun hnot => hnot (.inr hclose)
      have hcast : ((depth - 1 : Nat) : Int) = (depth : Int) - 1 := by omega
      simp [takeOther, skipping, Nesting.step, hquote, hquote', hopen, hopen', hclose, hclose', hdeep,
        hcast]
    have hclose' : ¬ (c = RBRACE ∨ c = RBRACKET) := hclose
    -- a comma outside a string is inside a container
    have hcomma : ¬ (c = COMMA ∧ depth = 0) := by
      rintro ⟨hcomma, hzero⟩
      rcases h with hin | hdeep | hnot
      · exact Bool.false_ne_true hin
      · exact absurd hzero (Nat.ne_of_gt hdeep)
      · exact hnot (.inl hcomma)
    simp [takeOther, skipping, Nesting.step, hquote, hquote', hopen, hopen', hclose, hclose', hcomma]

/-- An unknown value is skipped to its end, and no further. -/
theorem At.reads_other (h : s.At .other name) {value : Text} (hvalue : Json .value value) :
    Reads s value s [] := by
  have hself : skipping s (outside 0) = s := by
    obtain ⟨hstate, -, -, -, hin, hescaped, -, hother⟩ := h
    have hother := hother rfl
    cases s
    simp_all [skipping, outside]
  obtain ⟨hwalk, halong⟩ := hvalue.walk 0
  have hread := reads_along (skipping s) (fun _ => []) (fun n c hc => ⟨skipping_ne_done s n, take_skipping s hc⟩)
    halong
  rwa [hwalk, hself, List.flatMap_eq_nil_iff.mpr fun _ _ => rfl] at hread

/-! ### The arguments -/

/-- The scanner emitting the arguments. -/
def emitting (s : JsonCallScanner) (n : Nesting) : JsonCallScanner :=
  { s with
    state := .args
    argsDepth := n.depth
    inString := n.inString
    escaped := n.escaped }

/-- A character that is emitted, and after which the value goes on. -/
def Emits (n : Nesting) (c : Nat) : Prop :=
  n.inString = true ∨ (0 < n.depth ∨ c ∉ SPACES) ∧ (1 < n.depth ∨ ¬ Closes c)

theorem take_emitting (s : JsonCallScanner) {n : Nesting} (h : Emits n c) :
    (emitting s n).take c = (emitting s (n.step c), [c]) := by
  have htake : (emitting s n).take c = (emitting s n).takeArgs c := rfl
  rw [htake]
  obtain ⟨depth, inString, escaped⟩ := n
  cases inString with
  | true =>
    have htrack := @trackString_step (emitting s ⟨depth, true, escaped⟩)
      (fun inString escaped => emitting s ⟨depth, inString, escaped⟩) (fun _ _ => rfl) depth c escaped
    have hin : (emitting s ⟨depth, true, escaped⟩).inString = true := rfl
    rw [takeArgs, if_neg (by rw [hin]; simp), if_pos hin]
    exact Prod.ext (htrack.trans (congrArg (emitting s) (step_string depth c escaped).symm)) rfl
  | false =>
    obtain ⟨hspace, hlast⟩ := h.resolve_left Bool.false_ne_true
    have hspace' : ¬ (depth = 0 ∧ c ∈ SPACES) := fun hboth =>
      hspace.elim (fun hdeep => Nat.ne_of_gt hdeep hboth.1) fun hnot => hnot hboth.2
    by_cases hquote : c = quote
    · subst hquote
      have hmem : QUOTE ∉ SPACES := by decide
      simp [takeArgs, emitting, Nesting.step, hmem, show quote = QUOTE from rfl]
    have hquote' : c ≠ QUOTE := hquote
    by_cases hopen : c = lbrace ∨ c = lbracket
    · have hopen' : c = LBRACE ∨ c = LBRACKET := hopen
      simp [takeArgs, emitting, Nesting.step, hspace', hquote, hquote', hopen, hopen']
    have hopen' : ¬ (c = LBRACE ∨ c = LBRACKET) := hopen
    by_cases hclose : c = rbrace ∨ c = rbracket
    · have hclose' : c = RBRACE ∨ c = RBRACKET := hclose
      have hdeep : 1 < depth := hlast.resolve_right fun hnot => hnot hclose
      have hcast : ((depth - 1 : Nat) : Int) = (depth : Int) - 1 := by omega
      have hzero : ¬ ((depth : Int) - 1 = 0) := by omega
      simp [takeArgs, emitting, Nesting.step, hspace', hquote, hquote', hopen, hopen', hclose, hclose',
        hcast, hzero]
    have hclose' : ¬ (c = RBRACE ∨ c = RBRACKET) := hclose
    simp [takeArgs, emitting, Nesting.step, hspace', hquote, hquote', hopen, hopen', hclose, hclose']

theorem reads_emitting (s : JsonCallScanner) {n : Nesting} (h : Along Emits n text) :
    Reads (emitting s n) text (emitting s (n.walk text)) text := by
  have hread := reads_along (emitting s) (fun c => [c])
    (fun n c hc => ⟨by exact nofun, take_emitting s hc⟩) h
  rwa [List.flatMap_singleton'] at hread

theorem At.emitting_eq (h : s.At .args name) : emitting s (outside 0) = s := by
  obtain ⟨hstate, -, -, -, hin, hescaped, hargs, -⟩ := h
  have hargs := hargs rfl
  cases s
  simp_all [emitting, outside]

/-- An object or an array is emitted as it is written, and ends the arguments. -/
theorem At.reads_container (h : s.At .args name) {keyed : Bool} {body : Text}
    (hwalk : (outside 1).walk body = outside 1) (halong : Along (Within Closes 1) (outside 1) body) :
    ∃ s', Reads s (opening keyed :: (body ++ [closing keyed])) s'
      (opening keyed :: (body ++ [closing keyed])) ∧ s'.At .key name := by
  have hopen : s.take (opening keyed) = (emitting s (outside 1), [opening keyed]) := by
    have hstep := @take_emitting (opening keyed) s (outside 0) (.inr ⟨.inr ?_, .inr ?_⟩)
    · rwa [h.emitting_eq, step_opening] at hstep
    · cases keyed <;> decide
    · cases keyed <;> (unfold Closes; decide)
  have hbody := reads_emitting s ((halong.deep (Nat.le_refl 1)).mono fun n c hc =>
    (hc.1.imp_right fun hlast => ⟨.inl hc.2, hlast⟩ : Emits n c))
  rw [hwalk] at hbody
  let closed : JsonCallScanner := { s with
    state := .key
    argsDepth := 0
    inString := false
    escaped := false }
  have hclose : (emitting s (outside 1)).take (closing keyed) = (closed, [closing keyed]) := by
    cases keyed <;> rfl
  exact ⟨closed, Reads.cons (h.ne_done (by exact nofun)) hopen (hbody.append (Reads.one nofun hclose)),
    rfl, h.name_eq, h.inKey, h.depth, rfl, rfl, (fun hne => by cases hne), (fun hne => by cases hne)⟩

/-- Other arguments are emitted too, but do not end. -/
theorem At.reads_flat (h : s.At .args name) {value : Text}
    (hflat : Scalar value ∨ ∃ pieces, value = quoted pieces) : Reads s value s value := by
  have halong : Along Emits (outside 0) value ∧ (outside 0).walk value = outside 0 := by
    rcases hflat with hs | ⟨pieces, rfl⟩
    · refine ⟨along_quiet hs.quiet fun c hc => .inr ⟨.inr fun hmem => ?_, .inr (hs.quiet c hc).2.2.2⟩,
        walk_quiet hs.quiet 0⟩
      have hlt := (hs.bare hc).1
      simp only [SPACES, List.mem_cons, List.not_mem_nil, or_false] at hmem
      omega
    · refine ⟨along_quoted (fun _ _ hin => .inl hin) (.inr ⟨.inr (by decide), .inr ?_⟩) pieces,
        walk_quoted pieces 0⟩
      unfold Closes
      decide
  have hread := reads_emitting s halong.1
  rwa [halong.2, h.emitting_eq] at hread

/-! ### Members -/

/-- Between two members: in the object, or in a skipped value that has ended. -/
def After (s : JsonCallScanner) (name : Option Text) : Prop := s.At .key name ∨ s.At .other name

theorem After.reads_spaces (h : s.After name) (hspaces : Spaces text) : Reads s text s [] :=
  h.elim (fun h => h.reads_spaces (by exact nofun) hspaces) fun h => h.reads_spaces (by exact nofun) hspaces

/-- The comma leads to the next key. -/
theorem After.reads_comma (h : s.After name) : ∃ s', Reads s [comma] s' [] ∧ s'.At .key name := by
  rcases h with h | h
  · refine ⟨s, Reads.one (h.ne_done (by exact nofun)) ?_, h⟩
    simp only [take, h.state_eq, takeKey, h.inKey, Bool.false_eq_true, if_false]
    rfl
  · refine ⟨{ s with state := .key }, Reads.one (h.ne_done (by exact nofun)) ?_, rfl, h.name_eq, h.inKey,
      h.depth, h.inString, h.escaped, (fun hne => by cases hne), (fun hne => by cases hne)⟩
    simp only [take, h.state_eq, takeOther, h.inString, h.otherDepth rfl, Bool.false_eq_true, if_false]
    rfl

/-- The brace completes the object. -/
theorem After.reads_end (h : s.After name) :
    ∃ s', Reads s [rbrace] s' [] ∧ s'.state = .done ∧ s'.name = name := by
  rcases h with h | h
  · refine ⟨{ s with
      depth := 0
      state := .done }, Reads.one (h.ne_done (by exact nofun)) ?_, rfl, h.name_eq⟩
    simp only [take, h.state_eq, takeKey, h.inKey, h.depth, Bool.false_eq_true, if_false]
    rfl
  · refine ⟨{ s with
      depth := 0
      state := .done }, Reads.one (h.ne_done (by exact nofun)) ?_, rfl, h.name_eq⟩
    simp only [take, h.state_eq, takeOther, h.inString, h.otherDepth rfl, h.depth, Bool.false_eq_true,
      if_false]
    rfl

/-- A member the scanner reads to its end: a name that is a string, arguments that are a
container. -/
structure Fits (m : Member) : Prop where
  closed : colon ∉ (textOf m.key).dropWhile fun c => decide (c ≠ quote)
  name : keyOf m.key = NAME → ∃ pieces, m.value = quoted pieces
  arguments : keyOf m.key = ARGUMENTS → IsContainer m.value

/-- A string between its quotes. -/
def unquoted (value : Text) : Text := (value.drop 1).dropLast

theorem unquoted_quoted (pieces : List Piece) : unquoted (quoted pieces) = textOf pieces := by
  simp [unquoted, quoted]

/-- The name after a member, if there was `name` before it. -/
def nameAfter (name : Option Text) (m : Member) : Option Text :=
  if keyOf m.key = NAME then some (unquoted m.value) else name

/-- What is emitted of a member. -/
def argsOf (m : Member) : Text := if keyOf m.key = ARGUMENTS then m.value else []

theorem NAME_ne_ARGUMENTS : NAME ≠ ARGUMENTS := by decide

/-- **One member.** -/
theorem At.reads_member (h : s.At .key name) {m : Member} (hm : Fits m) :
    ∃ s', Reads s m.text s' (argsOf m) ∧ s'.After (nameAfter name m) := by
  obtain ⟨-, -, htrail, hafter⟩ := m.spaces
  obtain ⟨s₁, hfront, hbuf, hat⟩ := h.reads_front m hm.closed
  -- the value and the whitespace behind it
  have hclose : ∀ {s' : JsonCallScanner} {args : Text}, Reads s₁ m.trail s₁ [] →
      Reads s₁ m.value s' args → s'.After (nameAfter name m) → args = argsOf m →
      ∃ s', Reads s m.text s' (argsOf m) ∧ s'.After (nameAfter name m) := by
    intro s' args htrail hvalue hend hargs
    have hall := hfront.append (htrail.append (hvalue.append (hend.reads_spaces hafter)))
    rw [List.append_nil, List.nil_append, List.nil_append, hargs] at hall
    exact ⟨s', hall, hend⟩
  by_cases hname : keyOf m.key = NAME
  · rw [if_pos hname] at hat
    obtain ⟨pieces, hpieces⟩ := hm.name hname
    obtain ⟨s', hread, hend⟩ := hat.reads_name hbuf pieces
    refine hclose (hat.reads_spaces (by exact nofun) htrail) (hpieces ▸ hread) (.inl ?_) ?_
    · rw [nameAfter, if_pos hname, hpieces, unquoted_quoted]
      exact hend
    · rw [argsOf, if_neg fun hargs => NAME_ne_ARGUMENTS (hname.symm.trans hargs)]
  have hsame : nameAfter name m = name := by rw [nameAfter, if_neg hname]
  rw [if_neg hname] at hat
  by_cases hargs : keyOf m.key = ARGUMENTS
  · rw [if_pos hargs] at hat
    rcases m.isValue.value_cases with ⟨hflat, -⟩ | ⟨-, keyed, body, hvalue, hwalk, halong⟩
    · exact absurd (hm.arguments hargs) hflat
    · obtain ⟨s', hread, hend⟩ := hat.reads_container hwalk halong
      refine hclose (hat.reads_spaces (by exact nofun) htrail) (hvalue ▸ hread)
        (.inl (by rw [hsame]; exact hend)) ?_
      rw [argsOf, if_pos hargs]
  · rw [if_neg hargs] at hat
    refine hclose (hat.reads_spaces (by exact nofun) htrail) (hat.reads_other m.isValue)
      (.inr (by rw [hsame]; exact hat)) ?_
    rw [argsOf, if_neg hargs]

/-- Members with their commas, as far as the key of the next one. -/
theorem At.reads_members : ∀ {members : List Member} {s : JsonCallScanner} {name : Option Text},
    s.At .key name → (∀ m ∈ members, Fits m) →
    ∃ s', Reads s (members.flatMap fun m => m.text ++ [comma]) s' (members.flatMap argsOf) ∧
      s'.At .key (members.foldl nameAfter name)
  | [], s, name, h, _ => ⟨s, Reads.nil s, h⟩
  | m :: members, s, name, h, hfits => by
      obtain ⟨s₁, hread, hend⟩ := h.reads_member (hfits m List.mem_cons_self)
      obtain ⟨s₂, hcomma, hnext⟩ := hend.reads_comma
      obtain ⟨s₃, hrest, hlast⟩ := hnext.reads_members fun m hm => hfits m (List.mem_cons_of_mem _ hm)
      have hall := (hread.append hcomma).append hrest
      rw [List.append_nil] at hall
      exact ⟨s₃, by rw [List.flatMap_cons, List.flatMap_cons]; exact hall, hlast⟩

/-- The brace that opens the object. -/
theorem reads_start : ∃ s, Reads {} [lbrace] s [] ∧ s.At .key none := by
  refine ⟨{ depth := 1 }, Reads.one nofun rfl, rfl, rfl, rfl, rfl, rfl, rfl, ?_, ?_⟩
  · exact fun hne => by cases hne
  · exact fun hne => by cases hne

end JsonCallScanner

/-! ### The whole object -/

open JsonCallScanner

/-- The key the scanner reads is the one written, or has a backslash. -/
theorem keyOf_cases (key : List Piece) : keyOf key = textOf key ∨ backslash ∈ keyOf key := by
  induction key with
  | nil => exact .inl rfl
  | cons piece key ih =>
    cases piece with
    | plain c h =>
      have hcons : keyOf (.plain c h :: key) = c :: keyOf key :=
        List.takeWhile_cons_of_pos (by simpa using h.2.1)
      rw [hcons]
      refine ih.imp (fun heq => ?_) (List.mem_cons_of_mem _)
      rw [heq]
      rfl
    | escape c value h =>
      right
      have hcons : keyOf (.escape c value h :: key) = backslash :: _ :=
        List.takeWhile_cons_of_pos (by decide)
      rw [hcons]
      exact List.mem_cons_self
    | unicode a b c e h =>
      right
      have hcons : keyOf (.unicode a b c e h :: key) = backslash :: _ :=
        List.takeWhile_cons_of_pos (by decide)
      rw [hcons]
      exact List.mem_cons_self

/-- What is written without a backslash spells itself. -/
theorem valueOf_eq {key : List Piece} (h : backslash ∉ textOf key) : valueOf key = textOf key := by
  induction key with
  | nil => rfl
  | cons piece key ih =>
    rw [textOf, List.flatMap_cons, List.mem_append, not_or] at h
    cases piece with
    | plain c hc => exact congrArg (c :: ·) (ih h.2)
    | escape c value hc => exact absurd List.mem_cons_self h.1
    | unicode a b c e hc => exact absurd List.mem_cons_self h.1

/-- A key is read as a word if and only if it is that word, written without escapes. -/
theorem keyOf_eq_iff {key : List Piece} {word : Text} (hword : backslash ∉ word) :
    keyOf key = word ↔ textOf key = word := by
  rcases keyOf_cases key with heq | hback
  · rw [heq]
  · have hmem : backslash ∈ textOf key := (List.takeWhile_prefix _).subset hback
    exact ⟨fun h => absurd (h ▸ hback) hword, fun h => absurd (h ▸ hmem) hword⟩

/-- What is read as a word spells it. -/
theorem spells_of_keyOf {key : List Piece} {word : Text} (hword : backslash ∉ word)
    (h : keyOf key = word) : valueOf key = word := by
  have htext := (keyOf_eq_iff hword).mp h
  exact (valueOf_eq (htext ▸ hword)).trans htext

theorem NAME_plain : backslash ∉ NAME := by decide

theorem ARGUMENTS_plain : backslash ∉ ARGUMENTS := by decide

theorem Only.mem_iff {members : List Member} {word : Text} {only : Member} (h : Only members word only)
    (m : Member) : m ∈ members ∧ valueOf m.key = word ↔ m = only := by
  have hmem : m ∈ members.filter (fun m => decide (valueOf m.key = word)) ↔ m = only := by
    rw [h, List.mem_singleton]
  rwa [List.mem_filter, decide_eq_true_iff] at hmem

/-- The member that spells a word, among the others. -/
theorem Only.split {members : List Member} {word : Text} {only : Member} (h : Only members word only) :
    ∃ before behind, members = before ++ only :: behind ∧
      (∀ m ∈ before, valueOf m.key ≠ word) ∧ ∀ m ∈ behind, valueOf m.key ≠ word := by
  obtain ⟨before, behind, hsplit⟩ := List.append_of_mem ((h.mem_iff only).mpr rfl).1
  have hspells := ((h.mem_iff only).mpr rfl).2
  refine ⟨before, behind, hsplit, ?_⟩
  have hfilter := h
  rw [Only, hsplit, List.filter_append, List.filter_cons_of_pos (by simpa using hspells)] at hfilter
  have hlen := congrArg List.length hfilter
  rw [List.length_append, List.length_cons, List.length_singleton] at hlen
  have hnone : ∀ {ms : List Member}, (ms.filter fun m => decide (valueOf m.key = word)).length = 0 →
      ∀ m ∈ ms, valueOf m.key ≠ word := by
    intro ms hzero m hm hword
    have := List.filter_eq_nil_iff.mp (List.length_eq_zero_iff.mp hzero) m hm
    exact this (by simpa using hword)
  exact ⟨hnone (by omega), hnone (by omega)⟩

namespace ToolCallText

variable {call : ToolCallText}

/-- All members of the object. -/
def members (call : ToolCallText) : List Member := call.init ++ [call.last]

/-- What is read as the name is the value of its member. -/
theorem value_of_keyOf_name {m : Member} (hm : m ∈ call.members) (h : keyOf m.key = NAME) :
    m.value = quoted call.name := by
  have heq := (call.only_name.mem_iff m).mp ⟨hm, spells_of_keyOf NAME_plain h⟩
  rw [heq]
  exact call.name_value

theorem eq_of_keyOf_arguments {m : Member} (hm : m ∈ call.members) (h : keyOf m.key = ARGUMENTS) :
    m = call.argsMember := (call.only_args.mem_iff m).mp ⟨hm, spells_of_keyOf ARGUMENTS_plain h⟩

/-- Members that are not the arguments are read to their end. -/
theorem fits (hkeys : call.ClosedKeys) {m : Member} (hm : m ∈ call.members)
    (hargs : keyOf m.key = ARGUMENTS → IsContainer call.argsMember.value) : Fits m where
  closed := hkeys m hm
  name h := ⟨call.name, value_of_keyOf_name hm h⟩
  arguments h := eq_of_keyOf_arguments hm h ▸ hargs h

theorem foldl_nameAfter : ∀ {members : List Member} {name : Option Text},
    (∀ m ∈ members, m ∈ call.members) →
    members.foldl nameAfter name =
      if ∃ m ∈ members, keyOf m.key = NAME then some (textOf call.name) else name
  | [], name, _ => by simp
  | m :: members, name, h => by
      rw [List.foldl_cons, foldl_nameAfter fun m hm => h m (List.mem_cons_of_mem _ hm), nameAfter]
      by_cases hname : keyOf m.key = NAME
      · rw [if_pos hname, value_of_keyOf_name (h m List.mem_cons_self) hname, unquoted_quoted, ite_self,
          if_pos ⟨m, List.mem_cons_self, hname⟩]
      · rw [if_neg hname]
        simp [hname]

/-- The whole object, where nothing keeps the scanner from its end. -/
theorem reads_text (hkeys : call.ClosedKeys)
    (hargs : (∃ m ∈ call.members, keyOf m.key = ARGUMENTS) → IsContainer call.argsMember.value) :
    ∃ s, JsonCallScanner.Reads {} call.text s (call.members.flatMap argsOf) ∧ s.state = .done ∧
      s.name = if ∃ m ∈ call.members, keyOf m.key = NAME then some (textOf call.name) else none := by
  have hfits : ∀ m ∈ call.members, Fits m := fun m hm => fits hkeys hm fun h => hargs ⟨m, hm, h⟩
  obtain ⟨s₀, hstart, h₀⟩ := reads_start
  obtain ⟨s₁, hinit, h₁⟩ := h₀.reads_members fun m hm => hfits m (List.mem_append_left _ hm)
  obtain ⟨s₂, hlast, h₂⟩ := h₁.reads_member
    (hfits call.last (List.mem_append_right _ (List.mem_singleton_self _)))
  obtain ⟨s₃, hend, hdone, hname⟩ := h₂.reads_end
  refine ⟨s₃, ?_, hdone, ?_⟩
  · have hall := hstart.append (hinit.append (hlast.append hend))
    rw [List.nil_append, List.append_nil] at hall
    have hsplit : call.members.flatMap argsOf = call.init.flatMap argsOf ++ argsOf call.last := by
      simp [ToolCallText.members]
    rw [hsplit]
    exact hall
  · have hfold : nameAfter (call.init.foldl nameAfter none) call.last =
        call.members.foldl nameAfter none := by simp [ToolCallText.members]
    rw [hname, hfold]
    exact foldl_nameAfter fun m hm => hm

/-- Only the member that spells `arguments` can be emitted. -/
theorem flatMap_argsOf (call : ToolCallText) : call.members.flatMap argsOf = argsOf call.argsMember := by
  obtain ⟨before, behind, hsplit, hbefore, hbehind⟩ := call.only_args.split
  have hnone : ∀ {ms : List Member}, (∀ m ∈ ms, valueOf m.key ≠ ARGUMENTS) → ms.flatMap argsOf = [] := by
    intro ms hms
    refine List.flatMap_eq_nil_iff.mpr fun m hm => ?_
    rw [argsOf, if_neg fun h => hms m hm (spells_of_keyOf ARGUMENTS_plain h)]
  have hmembers : call.members = before ++ call.argsMember :: behind := hsplit
  rw [hmembers, List.flatMap_append, List.flatMap_cons, hnone hbefore, hnone hbehind, List.nil_append,
    List.append_nil]

/-- A text read to its end settles what the scanner does, however it is split. -/
theorem scans_iff_of_reads {s : JsonCallScanner} {args : Text}
    (h : JsonCallScanner.Reads {} call.text s args) (hdone : s.state = .done) :
    call.Scans ↔ s.name = some (textOf call.name) ∧ args = call.argsMember.value := by
  have hfeed : ∀ (deltas : List Text) (rest : Text), deltas.flatten = call.text ++ rest →
      feedAll {} deltas = (s, args, call.text.length) := by
    intro deltas rest hsplit
    rw [feedAll_eq, hsplit, feed_append, h, feed_of_done hdone, List.append_nil, Nat.add_zero]
  constructor
  · intro hscans
    have hone : [call.text].flatten = call.text ++ [] := by simp
    obtain ⟨-, hname, hargs, -⟩ := hscans.1 [call.text] [] hone
    rw [hfeed _ _ hone] at hname hargs
    exact ⟨hname, hargs⟩
  · rintro ⟨hname, hargs⟩
    refine ⟨fun deltas rest hsplit => ?_, fun deltas hpart hne => ?_⟩
    · rw [hfeed deltas rest hsplit]
      exact ⟨hdone, hname, hargs, rfl⟩
    · rw [feedAll_eq]
      exact h.strict hpart hne

/-- The text around the arguments. -/
theorem text_split {before behind : List Member}
    (hsplit : call.members = before ++ call.argsMember :: behind) :
    ∃ c more, (c = comma ∨ c = rbrace) ∧ call.text = [lbrace] ++
      ((before.flatMap fun m => m.text ++ [comma]) ++ (call.argsMember.text ++ ([c] ++ more))) := by
  rcases List.eq_nil_or_concat behind with rfl | ⟨behind, last, rfl⟩
  · obtain ⟨hinit, hlast⟩ := List.append_inj' hsplit rfl
    refine ⟨rbrace, [], .inr rfl, ?_⟩
    rw [text, hinit, List.cons.inj hlast |>.1]
    simp
  · have hsplit : call.init ++ [call.last] = (before ++ call.argsMember :: behind) ++ [last] := by
      have hmembers : call.init ++ [call.last] = _ := hsplit
      rw [hmembers]
      simp
    obtain ⟨hinit, hlast⟩ := List.append_inj' hsplit rfl
    refine ⟨comma, (behind.flatMap fun m => m.text ++ [comma]) ++ (call.last.text ++ [rbrace]), .inl rfl,
      ?_⟩
    rw [text, hinit]
    simp

/-- Arguments that are not a container are emitted with the character behind them. -/
theorem not_scans_of_flat (hkeys : call.ClosedKeys) (hplain : keyOf call.argsMember.key = ARGUMENTS)
    (hflat : ¬ IsContainer call.argsMember.value) : ¬ call.Scans := by
  obtain ⟨before, behind, hsplit, hbefore, -⟩ := call.only_args.split
  have hmembers : call.members = before ++ call.argsMember :: behind := hsplit
  obtain ⟨c, more, hc, htext⟩ := text_split hmembers
  obtain ⟨-, -, htrail, hafter⟩ := call.argsMember.spaces
  have hmem : call.argsMember ∈ call.members := by
    rw [hmembers]
    exact List.mem_append_right _ List.mem_cons_self
  have hfits : ∀ m ∈ before, Fits m := fun m hm => {
    closed := hkeys m (hsplit ▸ List.mem_append_left _ hm)
    name := fun h => ⟨call.name, value_of_keyOf_name (hmembers ▸ List.mem_append_left _ hm) h⟩
    arguments := fun h => absurd (spells_of_keyOf ARGUMENTS_plain h) (hbefore m hm) }
  obtain ⟨s₀, hstart, h₀⟩ := reads_start
  obtain ⟨s₁, hmany, h₁⟩ := h₀.reads_members hfits
  obtain ⟨s₂, hfront, -, h₂⟩ := h₁.reads_front call.argsMember (hkeys _ hmem)
  rw [if_neg fun h => NAME_ne_ARGUMENTS (h.symm.trans hplain), if_pos hplain] at h₂
  have hvalue := h₂.reads_flat (call.argsMember.isValue.value_cases.resolve_right
    fun hcontainer => hflat hcontainer.1).2
  obtain ⟨s₃, htake⟩ : ∃ s₃, s₂.take c = (s₃, [c]) := by
    rcases hc with rfl | rfl
    all_goals
      simp only [take, h₂.state_eq, takeArgs, h₂.inString, h₂.argsDepth rfl, Bool.false_eq_true, if_false]
      exact ⟨_, rfl⟩
  have hnone : before.flatMap argsOf = [] := List.flatMap_eq_nil_iff.mpr fun m hm => by
    rw [argsOf, if_neg fun h => hbefore m hm (spells_of_keyOf ARGUMENTS_plain h)]
  rw [hnone] at hmany
  have hmember : JsonCallScanner.Reads s₁ call.argsMember.text s₂ call.argsMember.value := by
    have hall := hfront.append ((h₂.reads_spaces (by exact nofun) htrail).append
      (hvalue.append (h₂.reads_spaces (by exact nofun) hafter)))
    rwa [List.append_nil, List.nil_append, List.nil_append] at hall
  have hread := hstart.append (hmany.append (hmember.append
    (Reads.one (h₂.ne_done (by exact nofun)) htake)))
  rw [List.nil_append, List.nil_append] at hread
  intro hscans
  have hone : [call.text].flatten = call.text ++ [] := by simp
  obtain ⟨-, -, hargs, -⟩ := hscans.1 [call.text] [] hone
  have hregroup : call.text = ([lbrace] ++ ((before.flatMap fun m => m.text ++ [comma]) ++
      (call.argsMember.text ++ [c]))) ++ more := by
    rw [htext]
    simp
  rw [feedAll_eq, hone, List.append_nil, hregroup, feed_append, hread] at hargs
  have hlen := congrArg List.length hargs
  simp only [List.length_append, List.length_singleton] at hlen
  omega

/-- **What the scanner owes, it does** if and only if the keys of the call are written without
escapes and its arguments are an object or an array, as long as no key has a colon behind an escaped
quote. -/
theorem scans_iff (call : ToolCallText) (hkeys : call.ClosedKeys) :
    call.Scans ↔ call.PlainKeys ∧ IsContainer call.argsMember.value := by
  have hname : (∃ m ∈ call.members, keyOf m.key = NAME) ↔ textOf call.nameMember.key = NAME := by
    rw [← keyOf_eq_iff NAME_plain]
    constructor
    · rintro ⟨m, hm, h⟩
      exact (call.only_name.mem_iff m).mp ⟨hm, spells_of_keyOf NAME_plain h⟩ ▸ h
    · exact fun h => ⟨_, ((call.only_name.mem_iff _).mpr rfl).1, h⟩
  have hargsKey : (∃ m ∈ call.members, keyOf m.key = ARGUMENTS) ↔
      textOf call.argsMember.key = ARGUMENTS := by
    rw [← keyOf_eq_iff ARGUMENTS_plain]
    constructor
    · rintro ⟨m, hm, h⟩
      exact eq_of_keyOf_arguments hm h ▸ h
    · exact fun h => ⟨_, ((call.only_args.mem_iff _).mpr rfl).1, h⟩
  by_cases hfine : textOf call.argsMember.key = ARGUMENTS → IsContainer call.argsMember.value
  · obtain ⟨s, hread, hdone, hsname⟩ := reads_text hkeys fun h => hfine (hargsKey.mp h)
    have hne : call.argsMember.value ≠ [] := by
      rcases call.argsMember.isValue.value_cases with ⟨-, hscalar | ⟨_, heq⟩⟩ | ⟨-, _, _, heq, -⟩
      · exact hscalar.ne_nil
      · rw [heq]
        exact List.cons_ne_nil _ _
      · rw [heq]
        exact List.cons_ne_nil _ _
    rw [scans_iff_of_reads hread hdone, hsname, flatMap_argsOf, argsOf, PlainKeys]
    constructor
    · rintro ⟨hsome, hargs⟩
      have hplain : textOf call.argsMember.key = ARGUMENTS := by
        rw [← keyOf_eq_iff ARGUMENTS_plain]
        by_contra hnot
        rw [if_neg hnot] at hargs
        exact hne hargs.symm
      refine ⟨⟨hname.mp ?_, hplain⟩, hfine hplain⟩
      by_contra hnot
      rw [if_neg hnot] at hsome
      cases hsome
    · rintro ⟨⟨hplainName, hplainArgs⟩, -⟩
      exact ⟨if_pos (hname.mpr hplainName), if_pos ((keyOf_eq_iff ARGUMENTS_plain).mpr hplainArgs)⟩
  · rw [Classical.not_imp] at hfine
    have hkey : keyOf call.argsMember.key = ARGUMENTS := (keyOf_eq_iff ARGUMENTS_plain).mpr hfine.1
    exact ⟨fun h => absurd h (not_scans_of_flat hkeys hkey hfine.2), fun h => absurd h.2 hfine.2⟩

/-- The member `word : value`, with a space after the colon. -/
def plainMember (word value : Text) (hword : ∀ c ∈ word, 32 ≤ c ∧ c ≠ quote ∧ c ≠ backslash)
    (hvalue : Json .value value) : Member where
  lead := []
  key := word.pmap Piece.plain hword
  mid := []
  trail := [32]
  value
  after := []
  spaces := ⟨nofun, nofun, by simp [Spaces], nofun⟩
  isValue := hvalue

/-- The object `{"name": "f","arguments": value}`. -/
def callWith (value : Text) (hvalue : Json .value value) : ToolCallText where
  init := [plainMember NAME (quoted [.plain 102 (by decide)]) (by decide) (.string _)]
  last := plainMember ARGUMENTS value (by decide) hvalue
  nameMember := plainMember NAME (quoted [.plain 102 (by decide)]) (by decide) (.string _)
  name := [.plain 102 (by decide)]
  argsMember := plainMember ARGUMENTS value (by decide) hvalue
  only_name := rfl
  name_value := rfl
  only_args := rfl

theorem callWith_closed (value : Text) (hvalue : Json .value value) :
    (callWith value hvalue).ClosedKeys := by
  intro m hm
  have hname : colon ∉ (textOf (NAME.pmap Piece.plain (by decide))).dropWhile
      fun c => decide (c ≠ quote) := by decide
  have harguments : colon ∉ (textOf (ARGUMENTS.pmap Piece.plain (by decide))).dropWhile
      fun c => decide (c ≠ quote) := by decide
  rcases List.mem_cons.mp hm with rfl | hm
  · exact hname
  · rw [List.mem_singleton.mp hm]
    exact harguments

/-- The empty array. -/
theorem json_brackets : Json .value [lbracket, rbracket] :=
  .empty false fun _ hc => absurd hc List.not_mem_nil

/-- The arguments `[]`. -/
theorem scans_iff_array : (callWith [lbracket, rbracket] json_brackets).Scans ↔
    (callWith [lbracket, rbracket] json_brackets).PlainKeys ∧
      IsContainer (callWith [lbracket, rbracket] json_brackets).argsMember.value :=
  scans_iff (callWith [lbracket, rbracket] json_brackets) (callWith_closed _ _)

/-- The arguments `null`: the brace that ends the object is emitted as a part of them. -/
theorem null_not_scanned :
    ¬ (callWith [110, 117, 108, 108] (.scalar (.inr (.inr (.inl rfl))))).Scans := by
  intro hscans
  have hone : [(callWith [110, 117, 108, 108] (.scalar (.inr (.inr (.inl rfl))))).text].flatten =
      (callWith [110, 117, 108, 108] (.scalar (.inr (.inr (.inl rfl))))).text ++ [] := by simp
  have hdone := (hscans.1 _ _ hone).1
  revert hdone
  decide +kernel

end ToolCallText

end Qwen

end RapidLlm
