import Mathlib.Data.List.Basic

/-!
# RapidLlm.Lib.JsonText

The texts of JSON, and how deep they nest.

* `Json` is the grammar, over code points: a value, or the items of an array or an object. `Piece`s
  are what a string is written with; they have a text and a value.
* `Nesting` counts brackets outside strings. `Json.walk`: a value ends at the depth and outside the
  string it began at, and on that level it has no comma and closes nothing. So a program that counts
  brackets finds the end of a value.
-/

namespace RapidLlm.JsonText

/-! ### Characters -/

abbrev quote : Nat := 34

abbrev backslash : Nat := 92

abbrev comma : Nat := 44

abbrev colon : Nat := 58

abbrev lbrace : Nat := 123

abbrev rbrace : Nat := 125

abbrev lbracket : Nat := 91

abbrev rbracket : Nat := 93

/-- Whitespace: tab, newline, carriage return, space. -/
def Spaces (s : List Nat) : Prop := ∀ c ∈ s, c = 9 ∨ c = 10 ∨ c = 13 ∨ c = 32

/-- A hexadecimal digit. -/
def IsHex (c : Nat) : Prop := 48 ≤ c ∧ c ≤ 57 ∨ 65 ≤ c ∧ c ≤ 70 ∨ 97 ≤ c ∧ c ≤ 102

/-- The value of a hexadecimal digit. -/
def hexValue (c : Nat) : Nat := if c ≤ 57 then c - 48 else if c ≤ 70 then c - 55 else c - 87

/-- A character that may follow a backslash, and the character it stands for. -/
def escapes : List (Nat × Nat) :=
  [(34, 34), (92, 92), (47, 47), (98, 8), (102, 12), (110, 10), (114, 13), (116, 9)]

/-! ### Strings -/

/-- What a string is written with. -/
inductive Piece
  | plain (c : Nat) (h : 32 ≤ c ∧ c ≠ quote ∧ c ≠ backslash)
  | escape (c value : Nat) (h : (c, value) ∈ escapes)
  | unicode (a b c d : Nat) (h : IsHex a ∧ IsHex b ∧ IsHex c ∧ IsHex d)

/-- A piece as it is written. -/
def Piece.text : Piece → List Nat
  | plain c _ => [c]
  | escape c _ _ => [backslash, c]
  | unicode a b c d _ => [backslash, 117, a, b, c, d]

/-- What a piece stands for. -/
def Piece.value : Piece → Nat
  | plain c _ => c
  | escape _ value _ => value
  | unicode a b c d _ => ((hexValue a * 16 + hexValue b) * 16 + hexValue c) * 16 + hexValue d

/-- A string as it is written between its quotes. -/
def textOf (pieces : List Piece) : List Nat := pieces.flatMap Piece.text

/-- The code units a string stands for. -/
def valueOf (pieces : List Piece) : List Nat := pieces.map Piece.value

/-! ### Numbers and literals -/

def Digits (s : List Nat) : Prop := s ≠ [] ∧ ∀ c ∈ s, 48 ≤ c ∧ c ≤ 57

/-- An integer without leading zeros, a fraction and an exponent. -/
def IntPart (s : List Nat) : Prop := s = [48] ∨ Digits s ∧ s.head? ≠ some 48

def FracPart (s : List Nat) : Prop := s = [] ∨ ∃ digits, Digits digits ∧ s = 46 :: digits

def ExpPart (s : List Nat) : Prop :=
  s = [] ∨ ∃ e sign digits, (e = 101 ∨ e = 69) ∧ (sign = [] ∨ sign = [43] ∨ sign = [45]) ∧
    Digits digits ∧ s = e :: (sign ++ digits)

def Number (s : List Nat) : Prop :=
  ∃ minus int frac exp, (minus = [] ∨ minus = [45]) ∧ IntPart int ∧ FracPart frac ∧ ExpPart exp ∧
    s = minus ++ (int ++ (frac ++ exp))

/-- `true`, `false`, `null`, or a number. -/
def Scalar (s : List Nat) : Prop :=
  s = [116, 114, 117, 101] ∨ s = [102, 97, 108, 115, 101] ∨ s = [110, 117, 108, 108] ∨ Number s

/-! ### Values -/

/-- What opens an object and an array. -/
def opening (keyed : Bool) : Nat := if keyed then lbrace else lbracket

def closing (keyed : Bool) : Nat := if keyed then rbrace else rbracket

/-- A string with its quotes. -/
def quoted (pieces : List Piece) : List Nat := quote :: (textOf pieces ++ [quote])

/-- What stands before the value of an item: whitespace in an array, a key and a colon in an
object. -/
def Head : Bool → List Nat → Prop
  | false, s => Spaces s
  | true, s => ∃ lead key mid trail, Spaces lead ∧ Spaces mid ∧ Spaces trail ∧
      s = lead ++ (quoted key ++ (mid ++ colon :: trail))

/-- A value, or the items of a container. -/
inductive Part
  | value
  | items (keyed : Bool)

/-- **The grammar.** -/
inductive Json : Part → List Nat → Prop
  | scalar {s : List Nat} : Scalar s → Json .value s
  | string (pieces : List Piece) : Json .value (quoted pieces)
  | empty (keyed : Bool) {s : List Nat} : Spaces s →
      Json .value (opening keyed :: (s ++ [closing keyed]))
  | container {keyed : Bool} {s : List Nat} : Json (.items keyed) s →
      Json .value (opening keyed :: (s ++ [closing keyed]))
  | last {keyed : Bool} {head value trail : List Nat} : Head keyed head → Json .value value →
      Spaces trail → Json (.items keyed) (head ++ (value ++ trail))
  | more {keyed : Bool} {head value trail s : List Nat} : Head keyed head → Json .value value →
      Spaces trail → Json (.items keyed) s →
      Json (.items keyed) (head ++ (value ++ (trail ++ comma :: s)))

/-- An object or an array, as opposed to a string, a number or a literal. -/
def IsContainer (s : List Nat) : Prop := s.head? = some lbrace ∨ s.head? = some lbracket

/-! ### Characters that structure nothing -/

/-- A character of a number or a literal. -/
def Bare (c : Nat) : Prop :=
  32 < c ∧ c ≠ quote ∧ c ≠ backslash ∧ c ≠ comma ∧ c ≠ colon ∧ c ≠ lbrace ∧ c ≠ rbrace ∧
    c ≠ lbracket ∧ c ≠ rbracket

theorem bare_of {c : Nat} (h : 43 ≤ c ∧ c ≤ 57 ∧ c ≠ 44 ∨ c = 69 ∨ 97 ≤ c ∧ c ≤ 122) : Bare c := by
  show 32 < c ∧ c ≠ 34 ∧ c ≠ 92 ∧ c ≠ 44 ∧ c ≠ 58 ∧ c ≠ 123 ∧ c ≠ 125 ∧ c ≠ 91 ∧ c ≠ 93
  omega

theorem Digits.bare {s : List Nat} (h : Digits s) {c : Nat} (hc : c ∈ s) : Bare c := by
  have := h.2 c hc
  exact bare_of (by omega)

theorem Number.bare {s : List Nat} (h : Number s) {c : Nat} (hc : c ∈ s) : Bare c := by
  obtain ⟨minus, int, frac, exp, hminus, hint, hfrac, hexp, rfl⟩ := h
  rw [List.mem_append, List.mem_append, List.mem_append] at hc
  rcases hc with hc | hc | hc | hc
  · rcases hminus with rfl | rfl
    · cases hc
    · rw [List.mem_singleton.mp hc]
      exact bare_of (by omega)
  · rcases hint with rfl | ⟨hdigits, -⟩
    · rw [List.mem_singleton.mp hc]
      exact bare_of (by omega)
    · exact hdigits.bare hc
  · rcases hfrac with rfl | ⟨digits, hdigits, rfl⟩
    · cases hc
    · rcases List.mem_cons.mp hc with rfl | hc
      · exact bare_of (by omega)
      · exact hdigits.bare hc
  · rcases hexp with rfl | ⟨e, sign, digits, he, hsign, hdigits, rfl⟩
    · cases hc
    · rcases List.mem_cons.mp hc with rfl | hc
      · exact bare_of (by omega)
      rcases List.mem_append.mp hc with hc | hc
      · rcases hsign with rfl | rfl | rfl
        · cases hc
        all_goals
          rw [List.mem_singleton.mp hc]
          exact bare_of (by omega)
      · exact hdigits.bare hc

theorem Scalar.bare {s : List Nat} (h : Scalar s) {c : Nat} (hc : c ∈ s) : Bare c := by
  rcases h with rfl | rfl | rfl | hnumber
  case inr.inr.inr => exact hnumber.bare hc
  all_goals
    simp only [List.mem_cons, List.not_mem_nil, or_false] at hc
    exact bare_of (by omega)

theorem Scalar.ne_nil {s : List Nat} (h : Scalar s) : s ≠ [] := by
  rcases h with rfl | rfl | rfl | ⟨minus, int, frac, exp, -, hint, -, -, rfl⟩
  case inr.inr.inr =>
    have hne : int ≠ [] := by
      rcases hint with rfl | ⟨hdigits, -⟩
      · exact List.cons_ne_nil _ _
      · exact hdigits.1
    simp [hne]
  all_goals exact List.cons_ne_nil _ _

/-! ### Nesting -/

/-- Where a program that counts brackets stands. -/
structure Nesting where
  depth : Nat
  inString : Bool
  escaped : Bool

/-- Outside any string. -/
def outside (depth : Nat) : Nesting := ⟨depth, false, false⟩

namespace Nesting

/-- One character on. -/
def step (n : Nesting) (c : Nat) : Nesting :=
  if n.inString then
    if n.escaped then { n with escaped := false }
    else if c = backslash then { n with escaped := true }
    else if c = quote then { n with inString := false }
    else n
  else if c = quote then { n with inString := true }
  else if c = lbrace ∨ c = lbracket then { n with depth := n.depth + 1 }
  else if c = rbrace ∨ c = rbracket then { n with depth := n.depth - 1 }
  else n

def walk (n : Nesting) (s : List Nat) : Nesting := s.foldl step n

end Nesting

/-- Every character of a text is met in a state that admits it. -/
def Along (ok : Nesting → Nat → Prop) : Nesting → List Nat → Prop
  | _, [] => True
  | n, c :: s => ok n c ∧ Along ok (n.step c) s

/-- A character that closes a container. -/
def Closes (c : Nat) : Prop := c = rbrace ∨ c = rbracket

/-- A character that ends a value. -/
def EndsValue (c : Nat) : Prop := c = comma ∨ Closes c

/-- On level `base` no character is `bad`. -/
def Within (bad : Nat → Prop) (base : Nat) (n : Nesting) (c : Nat) : Prop :=
  n.inString = true ∨ base < n.depth ∨ ¬ bad c

variable {ok ok' : Nesting → Nat → Prop} {bad : Nat → Prop} {n : Nesting} {d : Nat} {s s' : List Nat}

@[simp] theorem walk_nil (n : Nesting) : n.walk [] = n := rfl

@[simp] theorem walk_cons (n : Nesting) (c : Nat) (s : List Nat) :
    n.walk (c :: s) = (n.step c).walk s := rfl

@[simp] theorem walk_append (n : Nesting) (s s' : List Nat) :
    n.walk (s ++ s') = (n.walk s).walk s' := List.foldl_append ..

theorem along_append : ∀ {s : List Nat} {n : Nesting},
    Along ok n (s ++ s') ↔ Along ok n s ∧ Along ok (n.walk s) s'
  | [], n => by simp [Along]
  | c :: s, n => by
      rw [List.cons_append, Along, Along, along_append, walk_cons, and_assoc]

theorem Along.mono (hok : ∀ n c, ok n c → ok' n c) : ∀ {s : List Nat} {n : Nesting},
    Along ok n s → Along ok' n s
  | [], _, _ => trivial
  | c :: _, n, h => ⟨hok n c h.1, h.2.mono hok⟩

theorem step_depth (h : Within Closes (d + 1) n c) (hd : d + 1 ≤ n.depth) : d + 1 ≤ (n.step c).depth := by
  unfold Nesting.step
  split
  · split
    · exact hd
    · split
      · exact hd
      · split <;> exact hd
  · rename_i hout
    split
    · exact hd
    · split
      · exact Nat.le_succ_of_le hd
      · split
        · rename_i hcloses
          rcases h with hin | hdeep | hnot
          · exact absurd hin hout
          · exact Nat.le_sub_one_of_lt hdeep
          · exact absurd hcloses hnot
        · exact hd

/-- Where nothing closes on level `d + 1`, the text stays on this level or above. -/
theorem Along.deep : ∀ {s : List Nat} {n : Nesting}, Along (Within Closes (d + 1)) n s →
    d + 1 ≤ n.depth → Along (fun n c => Within Closes (d + 1) n c ∧ d + 1 ≤ n.depth) n s
  | [], _, _, _ => trivial
  | _ :: _, _, h, hd => ⟨⟨h.1, hd⟩, h.2.deep (step_depth h.1 hd)⟩

/-! ### A value keeps its level -/

/-- Characters that neither nest nor quote. -/
theorem walk_quiet (h : ∀ c ∈ s, c ≠ quote ∧ c ≠ lbrace ∧ c ≠ lbracket ∧ ¬ Closes c) (d : Nat) :
    (outside d).walk s = outside d := by
  induction s with
  | nil => rfl
  | cons c s ih =>
    obtain ⟨hq, hb, hk, hc⟩ := h c List.mem_cons_self
    have hstep : (outside d).step c = outside d := by
      unfold Nesting.step
      unfold Closes at hc
      rw [if_neg (by simp [outside]), if_neg hq, if_neg (by simp [hb, hk]), if_neg hc]
    rw [walk_cons, hstep, ih fun c hc => h c (List.mem_cons_of_mem _ hc)]

theorem along_quiet (h : ∀ c ∈ s, c ≠ quote ∧ c ≠ lbrace ∧ c ≠ lbracket ∧ ¬ Closes c)
    (hok : ∀ c ∈ s, ok (outside d) c) : Along ok (outside d) s := by
  induction s with
  | nil => trivial
  | cons c s ih =>
    have hstep : (outside d).step c = outside d :=
      walk_quiet (s := [c]) (fun c' hc' => h c' (by rw [List.mem_singleton.mp hc']; simp)) d
    refine ⟨hok c List.mem_cons_self, ?_⟩
    rw [hstep]
    exact ih (fun c hc => h c (List.mem_cons_of_mem _ hc)) fun c hc =>
      hok c (List.mem_cons_of_mem _ hc)

theorem Spaces.quiet (h : Spaces s) : ∀ c ∈ s, c ≠ quote ∧ c ≠ lbrace ∧ c ≠ lbracket ∧ ¬ Closes c := by
  intro c hc
  have := h c hc
  show c ≠ 34 ∧ c ≠ 123 ∧ c ≠ 91 ∧ ¬ (c = 125 ∨ c = 93)
  omega

theorem Scalar.quiet (h : Scalar s) : ∀ c ∈ s, c ≠ quote ∧ c ≠ lbrace ∧ c ≠ lbracket ∧ ¬ Closes c := by
  intro c hc
  obtain ⟨-, hq, -, -, -, hb, hcb, hk, hck⟩ := h.bare hc
  exact ⟨hq, hb, hk, fun h => h.elim hcb hck⟩

/-- Inside a string, after whole pieces. -/
def inside (depth : Nat) : Nesting := ⟨depth, true, false⟩

theorem step_inside {c : Nat} (hq : c ≠ quote) (hb : c ≠ backslash) (d : Nat) :
    (inside d).step c = inside d := by
  unfold Nesting.step
  simp only [inside, if_true, Bool.false_eq_true, if_false, if_neg hb, if_neg hq]

theorem IsHex.ne {c : Nat} (h : IsHex c) : c ≠ quote ∧ c ≠ backslash := by
  unfold IsHex at h
  show c ≠ 34 ∧ c ≠ 92
  omega

theorem walk_piece (piece : Piece) (d : Nat) : (inside d).walk piece.text = inside d := by
  cases piece with
  | plain c h => exact step_inside h.2.1 h.2.2 d
  | escape c value h => rfl
  | unicode a b c e h =>
    obtain ⟨ha, hb, hc, he⟩ := h
    have hstep : (inside d).walk (Piece.unicode a b c e ⟨ha, hb, hc, he⟩).text =
        (inside d).walk [a, b, c, e] := rfl
    rw [hstep, walk_cons, walk_cons, walk_cons, walk_cons, walk_nil, step_inside ha.ne.1 ha.ne.2,
      step_inside hb.ne.1 hb.ne.2, step_inside hc.ne.1 hc.ne.2, step_inside he.ne.1 he.ne.2]

/-- A string is read through to its closing quote. -/
theorem walk_text (pieces : List Piece) (d : Nat) : (inside d).walk (textOf pieces) = inside d := by
  induction pieces with
  | nil => rfl
  | cons piece pieces ih => rw [textOf, List.flatMap_cons, walk_append, walk_piece]; exact ih

theorem along_piece (hok : ∀ n c, n.inString = true → ok n c) (piece : Piece) (d : Nat) :
    Along ok (inside d) piece.text := by
  cases piece with
  | plain c h => exact ⟨hok _ _ rfl, trivial⟩
  | escape c value h => exact ⟨hok _ _ rfl, hok _ _ rfl, trivial⟩
  | unicode a b c e h =>
    obtain ⟨ha, hb, hc, he⟩ := h
    have hstep : ∀ {x : Nat}, IsHex x → (inside d).step x = inside d := fun hx =>
      step_inside hx.ne.1 hx.ne.2 d
    refine ⟨hok _ _ rfl, hok _ _ rfl, ?_⟩
    show Along ok (inside d) [a, b, c, e]
    simp only [Along, hstep ha, hstep hb, hstep hc, and_true]
    exact ⟨hok _ _ rfl, hok _ _ rfl, hok _ _ rfl, hok _ _ rfl⟩

theorem along_text (hok : ∀ n c, n.inString = true → ok n c) (pieces : List Piece) (d : Nat) :
    Along ok (inside d) (textOf pieces) := by
  induction pieces with
  | nil => trivial
  | cons piece pieces ih =>
    rw [textOf, List.flatMap_cons, along_append, walk_piece]
    exact ⟨along_piece hok piece d, ih⟩

theorem walk_quoted (pieces : List Piece) (d : Nat) : (outside d).walk (quoted pieces) = outside d := by
  have hopen : (outside d).step quote = inside d := rfl
  rw [quoted, walk_cons, hopen, walk_append, walk_text]
  rfl

theorem along_quoted (hok : ∀ n c, n.inString = true → ok n c) (hquote : ok (outside d) quote)
    (pieces : List Piece) : Along ok (outside d) (quoted pieces) := by
  have hopen : (outside d).step quote = inside d := rfl
  rw [quoted, Along, hopen, along_append, walk_text]
  exact ⟨hquote, along_text hok pieces d, hok _ _ rfl, trivial⟩

theorem Within.of_inString (n : Nesting) (c : Nat) (h : n.inString = true) : Within bad d n c := .inl h

theorem Spaces.walk (h : Spaces s) (d : Nat) : (outside d).walk s = outside d ∧
    Along (Within Closes d) (outside d) s :=
  ⟨walk_quiet h.quiet d, along_quiet h.quiet fun c hc => .inr (.inr (h.quiet c hc).2.2.2)⟩

theorem Head.walk {keyed : Bool} (h : Head keyed s) (d : Nat) :
    (outside d).walk s = outside d ∧ Along (Within Closes d) (outside d) s := by
  cases keyed with
  | false => exact Spaces.walk h d
  | true =>
    obtain ⟨lead, key, mid, trail, hlead, hmid, htrail, rfl⟩ := h
    have hcolon : (outside d).step colon = outside d := rfl
    rw [walk_append, (hlead.walk d).1, walk_append, walk_quoted, walk_append, (hmid.walk d).1,
      walk_cons, hcolon, (htrail.walk d).1, along_append, (hlead.walk d).1, along_append, walk_quoted,
      along_append, (hmid.walk d).1, Along, hcolon]
    refine ⟨rfl, (hlead.walk d).2, along_quoted Within.of_inString (.inr (.inr ?_)) key,
      (hmid.walk d).2, .inr (.inr ?_), (htrail.walk d).2⟩
    · exact fun h => absurd h (by unfold Closes; decide)
    · exact fun h => absurd h (by unfold Closes; decide)

/-- The characters that would end a value, or close a container, too early. -/
def Part.early : Part → Nat → Prop
  | value => EndsValue
  | items _ => Closes

theorem step_opening (keyed : Bool) (d : Nat) : (outside d).step (opening keyed) = outside (d + 1) := by
  cases keyed <;> rfl

theorem step_closing (keyed : Bool) (d : Nat) : (outside (d + 1)).step (closing keyed) = outside d := by
  cases keyed <;> rfl

/-- A container keeps the level it stands on, whatever fills it. -/
theorem walk_container (keyed : Bool) (hwalk : (outside (d + 1)).walk s = outside (d + 1))
    (halong : Along (Within Closes (d + 1)) (outside (d + 1)) s) :
    (outside d).walk (opening keyed :: (s ++ [closing keyed])) = outside d ∧
      Along (Within EndsValue d) (outside d) (opening keyed :: (s ++ [closing keyed])) := by
  rw [walk_cons, step_opening, walk_append, hwalk, walk_cons, step_closing, Along, step_opening,
    along_append, hwalk]
  refine ⟨rfl, .inr (.inr ?_), (halong.deep (Nat.le_refl _)).mono fun n c h => .inr (.inl h.2),
    .inr (.inl (Nat.lt_succ_self d)), trivial⟩
  cases keyed <;> (unfold EndsValue Closes; decide)

/-- **A value keeps the level it stands on**, and has no comma and no closing bracket there. -/
theorem Json.walk {part : Part} (h : Json part s) : ∀ d : Nat, (outside d).walk s = outside d ∧
    Along (Within part.early d) (outside d) s := by
  have hweak : ∀ {s : List Nat} {d : Nat}, Along (Within EndsValue d) (outside d) s →
      Along (Within Closes d) (outside d) s := fun h =>
    h.mono fun n c hc => hc.imp_right (Or.imp_right fun hnot hcloses => hnot (.inr hcloses))
  induction h with
  | scalar hs =>
    intro d
    refine ⟨walk_quiet hs.quiet d, along_quiet hs.quiet fun c hc => .inr (.inr fun hends => ?_)⟩
    exact hends.elim (hs.bare hc).2.2.2.1 (hs.quiet c hc).2.2.2
  | string pieces =>
    intro d
    refine ⟨walk_quoted pieces d, along_quoted Within.of_inString (.inr (.inr ?_)) pieces⟩
    show ¬ EndsValue quote
    unfold EndsValue Closes
    decide
  | empty keyed hs =>
    intro d
    exact walk_container keyed (hs.walk (d + 1)).1 (hs.walk (d + 1)).2
  | container _ ih =>
    intro d
    exact walk_container _ (ih (d + 1)).1 (ih (d + 1)).2
  | last hhead _ htrail ih =>
    intro d
    obtain ⟨hh, ha⟩ := hhead.walk d
    rw [walk_append, hh, walk_append, (ih d).1, (htrail.walk d).1, along_append, hh, along_append,
      (ih d).1]
    exact ⟨rfl, ha, hweak (ih d).2, (htrail.walk d).2⟩
  | more hhead _ htrail _ ih ih' =>
    intro d
    obtain ⟨hh, ha⟩ := hhead.walk d
    have hcomma : (outside d).step comma = outside d := rfl
    rw [walk_append, hh, walk_append, (ih d).1, walk_append, (htrail.walk d).1, walk_cons, hcomma,
      (ih' d).1, along_append, hh, along_append, (ih d).1, along_append, (htrail.walk d).1, Along,
      hcomma]
    refine ⟨rfl, ha, hweak (ih d).2, (htrail.walk d).2, .inr (.inr ?_), (ih' d).2⟩
    show ¬ Closes comma
    unfold Closes
    decide

/-- A value is a container, whose inside stays a level higher, or it is written without nesting. -/
theorem Json.value_cases (h : Json .value s) :
    (¬ IsContainer s ∧ (Scalar s ∨ ∃ pieces, s = quoted pieces)) ∨
      (IsContainer s ∧ ∃ keyed body, s = opening keyed :: (body ++ [closing keyed]) ∧
        (outside 1).walk body = outside 1 ∧ Along (Within Closes 1) (outside 1) body) := by
  have hopen : ∀ (keyed : Bool) (body : List Nat),
      IsContainer (opening keyed :: (body ++ [closing keyed])) := by
    intro keyed body
    cases keyed
    · exact .inr rfl
    · exact .inl rfl
  cases h with
  | scalar hs =>
    refine .inl ⟨fun hcontainer => ?_, .inl hs⟩
    rcases hcontainer with hhead | hhead
    · exact (hs.bare (List.mem_of_mem_head? hhead)).2.2.2.2.2.1 rfl
    · exact (hs.bare (List.mem_of_mem_head? hhead)).2.2.2.2.2.2.2.1 rfl
  | string pieces =>
    refine .inl ⟨fun hcontainer => ?_, .inr ⟨pieces, rfl⟩⟩
    rcases hcontainer with hhead | hhead
    · exact absurd (Option.some.inj hhead) (by decide)
    · exact absurd (Option.some.inj hhead) (by decide)
  | empty keyed hs => exact .inr ⟨hopen keyed _, keyed, _, rfl, hs.walk 1⟩
  | container hs => exact .inr ⟨hopen _ _, _, _, rfl, hs.walk 1⟩

end RapidLlm.JsonText
