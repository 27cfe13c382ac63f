import RapidLlm.Engine.QwenToolParser

/-!
# RapidLlm.Engine.QwenChunking

**Where the chunking shows.** A stream is a `Reading` that pauses at the end of every delta, and
`parse` is one that does not pause (`scan`). Side by side they are always in the same section
(`Beside`). What a pause does shows in two ways:

* text behind an object that was shown in a pause stays content, and without the pause it is dropped
  with the closing tag;
* a name that was announced in a pause stays the name of the call, and without the pause a later
  `name` key of the object replaces it.

`Straight` is two readings that have come to the same so far and will not part, `Bent` two that have
parted or will. Every character keeps either, and a pause turns the first into the second exactly as
`LeaksGap` and `Renames` say (`qwen_stream_eq_parse_iff`).
-/

namespace RapidLlm

open TagSearch

namespace Qwen

variable {a b : Reading} {scanner : JsonCallScanner} {args text rest : Text} {c : Nat}

/-! ### Names stay -/

namespace JsonCallScanner

theorem trackString_name (scanner : JsonCallScanner) (c : Nat) :
    (scanner.trackString c).name = scanner.name := by
  unfold trackString
  split_ifs <;> rfl

/-- A name may be replaced, but not forgotten. -/
theorem take_name (h : scanner.name.isSome) (c : Nat) : (scanner.take c).1.name.isSome := by
  unfold take
  split
  · unfold takeArgs
    split_ifs <;> first | exact h | exact (trackString_name scanner c).symm ▸ h
  · unfold takeName
    split_ifs <;> first | exact h | rfl
  · unfold takeOther
    split_ifs <;> first | exact h | exact (trackString_name scanner c).symm ▸ h
  · unfold takeColon
    split_ifs <;> exact h
  · unfold takeKey
    split_ifs <;> exact h

theorem feed_of_done (h : scanner.state = .done) (text : Text) : scanner.feed text = (scanner, [], 0) := by
  cases text with
  | nil => rfl
  | cons c text => rw [feed, if_pos h]

theorem feed_cons (h : scanner.state ≠ .done) (c : Nat) (text : Text) :
    (scanner.feed (c :: text)).1 = ((scanner.take c).1.feed text).1 := by
  rw [feed, if_neg h]

end JsonCallScanner

/-! ### Two readings side by side -/

/-- A section without what pauses have done. -/
def Place.plain : Place → Place
  | outside text => outside text
  | scanning scanner args _ => scanning scanner args none
  | closing gap _ => closing gap []

/-- What is true of every section a reading comes to. -/
def Place.Fine : Place → Prop
  | outside _ => True
  | scanning scanner _ announced => scanner.state ≠ .done ∧ (announced.isSome → scanner.name.isSome)
  | closing gap shown => find QWEN_CLOSE gap = none ∧ shown <+: safePart gap QWEN_CLOSE

/-- A reading that pauses, and one that does not. -/
structure Beside (a b : Reading) : Prop where
  place : b.place = a.place.plain
  fine : a.place.Fine
  calls : a.calls.length = b.calls.length
  content : b.content.length ≤ a.content.length

/-- With this text to come, a pause that has been will show. -/
def Bends (place : Place) (rest : Text) : Prop :=
  match place with
  | .outside _ => False
  | .scanning scanner _ announced =>
      announced.isSome ∧ (scanner.feed rest).1.name ≠ announced
  | .closing gap shown => shown ≠ [] ∧ QWEN_CLOSE <:+: gap ++ rest

/-- Two readings that have come to the same, and will not part. -/
structure Straight (a b : Reading) (rest : Text) : Prop extends Beside a b where
  same : a.content = b.content ∧ a.calls = b.calls
  stays : ¬ Bends a.place rest

/-- Two readings that have parted, or will. -/
structure Bent (a b : Reading) (rest : Text) : Prop extends Beside a b where
  parts : b.content.length < a.content.length ∨ a.calls ≠ b.calls ∨ Bends a.place rest

theorem addCall_length {calls calls' : List ToolCall} {name name' : Option Text} {args args' : Text}
    (h : calls.length = calls'.length) (hname : name.isSome = name'.isSome) :
    (addCall calls name args).length = (addCall calls' name' args').length := by
  cases name <;> cases name'
  · exact h
  · cases hname
  · cases hname
  · simp only [addCall, List.length_append, h]
    rfl

/-- Calls that have parted stay so. -/
theorem addCall_ne {calls calls' : List ToolCall} {name name' : Option Text} {args : Text}
    (hname : name.isSome = name'.isSome) (h : calls ≠ calls' ∨ name ≠ name') :
    addCall calls name args ≠ addCall calls' name' args := by
  cases name with
  | none =>
    cases name' with
    | none => exact h.resolve_right fun hne => hne rfl
    | some _ => cases hname
  | some name =>
    cases name' with
    | none => cases hname
    | some name' =>
      intro heq
      obtain ⟨hcalls, hlast⟩ := List.append_inj' heq rfl
      have hsame : name = name' := congrArg ToolCall.name (List.cons.inj hlast).1
      exact h.elim (fun hne => hne hcalls) fun hne => hne (congrArg some hsame)

/-- The name a call gets: it is known in both. -/
theorem isSome_or_name {announced name : Option Text} (h : announced.isSome → name.isSome) :
    (announced.or name).isSome = name.isSome := by
  cases announced with
  | none => rfl
  | some _ => exact (h rfl).symm

theorem infix_of_suffix_concat {gap : Text} (h : QWEN_CLOSE <:+ gap ++ [c]) (rest : Text) :
    QWEN_CLOSE <:+: gap ++ c :: rest := by
  rw [← List.singleton_append, ← List.append_assoc]
  exact h.isInfix.trans (List.prefix_append _ _).isInfix

theorem append_cons_eq (gap : Text) (c : Nat) (rest : Text) :
    gap ++ [c] ++ rest = gap ++ c :: rest := by
  rw [List.append_assoc, List.singleton_append]

/-! ### One character -/

theorem Beside.take (h : Beside a b) (c : Nat) : Beside (a.take c) (b.take c) := by
  obtain ⟨place, content, calls⟩ := a
  obtain ⟨place', content', calls'⟩ := b
  obtain ⟨hplace, hfine, hcalls, hcontent⟩ := h
  obtain rfl : place' = place.plain := hplace
  cases place with
  | outside text =>
    by_cases hsuf : QWEN_OPEN <:+ text ++ [c]
    · simp only [Reading.take, Place.plain, if_pos hsuf]
      refine ⟨rfl, ⟨ScanState.noConfusion, fun h => h⟩, hcalls, ?_⟩
      simp only [List.length_append]
      exact Nat.add_le_add_right hcontent _
    · simp only [Reading.take, Place.plain, if_neg hsuf]
      exact ⟨rfl, trivial, hcalls, hcontent⟩
  | scanning scanner args announced =>
    obtain ⟨hdone, hnamed⟩ := hfine
    have hnext : announced.isSome → (scanner.take c).1.name.isSome := fun hsome =>
      JsonCallScanner.take_name (hnamed hsome) c
    by_cases hover : (scanner.take c).1.state = .done
    · simp only [Reading.take, Place.plain, if_pos hover]
      refine ⟨rfl, ⟨rfl, List.nil_prefix⟩, addCall_length hcalls ?_, hcontent⟩
      rw [isSome_or_name hnext, Option.none_or]
    · simp only [Reading.take, Place.plain, if_neg hover]
      exact ⟨rfl, ⟨hover, hnext⟩, hcalls, hcontent⟩
  | closing gap shown =>
    obtain ⟨hgap, hshown⟩ := hfine
    by_cases hsuf : QWEN_CLOSE <:+ gap ++ [c]
    · simp only [Reading.take, Place.plain, if_pos hsuf]
      refine ⟨rfl, trivial, hcalls, ?_⟩
      rw [List.append_nil, List.length_append]
      exact hcontent.trans (Nat.le_add_right _ _)
    · simp only [Reading.take, Place.plain, if_neg hsuf]
      refine ⟨rfl, ⟨find_concat_of_not_suffix hgap hsuf, ?_⟩, hcalls, hcontent⟩
      rw [safePart_append_more hgap]
      exact hshown.trans (List.prefix_append _ _)

/-- What is straight stays so. -/
theorem Straight.take (h : Straight a b (c :: rest)) : Straight (a.take c) (b.take c) rest := by
  have hbeside := h.toBeside.take c
  obtain ⟨place, content, calls⟩ := a
  obtain ⟨place', content', calls'⟩ := b
  obtain ⟨⟨hplace, hfine, _, _⟩, ⟨hcontent, hcalls⟩, hstays⟩ := h
  obtain rfl : place' = place.plain := hplace
  obtain rfl : content = content' := hcontent
  obtain rfl : calls = calls' := hcalls
  refine ⟨hbeside, ?_, ?_⟩
  all_goals clear hbeside
  · cases place with
    | outside text =>
      by_cases hsuf : QWEN_OPEN <:+ text ++ [c]
      · simp only [Reading.take, Place.plain, if_pos hsuf, and_self]
      · simp only [Reading.take, Place.plain, if_neg hsuf, and_self]
    | scanning scanner args announced =>
      obtain ⟨hdone, hnamed⟩ := hfine
      by_cases hover : (scanner.take c).1.state = .done
      · simp only [Reading.take, Place.plain, if_pos hover, true_and]
        -- the name that was announced is the last
        have hname : announced.or (scanner.take c).1.name = (scanner.take c).1.name := by
          cases announced with
          | none => rfl
          | some name =>
            by_contra hne
            refine hstays ⟨rfl, fun heq => hne ?_⟩
            rw [JsonCallScanner.feed_cons hdone, JsonCallScanner.feed_of_done hover] at heq
            exact heq.symm
        rw [hname, Option.none_or]
      · simp only [Reading.take, Place.plain, if_neg hover, and_self]
    | closing gap shown =>
      by_cases hsuf : QWEN_CLOSE <:+ gap ++ [c]
      · simp only [Reading.take, Place.plain, if_pos hsuf, and_true]
        have hnil : shown = [] := by
          by_contra hne
          exact hstays ⟨hne, infix_of_suffix_concat hsuf rest⟩
        rw [hnil]
      · simp only [Reading.take, Place.plain, if_neg hsuf, and_self]
  · cases place with
    | outside text =>
      by_cases hsuf : QWEN_OPEN <:+ text ++ [c]
      · simp only [Reading.take, if_pos hsuf]
        exact fun hbends => Bool.false_ne_true hbends.1
      · simp only [Reading.take, if_neg hsuf]
        exact id
    | scanning scanner args announced =>
      by_cases hover : (scanner.take c).1.state = .done
      · simp only [Reading.take, if_pos hover]
        exact fun hbends => hbends.1 rfl
      · simp only [Reading.take, if_neg hover]
        refine fun hbends => hstays ⟨hbends.1, ?_⟩
        rw [JsonCallScanner.feed_cons hfine.1]
        exact hbends.2
    | closing gap shown =>
      by_cases hsuf : QWEN_CLOSE <:+ gap ++ [c]
      · simp only [Reading.take, if_pos hsuf]
        exact id
      · simp only [Reading.take, if_neg hsuf]
        refine fun hbends => hstays ⟨hbends.1, ?_⟩
        rw [← append_cons_eq]
        exact hbends.2

/-- What is bent stays so: what will show shows, or still will. -/
theorem Bent.take (h : Bent a b (c :: rest)) : Bent (a.take c) (b.take c) rest := by
  have hbeside := h.toBeside.take c
  obtain ⟨place, content, calls⟩ := a
  obtain ⟨place', content', calls'⟩ := b
  obtain ⟨⟨hplace, hfine, hlen, hle⟩, hparts⟩ := h
  obtain rfl : place' = place.plain := hplace
  refine ⟨hbeside, ?_⟩
  clear hbeside
  cases place with
  | outside text =>
    have hparted : content'.length < content.length ∨ calls ≠ calls' := by
      rcases hparts with hshort | hcalls | hbends
      · exact .inl hshort
      · exact .inr hcalls
      · exact absurd hbends id
    by_cases hsuf : QWEN_OPEN <:+ text ++ [c]
    · simp only [Reading.take, Place.plain, if_pos hsuf, List.length_append]
      exact hparted.imp (Nat.add_lt_add_right · _) .inl
    · simp only [Reading.take, Place.plain, if_neg hsuf]
      exact hparted.imp id .inl
  | scanning scanner args announced =>
    obtain ⟨hdone, hnamed⟩ := hfine
    by_cases hover : (scanner.take c).1.state = .done
    · simp only [Reading.take, Place.plain, if_pos hover]
      have hnext : announced.isSome → (scanner.take c).1.name.isSome := fun hsome =>
        JsonCallScanner.take_name (hnamed hsome) c
      have hboth : (announced.or (scanner.take c).1.name).isSome =
          ((none : Option Text).or (scanner.take c).1.name).isSome := by
        rw [isSome_or_name hnext, Option.none_or]
      rcases hparts with hshort | hcalls | ⟨hsome, hname⟩
      · exact .inl hshort
      · exact .inr (.inl (addCall_ne hboth (.inl hcalls)))
      · refine .inr (.inl (addCall_ne hboth (.inr ?_)))
        rw [JsonCallScanner.feed_cons hdone, JsonCallScanner.feed_of_done hover] at hname
        obtain ⟨name, rfl⟩ := Option.isSome_iff_exists.mp hsome
        exact Ne.symm hname
    · simp only [Reading.take, Place.plain, if_neg hover]
      refine hparts.imp id (Or.imp id fun hbends => ⟨hbends.1, ?_⟩)
      have hname := hbends.2
      rw [JsonCallScanner.feed_cons hdone] at hname
      exact hname
  | closing gap shown =>
    by_cases hsuf : QWEN_CLOSE <:+ gap ++ [c]
    · simp only [Reading.take, Place.plain, if_pos hsuf, List.append_nil, List.length_append]
      rcases hparts with hshort | hcalls | hbends
      · exact .inl (hshort.trans_le (Nat.le_add_right _ _))
      · exact .inr (.inl hcalls)
      · exact .inl (Nat.lt_of_le_of_lt hle
          (Nat.lt_add_of_pos_right (List.length_pos_iff.mpr hbends.1)))
    · simp only [Reading.take, Place.plain, if_neg hsuf]
      refine hparts.imp id (Or.imp id fun hbends => ⟨hbends.1, ?_⟩)
      rw [append_cons_eq]
      exact hbends.2

/-! ### A pause -/

theorem Beside.pause (h : Beside a b) : Beside a.pause b := by
  obtain ⟨place, content, calls⟩ := a
  obtain ⟨hplace, hfine, hcalls, hcontent⟩ := h
  cases place with
  | outside text => exact ⟨hplace, hfine, hcalls, hcontent⟩
  | scanning scanner args announced =>
    refine ⟨hplace, ⟨hfine.1, fun hsome => ?_⟩, hcalls, hcontent⟩
    rwa [isSome_or_name hfine.2] at hsome
  | closing gap shown => exact ⟨hplace, ⟨hfine.1, List.prefix_rfl⟩, hcalls, hcontent⟩

/-- A pause parts two readings if it bends. -/
theorem Beside.pause_bent (h : Beside a b) (hbends : Bends a.pause.place rest) : Bent a.pause b rest :=
  ⟨h.pause, .inr (.inr hbends)⟩

theorem pause_content (a : Reading) : a.pause.content = a.content := by
  obtain ⟨place, content, calls⟩ := a
  cases place <;> rfl

theorem pause_calls (a : Reading) : a.pause.calls = a.calls := by
  obtain ⟨place, content, calls⟩ := a
  cases place <;> rfl

theorem Straight.pause (h : Straight a b rest) (hstays : ¬ Bends a.pause.place rest) :
    Straight a.pause b rest :=
  ⟨h.toBeside.pause, by rw [pause_content, pause_calls]; exact h.same, hstays⟩

theorem Bent.pause (h : Bent a b rest) : Bent a.pause b rest := by
  refine ⟨h.toBeside.pause, ?_⟩
  rw [pause_content, pause_calls]
  refine h.parts.imp id (Or.imp id fun hbends => ?_)
  have hfine := h.fine
  obtain ⟨place, content, calls⟩ := a
  cases place with
  | outside text => exact hbends
  | scanning scanner args announced =>
    obtain ⟨name, rfl⟩ := Option.isSome_iff_exists.mp hbends.1
    exact hbends
  | closing gap shown =>
    refine ⟨fun hnil => hbends.1 ?_, hbends.2⟩
    exact List.prefix_nil.mp (hnil ▸ hfine.2)

/-! ### The end -/

theorem Straight.result (h : Straight a b []) : a.result = b.result := by
  obtain ⟨place, content, calls⟩ := a
  obtain ⟨place', content', calls'⟩ := b
  obtain ⟨⟨hplace, hfine, _, _⟩, ⟨hcontent, hcalls⟩, hstays⟩ := h
  obtain rfl : place' = place.plain := hplace
  obtain rfl : content = content' := hcontent
  obtain rfl : calls = calls' := hcalls
  cases place with
  | outside text => rfl
  | scanning scanner args announced =>
    have hname : announced.or scanner.name = scanner.name := by
      cases announced with
      | none => rfl
      | some name =>
        by_contra hne
        exact hstays ⟨rfl, fun heq => hne heq.symm⟩
    simp only [Reading.result, Place.plain, hname, Option.none_or]
  | closing gap shown => rfl

theorem Bent.result (h : Bent a b []) : a.result ≠ b.result := by
  obtain ⟨place, content, calls⟩ := a
  obtain ⟨place', content', calls'⟩ := b
  obtain ⟨⟨hplace, hfine, hlen, hle⟩, hparts⟩ := h
  obtain rfl : place' = place.plain := hplace
  intro heq
  have hlength : ∀ {x : Text}, content ++ x = content' ++ x →
      ¬ content'.length < content.length := fun hsame hlt => by
    rw [List.append_cancel_right hsame] at hlt
    exact lt_irrefl _ hlt
  cases place with
  | outside text =>
    obtain ⟨hcontent, hcalls⟩ := Prod.mk.inj heq
    rcases hparts with hshort | hne | hbends
    · exact hlength hcontent hshort
    · exact hne hcalls
    · exact hbends
  | scanning scanner args announced =>
    obtain ⟨hcontent, hcalls⟩ := Prod.mk.inj heq
    have hboth : (announced.or scanner.name).isSome =
        ((none : Option Text).or scanner.name).isSome := by
      rw [isSome_or_name hfine.2, Option.none_or]
    rcases hparts with hshort | hne | ⟨hsome, hname⟩
    · exact hlength (congrArg (· ++ []) hcontent) hshort
    · exact addCall_ne hboth (.inl hne) hcalls
    · refine addCall_ne hboth (.inr ?_) hcalls
      obtain ⟨name, rfl⟩ := Option.isSome_iff_exists.mp hsome
      exact Ne.symm hname
  | closing gap shown =>
    obtain ⟨hcontent, hcalls⟩ := Prod.mk.inj heq
    rcases hparts with hshort | hne | hbends
    · exact hlength hcontent hshort
    · exact hne hcalls
    · refine find_eq_none_iff.mp hfine.1 ?_
      have hin := hbends.2
      rwa [List.append_nil] at hin

/-! ### Texts and deltas -/

/-- A text without pauses. -/
def scan (text : Text) : Reading := Reading.takeAll {} text

theorem scan_append (text more : Text) : scan (text ++ more) = (scan text).takeAll more :=
  Reading.takeAll_append more

/-- How many elements of a text have a name so far. -/
def Reading.known (r : Reading) : Nat :=
  r.calls.length + match r.place with
    | .scanning scanner _ _ => if scanner.name.isSome then 1 else 0
    | _ => 0

/-- How many of them were announced. -/
def Reading.told (r : Reading) : Nat :=
  r.calls.length + match r.place with
    | .scanning _ _ announced => if announced.isSome then 1 else 0
    | _ => 0

/-- The text ends behind an object with what cannot become the closing tag, and the tag comes
later. -/
def LeaksGap (text more : Text) : Prop :=
  ∃ gap, (scan text).place = .closing gap [] ∧ safePart gap QWEN_CLOSE ≠ [] ∧
    QWEN_CLOSE <:+: gap ++ more

/-- With this delta the first name of an element comes, but not its end, and the name it has in the
end is another. -/
def Renames (text delta more : Text) : Prop :=
  (scan text).known < (scan (text ++ delta)).known ∧ ∃ scanner args,
    (scan (text ++ delta)).place = .scanning scanner args none ∧ scanner.name.isSome ∧
      (scanner.feed more).1.name ≠ scanner.name

theorem Beside.init : Beside {} {} := ⟨rfl, trivial, rfl, le_rfl⟩

theorem Beside.known (h : Beside a b) : a.known = b.known := by
  unfold Reading.known
  rw [h.place, h.calls]
  cases a.place <;> rfl

theorem Beside.takeAll (h : Beside a b) : Beside (a.takeAll text) (b.takeAll text) := by
  induction text generalizing a b with
  | nil => exact h
  | cons c text ih => exact ih (h.take c)

theorem Straight.takeAll (h : Straight a b (text ++ rest)) :
    Straight (a.takeAll text) (b.takeAll text) rest := by
  induction text generalizing a b with
  | nil => exact h
  | cons c text ih => exact ih h.take

theorem Bent.takeAll (h : Bent a b (text ++ rest)) : Bent (a.takeAll text) (b.takeAll text) rest := by
  induction text generalizing a b with
  | nil => exact h
  | cons c text ih => exact ih h.take

theorem readAll_append (r : Reading) (before after : List Text) :
    r.readAll (before ++ after) = (r.readAll before).readAll after := List.foldl_append

theorem readAll_concat (r : Reading) (before : List Text) (delta : Text) :
    r.readAll (before ++ [delta]) = ((r.readAll before).takeAll delta).pause :=
  readAll_append r before [delta]

theorem Beside.readAll (deltas : List Text) : Beside (Reading.readAll {} deltas) (scan deltas.flatten) := by
  induction deltas using List.reverseRecOn with
  | nil => exact .init
  | append_singleton deltas delta ih =>
    rw [readAll_concat, List.flatten_append, List.flatten_singleton, scan_append]
    exact ih.takeAll.pause

/-! ### Names that were announced -/

theorem told_pause (h : a.place.Fine) : a.pause.told = a.known := by
  obtain ⟨place, content, calls⟩ := a
  cases place with
  | outside text => rfl
  | scanning scanner args announced =>
    simp only [Reading.pause, Reading.told, Reading.known, isSome_or_name h.2]
  | closing gap shown => rfl

theorem known_pause (a : Reading) : a.pause.known = a.known := by
  obtain ⟨place, content, calls⟩ := a
  cases place <;> rfl

/-- At the end of a delta every name that is known was announced. -/
theorem told_readAll (deltas : List Text) :
    (Reading.readAll {} deltas).told = (Reading.readAll {} deltas).known := by
  induction deltas using List.reverseRecOn with
  | nil => rfl
  | append_singleton deltas delta _ =>
    rw [readAll_concat, known_pause]
    exact told_pause (Beside.readAll deltas).takeAll.fine

/-- What was told stays told. -/
theorem told_take (a : Reading) (c : Nat) : a.told ≤ (a.take c).told := by
  obtain ⟨place, content, calls⟩ := a
  cases place with
  | outside text =>
    by_cases hsuf : QWEN_OPEN <:+ text ++ [c]
    · simp only [Reading.take, if_pos hsuf, Reading.told]
      exact Nat.le_add_right _ _
    · simp only [Reading.take, if_neg hsuf, Reading.told, le_refl]
  | scanning scanner args announced =>
    by_cases hover : (scanner.take c).1.state = .done
    · simp only [Reading.take, if_pos hover, Reading.told, Nat.add_zero]
      cases announced with
      | none =>
        cases (scanner.take c).1.name with
        | none => exact le_rfl
        | some name => simp [addCall]
      | some name => simp [addCall]
    · simp only [Reading.take, if_neg hover, Reading.told, le_refl]
  | closing gap shown =>
    by_cases hsuf : QWEN_CLOSE <:+ gap ++ [c]
    · simp only [Reading.take, if_pos hsuf, Reading.told, le_refl]
    · simp only [Reading.take, if_neg hsuf, Reading.told, le_refl]

theorem told_takeAll : a.told ≤ (a.takeAll text).told := by
  induction text generalizing a with
  | nil => exact le_rfl
  | cons c text ih => exact (told_take a c).trans ih

/-- An element that was announced before is the one that was announced last. -/
theorem take_announced {name : Text} (h : (a.take c).place = .scanning scanner args (some name)) :
    (∃ scanner args, a.place = .scanning scanner args (some name)) ∧ (a.take c).calls = a.calls := by
  obtain ⟨place, content, calls⟩ := a
  cases place with
  | outside text =>
    by_cases hsuf : QWEN_OPEN <:+ text ++ [c]
    · simp only [Reading.take, if_pos hsuf] at h
      cases h
    · simp only [Reading.take, if_neg hsuf] at h
      cases h
  | scanning scanner args announced =>
    by_cases hover : (scanner.take c).1.state = .done
    · simp only [Reading.take, if_pos hover] at h
      cases h
    · simp only [Reading.take, if_neg hover] at h ⊢
      cases h
      exact ⟨⟨_, _, rfl⟩, trivial⟩
  | closing gap shown =>
    by_cases hsuf : QWEN_CLOSE <:+ gap ++ [c]
    · simp only [Reading.take, if_pos hsuf] at h
      cases h
    · simp only [Reading.take, if_neg hsuf] at h
      cases h

theorem takeAll_announced {name : Text}
    (h : (a.takeAll text).place = .scanning scanner args (some name)) :
    (∃ scanner args, a.place = .scanning scanner args (some name)) ∧ (a.takeAll text).calls = a.calls := by
  induction text generalizing a with
  | nil => exact ⟨⟨_, _, h⟩, rfl⟩
  | cons c text ih =>
    obtain ⟨⟨scanner, args, hplace⟩, hcalls⟩ := ih h
    obtain ⟨hbefore, hsame⟩ := take_announced hplace
    exact ⟨hbefore, hcalls.trans hsame⟩

/-! ### The axiom of the contract -/

/-- Where a pause bends. -/
theorem Beside.bends_pause {delta : Text} (h : Beside a (scan text)) (htold : a.told = a.known)
    (hshows : LeaksGap (text ++ delta) rest ∨ Renames text delta rest) :
    Bends (a.takeAll delta).pause.place rest := by
  have hnext : Beside (a.takeAll delta) (scan (text ++ delta)) := by
    rw [scan_append]
    exact h.takeAll
  have hannounced : ∀ {scanner args name},
      (a.takeAll delta).place = .scanning scanner args (some name) →
      (a.takeAll delta).known = a.known := by
    intro scanner args name hplace
    obtain ⟨⟨scanner', args', hwas⟩, hcalls⟩ := takeAll_announced hplace
    have hnow := hnext.fine
    rw [hplace] at hnow
    rw [← htold]
    unfold Reading.known Reading.told
    rw [hplace, hwas, hcalls]
    simp only [hnow.2 rfl, Option.isSome_some, if_true]
  have hplace := hnext.place
  have hknown := hnext.known
  generalize a.takeAll delta = a' at *
  obtain ⟨place, content, calls⟩ := a'
  rcases hshows with ⟨gap, hgap, hsafe, hin⟩ | ⟨hgrows, scanner, args, hscan, hname, hlast⟩
  · rw [hgap] at hplace
    cases place with
    | outside text => cases hplace
    | scanning scanner args announced => cases hplace
    | closing gap' shown =>
      obtain rfl := (Place.closing.inj hplace).1
      exact ⟨hsafe, hin⟩
  · rw [hscan] at hplace
    cases place with
    | outside text => cases hplace
    | scanning scanner' args' announced =>
      obtain ⟨rfl, rfl, _⟩ := Place.scanning.inj hplace
      cases announced with
      | none => exact ⟨hname, hlast⟩
      | some name =>
        rw [← h.known, ← hknown, hannounced rfl] at hgrows
        exact absurd hgrows (lt_irrefl _)
    | closing gap shown => cases hplace

/-- And nowhere else, if it has not before. -/
theorem Straight.pause_straight {delta : Text} (h : Straight a (scan text) (delta ++ rest))
    (htold : a.told = a.known) (hgap : ¬ LeaksGap (text ++ delta) rest)
    (hname : ¬ Renames text delta rest) :
    Straight (a.takeAll delta).pause (scan (text ++ delta)) rest := by
  have hnext : Straight (a.takeAll delta) (scan (text ++ delta)) rest := by
    rw [scan_append]
    exact h.takeAll
  refine hnext.pause fun hbends => ?_
  have hgrows : (a.takeAll delta).told < (a.takeAll delta).known →
      (scan text).known < (scan (text ++ delta)).known := by
    intro hlt
    rw [← h.toBeside.known, ← hnext.toBeside.known, ← htold]
    exact told_takeAll.trans_lt hlt
  have hplace := hnext.place
  have hstays := hnext.stays
  generalize a.takeAll delta = a' at *
  obtain ⟨place, content, calls⟩ := a'
  cases place with
  | outside text => exact hbends
  | scanning scanner args announced =>
    cases announced with
    | none =>
      refine hname ⟨hgrows ?_, scanner, args, hplace, hbends.1, hbends.2⟩
      simp only [Reading.told, Reading.known]
      have hsome : scanner.name.isSome := hbends.1
      simp only [hsome, Option.isSome_none, if_true, Bool.false_eq_true, if_false]
      omega
    | some name => exact hstays hbends
  | closing gap shown => exact hgap ⟨gap, hplace, hbends.1, hbends.2⟩

/-- What no delta makes show does not show. -/
theorem straight_readAll {after : List Text} : ∀ {before : List Text},
    Straight (Reading.readAll {} before) (scan before.flatten) after.flatten →
    (∀ early delta late, before ++ after = early ++ delta :: late →
      ¬ LeaksGap (early.flatten ++ delta) late.flatten ∧
        ¬ Renames early.flatten delta late.flatten) →
    Straight (Reading.readAll {} (before ++ after)) (scan (before ++ after).flatten) [] := by
  induction after with
  | nil =>
    intro before h _
    rwa [List.append_nil]
  | cons delta after ih =>
    intro before h hall
    have happ : before ++ delta :: after = before ++ [delta] ++ after := by
      rw [List.append_assoc, List.singleton_append]
    obtain ⟨hgap, hname⟩ := hall before delta after rfl
    rw [happ] at hall ⊢
    refine ih ?_ hall
    rw [readAll_concat, List.flatten_append, List.flatten_singleton]
    exact h.pause_straight (told_readAll before) hgap hname

/-- What has parted, or will, has parted in the end. -/
theorem Bent.readAll {deltas : List Text} (h : Bent a b deltas.flatten) :
    Bent (a.readAll deltas) (b.takeAll deltas.flatten) [] := by
  induction deltas generalizing a b with
  | nil => exact h
  | cons delta deltas ih =>
    rw [List.flatten_cons] at h ⊢
    rw [Reading.takeAll_append]
    exact ih h.takeAll.pause

theorem pause_result (a : Reading) : a.pause.result = a.result := by
  obtain ⟨place, content, calls⟩ := a
  cases place with
  | outside text => rfl
  | scanning scanner args announced =>
    cases announced with
    | none =>
      cases hname : scanner.name <;>
        simp only [Reading.pause, Reading.result, hname, Option.none_or, Option.some_or]
    | some name => rfl
  | closing gap shown => rfl

/-- **The axiom of the contract, and where it holds.** A text fed delta by delta comes to what it
comes to in one piece, exactly if no delta ends in a gap that leaks, and none brings a name that is
replaced after it. -/
theorem qwen_stream_eq_parse_iff (deltas : List Text) :
    parser.stream deltas = parser.parse deltas.flatten ↔
      ∀ before delta after, deltas = before ++ delta :: after →
        ¬ LeaksGap (before.flatten ++ delta) after.flatten ∧
          ¬ Renames before.flatten delta after.flatten := by
  rw [stream_eq_result, parse_eq_result]
  have hparse : (Reading.readAll {} [deltas.flatten]).result = (scan deltas.flatten).result :=
    pause_result (scan deltas.flatten)
  rw [hparse]
  constructor
  · intro heq before delta after hcut
    rw [← not_or]
    intro hshows
    have hbends := (Beside.readAll before).bends_pause (told_readAll before) hshows
    have hbeside : Beside ((Reading.readAll {} before).takeAll delta) (scan (before.flatten ++ delta)) := by
      rw [scan_append]
      exact (Beside.readAll before).takeAll
    have hbent := (hbeside.pause_bent hbends).readAll
    rw [← scan_append, ← readAll_concat, ← readAll_append, List.append_assoc, List.append_assoc,
      List.singleton_append, ← List.flatten_cons, ← List.flatten_append, ← hcut] at hbent
    exact hbent.result heq
  · intro hall
    have hstart : Straight (Reading.readAll {} []) (scan [].flatten) deltas.flatten :=
      ⟨.init, ⟨rfl, rfl⟩, id⟩
    exact (straight_readAll hstart hall).result

/-- Text behind an object, in a delta of its own before the closing tag: the stream passes it on,
the one-shot parse drops it. -/
theorem gap_split :
    parser.stream [QWEN_OPEN ++ [LBRACE, RBRACE], [10], QWEN_CLOSE] = ([10], []) ∧
      parser.parse [QWEN_OPEN ++ [LBRACE, RBRACE], [10], QWEN_CLOSE].flatten = ([], []) ∧
      parser.stream [QWEN_OPEN ++ [LBRACE, RBRACE], [10], QWEN_CLOSE] ≠
        parser.parse [QWEN_OPEN ++ [LBRACE, RBRACE], [10], QWEN_CLOSE].flatten := by
  decide +kernel

end Qwen

end RapidLlm
