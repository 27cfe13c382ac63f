import Mathlib.Data.List.Chain
import Mathlib.Data.List.Nodup
import Mathlib.Logic.Function.Basic
import Mathlib.Tactic.Common

/-!
# RapidLlm.Lib.Threaded

**A list threaded through its items**: every item has a link to the one before it and a link to the
one after it, with a sentinel at either end.

* `link` joins two nodes, `clear` takes an item's links away; inserting is joining twice, removing
  is joining the neighbours and clearing (`chained_insert`, `chained_remove`).
* `Threads links xs` says the links are those of the list `xs`. `append`, `prepend` and `remove` of
  the list are then one join or two (`Threads.append`, `Threads.prepend`, `Threads.remove`).
* `Walks` follows the links of one direction; `Threads.walks` and `Threads.walks_back` say both
  directions see `xs`.

Any type of items with decidable equality.
-/

namespace RapidLlm

universe u

/-- A node: a sentinel or an item. -/
inductive Node (ι : Type u)
  | head
  | tail
  | item (i : ι)
  deriving DecidableEq, Repr

/-- The links of all nodes. -/
structure Links (ι : Type u) where
  next : Node ι → Option (Node ι)
  prev : Node ι → Option (Node ι)

namespace Links

variable {ι : Type u} [DecidableEq ι]

/-- No node is linked. -/
def unlinked : Links ι := ⟨fun _ => none, fun _ => none⟩

/-- `a.next = b`, and then `b.prev = a`. -/
def link (links : Links ι) (a b : Node ι) : Links ι :=
  ⟨Function.update links.next a (some b), Function.update links.prev b (some a)⟩

/-- `a.prev = a.next = none`. -/
def clear (links : Links ι) (a : Node ι) : Links ι :=
  ⟨Function.update links.next a none, Function.update links.prev a none⟩

/-- Two nodes are neighbours by the links of both. -/
def Joined (links : Links ι) (a b : Node ι) : Prop := links.next a = some b ∧ links.prev b = some a

/-- Each node of a list is joined with the one after it. -/
def Chained (links : Links ι) (nodes : List (Node ι)) : Prop := nodes.IsChain links.Joined

/-- The nodes of a list, between its sentinels. -/
def nodes (xs : List ι) : List (Node ι) := .head :: (xs.map .item ++ [.tail])

/-- The links are those of the list. -/
structure Threads (links : Links ι) (xs : List ι) : Prop where
  chained : links.Chained (nodes xs)
  nodup : xs.Nodup
  idle : ∀ i ∉ xs, links.next (.item i) = none ∧ links.prev (.item i) = none

/-- Following `step` from a node to a last one, over these items. -/
inductive Walks (step : Node ι → Option (Node ι)) (stop : Node ι) : Node ι → List ι → Prop
  | stop {node : Node ι} (h : step node = some stop) : Walks step stop node []
  | next {node : Node ι} {i : ι} {xs : List ι} (h : step node = some (.item i))
      (rest : Walks step stop (.item i) xs) : Walks step stop node (i :: xs)

variable {links links' : Links ι} {xs : List ι} {i : ι} {before after : List (Node ι)}
  {a b x : Node ι}

/-! ### Joins -/

omit [DecidableEq ι] in
/-- A chain only depends on the links it uses. -/
theorem Chained.congr : ∀ {nodes : List (Node ι)},
    (∀ c ∈ nodes.dropLast, links'.next c = links.next c) →
    (∀ d ∈ nodes.tail, links'.prev d = links.prev d) → links.Chained nodes → links'.Chained nodes
  | [], _, _, _ => List.IsChain.nil
  | [_], _, _, _ => List.IsChain.singleton _
  | c :: d :: nodes, hnext, hprev, h => by
      obtain ⟨⟨hc, hd⟩, hrest⟩ := List.isChain_cons_cons.mp h
      refine List.isChain_cons_cons.mpr ⟨⟨?_, ?_⟩, Chained.congr ?_ ?_ hrest⟩
      · rw [hnext c (by simp), hc]
      · rw [hprev d (by simp), hd]
      · exact fun e he => hnext e (by
          rw [List.dropLast_cons_of_ne_nil (List.cons_ne_nil _ _)]
          exact List.mem_cons_of_mem _ he)
      · exact fun e he => hprev e (List.mem_cons_of_mem _ he)

omit [DecidableEq ι] in
/-- What stands before two nodes of a list without repetition, and after them, is neither of
them. -/
theorem apart_of_nodup (hnodup : (before ++ a :: b :: after).Nodup) :
    a ≠ b ∧ (∀ c ∈ before, c ≠ a ∧ c ≠ b) ∧ ∀ d ∈ after, d ≠ a ∧ d ≠ b := by
  rw [List.nodup_append, List.nodup_cons, List.nodup_cons] at hnodup
  obtain ⟨-, ⟨ha, hb, -⟩, hbefore⟩ := hnodup
  refine ⟨fun hab => ha (by simp [hab]), fun c hc => ?_, fun d hd => ?_⟩
  · exact ⟨hbefore c hc a (by simp), hbefore c hc b (by simp)⟩
  · exact ⟨fun hda => ha (List.mem_cons_of_mem _ (hda ▸ hd)), fun hdb => hb (hdb ▸ hd)⟩

/-- A new node between two neighbours. -/
theorem chained_insert (h : links.Chained (before ++ a :: b :: after))
    (hnodup : (before ++ a :: b :: after).Nodup) (hx : x ∉ before ++ a :: b :: after) :
    ((links.link a x).link x b).Chained (before ++ a :: x :: b :: after) := by
  obtain ⟨hab, hbefore, hafter⟩ := apart_of_nodup hnodup
  simp only [List.mem_append, List.mem_cons, not_or] at hx
  obtain ⟨hxbefore, hxa, hxb, hxafter⟩ := hx
  obtain ⟨hfirst, -, hlast⟩ := List.isChain_append_cons_cons.mp h
  refine List.isChain_append_cons_cons.mpr ⟨?_, ?_, List.isChain_cons_cons.mpr ⟨?_, ?_⟩⟩
  · refine Chained.congr (fun c hc => ?_) (fun d hd => ?_) hfirst
    · rw [List.dropLast_concat] at hc
      have hcx : c ≠ x := fun heq => hxbefore (heq ▸ hc)
      simp [link, hcx, (hbefore c hc).1]
    · have hd := List.mem_of_mem_tail hd
      rw [List.mem_append, List.mem_singleton] at hd
      have hdx : d ≠ x := by
        rintro rfl
        exact hd.elim hxbefore hxa
      have hdb : d ≠ b := by
        rintro rfl
        exact hd.elim (fun hmem => (hbefore _ hmem).2 rfl) (fun heq => hab heq.symm)
      simp [link, hdx, hdb]
  · exact ⟨by simp [link, Ne.symm hxa], by simp [link, hxb]⟩
  · exact ⟨by simp [link], by simp [link]⟩
  · refine Chained.congr (fun c hc => ?_) (fun d hd => ?_) hlast
    · have hc := List.dropLast_subset _ hc
      rw [List.mem_cons] at hc
      have hcx : c ≠ x := by
        rintro rfl
        exact hc.elim hxb hxafter
      have hca : c ≠ a := by
        rintro rfl
        exact hc.elim hab (fun hmem => (hafter _ hmem).1 rfl)
      simp [link, hcx, hca]
    · rw [List.tail_cons] at hd
      have hdx : d ≠ x := fun heq => hxafter (heq ▸ hd)
      simp [link, hdx, (hafter d hd).2]

/-- A node taken out from between its neighbours. -/
theorem chained_remove (h : links.Chained (before ++ a :: x :: b :: after))
    (hnodup : (before ++ a :: x :: b :: after).Nodup) :
    ((links.link a b).clear x).Chained (before ++ a :: b :: after) := by
  have hsub : (before ++ a :: b :: after).Sublist (before ++ a :: x :: b :: after) :=
    (List.Sublist.refl before).append ((List.sublist_cons_self x (b :: after)).cons_cons a)
  obtain ⟨hab, hbefore, hafter⟩ := apart_of_nodup (hsub.nodup hnodup)
  obtain ⟨hax, hxbefore, hxrest⟩ := apart_of_nodup hnodup
  obtain ⟨hfirst, -, hrest⟩ := List.isChain_append_cons_cons.mp h
  have hlast := (List.isChain_cons_cons.mp hrest).2
  refine List.isChain_append_cons_cons.mpr ⟨?_, ⟨?_, ?_⟩, ?_⟩
  · refine Chained.congr (fun c hc => ?_) (fun d hd => ?_) hfirst
    · rw [List.dropLast_concat] at hc
      simp [link, clear, (hxbefore c hc).2, (hbefore c hc).1]
    · have hd := List.mem_of_mem_tail hd
      rw [List.mem_append, List.mem_singleton] at hd
      have hdx : d ≠ x := by
        rintro rfl
        exact hd.elim (fun hmem => (hxbefore _ hmem).2 rfl) (fun heq => hax heq.symm)
      have hdb : d ≠ b := by
        rintro rfl
        exact hd.elim (fun hmem => (hbefore _ hmem).2 rfl) (fun heq => hab heq.symm)
      simp [link, clear, hdx, hdb]
  · simp [link, clear, hax]
  · simp [link, clear, (hxrest b List.mem_cons_self).2]
  · refine Chained.congr (fun c hc => ?_) (fun d hd => ?_) hlast
    · have hc := List.dropLast_subset _ hc
      have hca : c ≠ a := (hxrest c hc).1
      simp [link, clear, (hxrest c hc).2, hca]
    · rw [List.tail_cons] at hd
      simp [link, clear, (hxrest d (List.mem_cons_of_mem _ hd)).2, (hafter d hd).2]

/-! ### The list -/

omit [DecidableEq ι] in
theorem nodes_nodup (h : xs.Nodup) : (nodes xs).Nodup := by
  have hitems : (xs.map Node.item).Nodup := h.map fun _ _ heq => by cases heq; rfl
  simp [nodes, List.nodup_append, hitems]

omit [DecidableEq ι] in
@[simp] theorem item_mem_nodes : Node.item i ∈ nodes xs ↔ i ∈ xs := by simp [nodes]

/-- The empty list. -/
theorem threads_nil : (unlinked.link .head .tail : Links ι).Threads [] where
  chained := List.isChain_cons_cons.mpr
    ⟨⟨by simp [link], by simp [link]⟩, List.IsChain.singleton _⟩
  nodup := List.nodup_nil
  idle i _ := ⟨by simp [link, unlinked], by simp [link, unlinked]⟩

omit [DecidableEq ι] in
theorem Threads.next_head_cons (h : links.Threads (i :: xs)) : links.next .head = some (.item i) :=
  (List.isChain_cons_cons.mp h.chained).1.1

/-- A new item between two neighbours; items elsewhere stay unlinked. -/
theorem Threads.insert {ys : List ι} (h : links.Threads xs) (hi : i ∉ xs)
    (hxs : nodes xs = before ++ a :: b :: after)
    (hys : nodes ys = before ++ a :: .item i :: b :: after) (hnodup : ys.Nodup) :
    ((links.link a (.item i)).link (.item i) b).Threads ys := by
  have hnodes := nodes_nodup h.nodup
  have hchained := h.chained
  have hfresh : Node.item i ∉ nodes xs := by simpa using hi
  rw [hxs] at hnodes hchained hfresh
  refine ⟨hys ▸ chained_insert hchained hnodes hfresh, hnodup, fun j hj => ?_⟩
  have hj : Node.item j ∉ nodes ys := by simpa using hj
  have hjxs : j ∉ xs := by
    intro hmem
    have hmem : Node.item j ∈ nodes xs := by simpa using hmem
    rw [hxs] at hmem
    exact hj (hys ▸ by simp only [List.mem_append, List.mem_cons] at hmem ⊢; tauto)
  rw [hys] at hj
  simp only [List.mem_append, List.mem_cons, not_or] at hj
  obtain ⟨-, hja, hji, hjb, -⟩ := hj
  simpa [link, hja, hji, hjb] using h.idle j hjxs

/-- An item put in front. -/
theorem Threads.prepend (h : links.Threads xs) (hi : i ∉ xs) :
    ∃ first, links.next .head = some first ∧
      ((links.link .head (.item i)).link (.item i) first).Threads (i :: xs) := by
  obtain ⟨first, after, hrest⟩ : ∃ first after, xs.map Node.item ++ [Node.tail] = first :: after :=
    List.exists_cons_of_ne_nil (by simp)
  have hxs : nodes xs = [] ++ .head :: first :: after := by simp [nodes, hrest]
  have hfirst : links.next .head = some first := by
    have hchained := h.chained
    rw [hxs] at hchained
    exact (List.isChain_cons_cons.mp hchained).1.1
  refine ⟨first, hfirst, h.insert hi hxs ?_ (List.nodup_cons.mpr ⟨hi, h.nodup⟩)⟩
  simp [nodes, ← hrest]

/-- An item put at the back. -/
theorem Threads.append (h : links.Threads xs) (hi : i ∉ xs) :
    ∃ last, links.prev .tail = some last ∧
      ((links.link last (.item i)).link (.item i) .tail).Threads (xs ++ [i]) := by
  obtain ⟨before, last, hrest⟩ : ∃ before last, (.head :: xs.map .item : List (Node ι)) =
      before ++ [last] :=
    ⟨_, _, (List.dropLast_append_getLast (List.cons_ne_nil _ _)).symm⟩
  have hxs : nodes xs = before ++ last :: .tail :: [] := by
    rw [nodes, ← List.cons_append, hrest, List.append_assoc, List.singleton_append]
  have hlast : links.prev .tail = some last := by
    have hchained := h.chained
    rw [hxs] at hchained
    exact (List.isChain_append_cons_cons.mp hchained).2.1.2
  refine ⟨last, hlast, h.insert hi hxs ?_ ?_⟩
  · rw [nodes, List.map_append, List.append_assoc, ← List.cons_append, hrest]
    simp
  · rw [List.nodup_append]
    exact ⟨h.nodup, List.nodup_singleton i, fun j hj k hk hjk => by
      rw [List.mem_singleton] at hk
      exact hi (hk ▸ hjk ▸ hj)⟩

/-- An item taken out. -/
theorem Threads.remove (h : links.Threads xs) (hi : i ∈ xs) :
    ∃ a b, links.prev (.item i) = some a ∧ links.next (.item i) = some b ∧
      ((links.link a b).clear (.item i)).Threads (xs.erase i) := by
  obtain ⟨ys, zs, hys, rfl, herase⟩ := List.exists_erase_eq hi
  obtain ⟨before, a, hbefore⟩ : ∃ before a, (.head :: ys.map .item : List (Node ι)) =
      before ++ [a] :=
    ⟨_, _, (List.dropLast_append_getLast (List.cons_ne_nil _ _)).symm⟩
  obtain ⟨b, after, hafter⟩ : ∃ b after, zs.map Node.item ++ [Node.tail] = b :: after :=
    List.exists_cons_of_ne_nil (by simp)
  have hxs : nodes (ys ++ i :: zs) = before ++ a :: .item i :: b :: after := by
    rw [nodes, List.map_append, List.append_assoc, ← List.cons_append, hbefore, List.map_cons,
      List.cons_append, hafter]
    simp
  have hrest : nodes (ys ++ zs) = before ++ a :: b :: after := by
    rw [nodes, List.map_append, List.append_assoc, ← List.cons_append, hbefore, hafter]
    simp
  have hchained := h.chained
  have hnodes := nodes_nodup h.nodup
  rw [hxs] at hchained hnodes
  have hjoins := (List.isChain_append_cons_cons.mp hchained).2
  refine ⟨a, b, hjoins.1.2, (List.isChain_cons_cons.mp hjoins.2).1.1, ?_⟩
  rw [herase]
  refine ⟨hrest ▸ chained_remove hchained hnodes,
    (herase ▸ List.erase_sublist : (ys ++ zs).Sublist _).nodup h.nodup, fun j hj => ?_⟩
  by_cases hji : j = i
  · subst hji
    simp [clear]
  have hjxs : j ∉ ys ++ i :: zs := by
    simp only [List.mem_append, List.mem_cons, not_or] at hj ⊢
    exact ⟨hj.1, hji, hj.2⟩
  have hj : Node.item j ∉ nodes (ys ++ zs) := by simpa using hj
  rw [hrest] at hj
  simp only [List.mem_append, List.mem_cons, not_or] at hj
  simpa [link, clear, hji, hj.2.1, hj.2.2.1] using h.idle j hjxs

/-! ### Walking -/

omit [DecidableEq ι] in
theorem walks_of_isChain {step : Node ι → Option (Node ι)} {stop : Node ι} :
    ∀ {xs : List ι} {node : Node ι},
      (node :: (xs.map .item ++ [stop])).IsChain (fun a b => step a = some b) →
      Walks step stop node xs
  | [], _, h => .stop (List.isChain_cons_cons.mp h).1
  | _ :: _, _, h =>
    .next (List.isChain_cons_cons.mp h).1 (walks_of_isChain (List.isChain_cons_cons.mp h).2)

omit [DecidableEq ι] in
/-- Front to back, the links visit the list. -/
theorem Threads.walks (h : links.Threads xs) : Walks links.next .tail .head xs :=
  walks_of_isChain (h.chained.imp fun _ _ hjoined => hjoined.1)

omit [DecidableEq ι] in
/-- Back to front, they visit it in reverse. -/
theorem Threads.walks_back (h : links.Threads xs) : Walks links.prev .head .tail xs.reverse := by
  refine walks_of_isChain ?_
  have hreverse : (Node.tail :: (xs.reverse.map .item ++ [.head]) : List (Node ι)) =
      (nodes xs).reverse := by
    simp [nodes]
  rw [hreverse, List.isChain_reverse]
  exact h.chained.imp fun _ _ hjoined => hjoined.2

end Links

end RapidLlm
