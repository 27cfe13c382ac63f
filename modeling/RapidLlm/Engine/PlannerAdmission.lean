import RapidLlm.Engine.PlannerInvariant

/-!
# RapidLlm.Engine.PlannerAdmission

What `_admit` does to the planner under its invariant: tracking the candidate's
hash chain, seating it (`placed`), or refusing it and giving back what the
refused allocation touched (`refused`); and the growth of a decode request over a
speculative stretch (`stretched`).
-/

namespace RapidLlm

namespace BatchPlanner

variable [Aside] {s s' : BatchPlanner} {r r' : RequestRef}

/-! ### Tracking a candidate -/

/-- The candidate's chain is `hashes`. -/
def tracked (s : BatchPlanner) (r : RequestRef) (hashes : List BlockHash) : BatchPlanner :=
  s.recached (s.prefixCache.setSequence (s.idOf r)
    (some { s.seqOf r with blockHashes := hashes }))

/-- The chain `track` returns for a request. -/
def trackedHashes [BlockDigest] (s : BatchPlanner) (r : RequestRef) : List BlockHash :=
  (s.prefixCache.track (s.idOf r) (s.objects r).promptTokenIds).1

omit [Aside] in
theorem track_planner [BlockDigest] (s : BatchPlanner) (r : RequestRef) :
    s.prefixCache.track (s.objects r).requestId (s.objects r).promptTokenIds =
      (s.trackedHashes r, (s.tracked r (s.trackedHashes r)).prefixCache) := by
  have hid : (s.objects r).requestId = s.idOf r := rfl
  rw [tracked, recached, seqOf, trackedHashes, hid]
  unfold PrefixCache.track
  cases s.prefixCache.sequences (s.idOf r) <;> rfl

omit [Aside] in
theorem seqOf_tracked_self (s : BatchPlanner) (r : RequestRef) (hashes : List BlockHash) :
    (s.tracked r hashes).seqOf r = { s.seqOf r with blockHashes := hashes } := by
  have hid : (s.tracked r hashes).idOf r = s.idOf r := rfl
  rw [seqOf, hid]
  simp [tracked, recached]

theorem Inv.tracked_inv (h : s.Inv) (hw : r ∈ s.waiting) (hashes : List BlockHash) :
    (s.tracked r hashes).Inv := by
  refine h.recache h.holds (fun _ => id) h.running_held h.waiting_held (fun _ => rfl) ?_ ?_ ?_ ?_
  · intro rid hrid
    by_cases hid : rid = s.idOf r
    · exact .inr ⟨r, .inl hw, hid.symm⟩
    · rw [PrefixCache.setSequence_of_ne hid] at hrid
      exact .inl hrid
  · intro r' hr'
    by_cases hid : s.idOf r' = s.idOf r
    · simp [hid]
    · rw [PrefixCache.setSequence_of_ne hid]
      exact h.running_tracked r' hr'
  · intro r' hr'
    have hne : r' ≠ r := fun hrr => h.not_both hw (hrr ▸ hr')
    rw [PrefixCache.setSequence_of_ne (h.id_ne (.inr hr') (.inl hw) hne)]
    exact h.mapped r' hr'
  · intro r' hr'
    by_cases hrr : r' = r
    · subst hrr; simpa using h.queued r' hr'
    · rw [PrefixCache.setSequence_of_ne (h.id_ne (.inl hr') (.inl hw) hrr)]
      exact h.queued r' hr'

/-! ### Refusing a candidate -/

/-- The allocation was refused: the candidate is not tracked any more, and the blocks of
its match went back to the pool. -/
def refused (s : BatchPlanner) (r : RequestRef) (pool' : BlockPool) : BatchPlanner :=
  s.recached (s.released r pool')

theorem Inv.refused_inv (h : s.Inv) (hw : r ∈ s.waiting) {pool' : BlockPool}
    (hholds : pool'.Holds s.references) : (s.refused r pool').Inv := by
  have hheld := h.waiting_held r hw
  rw [heldBy] at hheld
  refine h.recache hholds ?_ ?_ ?_ ?_ ?_ ?_ ?_ ?_
  · intro rid hrid
    by_cases hid : rid = s.idOf r
    · subst hid; simp [released] at hrid
    · simpa [released, Function.update_of_ne hid] using hrid
  · intro r' hr'
    have hne : r' ≠ r := fun hrr => h.not_both hw (hrr ▸ hr')
    rw [(released_frame h (.inl hw) (.inr hr') hne pool').1]
    exact h.running_held r' hr'
  · intro r' hr'
    by_cases hrr : r' = r
    · subst hrr; simp [released]
    · rw [(released_frame h (.inl hw) (.inl hr') hrr pool').1]
      exact h.waiting_held r' hr'
  · intro rid
    by_cases hid : rid = s.idOf r
    · subst hid; simp [released, KVCacheCoordinator.blocksOf, hheld]
    · simp [released, KVCacheCoordinator.blocksOf, Function.update_of_ne hid]
  · intro rid hrid
    by_cases hid : rid = s.idOf r
    · subst hid; simp [released] at hrid
    · rw [released, PrefixCache.setSequence_of_ne hid] at hrid
      exact .inl hrid
  · intro r' hr'
    have hne : r' ≠ r := fun hrr => h.not_both hw (hrr ▸ hr')
    rw [(released_frame h (.inl hw) (.inr hr') hne pool').2]
    exact h.running_tracked r' hr'
  · intro r' hr'
    have hne : r' ≠ r := fun hrr => h.not_both hw (hrr ▸ hr')
    rw [(released_frame h (.inl hw) (.inr hr') hne pool').2]
    exact h.mapped r' hr'
  · intro r' hr'
    by_cases hrr : r' = r
    · subst hrr; simp [released]
    · rw [(released_frame h (.inl hw) (.inl hr') hrr pool').2]
      exact h.queued r' hr'

/-! ### Seating a candidate -/

/-- `r` left the queue for a slot, holding the blocks of its match and `fresh` ones. -/
def placed (s : BatchPlanner) (r : RequestRef) (hit : PrefixMatch) (chunk : Nat)
    (pool' : BlockPool) (fresh : List BlockId) (slot : Nat) : BatchPlanner :=
  { s with
    objects := Function.update s.objects r { s.objects r with
      slot := some slot, status := .running, numCachedTokens := hit.numTokens
      numComputedTokens := hit.numTokens + chunk }
    waiting := s.waiting.erase r
    running := s.running ++ [r]
    freeSlots := s.freeSlots.tail
    prefixCache := { s.prefixCache with
      coordinator := ⟨pool', Function.update s.prefixCache.coordinator.requests (s.idOf r)
        (some ⟨hit.blocks ++ fresh, hit.blocks.length⟩)⟩ } }

omit [Aside] in
theorem placed_objects_of_ne (hne : r' ≠ r) (hit : PrefixMatch) (chunk : Nat) (pool' : BlockPool)
    (fresh : List BlockId) (slot : Nat) :
    (s.placed r hit chunk pool' fresh slot).objects r' = s.objects r' :=
  Function.update_of_ne hne _ _

omit [Aside] in
@[simp] theorem placed_objects_self (s : BatchPlanner) (r : RequestRef) (hit : PrefixMatch)
    (chunk : Nat) (pool' : BlockPool) (fresh : List BlockId) (slot : Nat) :
    (s.placed r hit chunk pool' fresh slot).objects r = { s.objects r with
      slot := some slot, status := .running, numCachedTokens := hit.numTokens
      numComputedTokens := hit.numTokens + chunk } :=
  Function.update_self _ _ _

omit [Aside] in
theorem idOf_placed (s : BatchPlanner) (r : RequestRef) (hit : PrefixMatch) (chunk : Nat)
    (pool' : BlockPool) (fresh : List BlockId) (slot : Nat) :
    (s.placed r hit chunk pool' fresh slot).idOf = s.idOf :=
  idOf_update s r rfl rfl

omit [Aside] in
theorem heldBy_placed_self (s : BatchPlanner) (r : RequestRef) (hit : PrefixMatch) (chunk : Nat)
    (pool' : BlockPool) (fresh : List BlockId) (slot : Nat) :
    (s.placed r hit chunk pool' fresh slot).heldBy r =
      ⟨hit.blocks ++ fresh, hit.blocks.length⟩ := by
  rw [heldBy, idOf_placed]
  simp [placed]

omit [Aside] in
theorem heldBy_placed_of_ne (h : s.idOf r' ≠ s.idOf r) (hit : PrefixMatch) (chunk : Nat)
    (pool' : BlockPool) (fresh : List BlockId) (slot : Nat) :
    (s.placed r hit chunk pool' fresh slot).heldBy r' = s.heldBy r' := by
  rw [heldBy, idOf_placed, heldBy]
  simp only [placed, Function.update_of_ne h]

omit [Aside] in
theorem seqOf_placed (s : BatchPlanner) (r : RequestRef) (hit : PrefixMatch) (chunk : Nat)
    (pool' : BlockPool) (fresh : List BlockId) (slot : Nat) :
    (s.placed r hit chunk pool' fresh slot).seqOf = s.seqOf := by
  funext r'
  rw [seqOf, idOf_placed, seqOf]
  rfl

theorem placed_live (h : s.Inv) (hw : r ∈ s.waiting) (hit : PrefixMatch) (chunk : Nat)
    (pool' : BlockPool) (fresh : List BlockId) (slot : Nat) :
    (s.placed r hit chunk pool' fresh slot).Live r' ↔ s.Live r' := by
  simp only [Live, placed, mem_erase_waiting h, List.mem_append, List.mem_singleton]
  by_cases hrr : r' = r
  · subst hrr; simp [hw]
  · simp [hrr]

/-- Seating keeps the invariant. -/
theorem Inv.placed_inv (h : s.Inv) (chunk : Nat) (hw : r ∈ s.waiting)
    (htracked : (s.prefixCache.sequences (s.idOf r)).isSome) {slot : Nat} {free : List Nat}
    (hslot : s.freeSlots = slot :: free) (hseats : s.running.length < s.maxNumSeqs)
    {hit : PrefixMatch} {pool' : BlockPool} {fresh : List BlockId}
    (hgrew : BlockPool.Grew s.pool pool' (s.references + (hit.blocks : Multiset BlockId)) fresh) :
    (s.placed r hit chunk pool' fresh slot).Inv := by
  have hnot : r ∉ s.running := fun hr => h.not_both hw hr
  have hne : ∀ r' ∈ s.running, r' ≠ r := fun r' hr' hrr => hnot (hrr ▸ hr')
  have hmem : ∀ r', r' ∈ (s.placed r hit chunk pool' fresh slot).running ↔
      r' ∈ s.running ∨ r' = r := by
    intro r'; simp [placed]
  refine
    { nodup := ?_, bound := fun r' hr' => h.bound r' ((placed_live h hw ..).mp hr')
      requests_iff := fun rid r' => by
        rw [placed_live h hw, idOf_placed]; exact h.requests_iff rid r'
      parked_lt := h.parked_lt
      apart := fun r' hr' => by
        rw [idOf_placed]; exact h.apart r' ((placed_live h hw ..).mp hr')
      waiting_ok := ?_, running_ok := ?_, retired := ?_, slots := ?_, seats := ?_, holds := ?_
      coord_live := ?_, running_held := ?_, waiting_held := ?_
      tracked := fun rid hrid => by
        refine (h.tracked rid hrid).imp_right ?_
        rintro ⟨r', hr', hid⟩
        exact ⟨r', (placed_live h hw ..).mpr hr', by rw [idOf_placed]; exact hid⟩
      running_tracked := ?_, mapped := ?_, queued := ?_, pending := ?_ }
  · have hperm : (s.waiting ++ s.running).Perm (s.waiting.erase r ++ (s.running ++ [r])) := by
      have h₁ := (List.perm_cons_erase hw).append_right s.running
      refine h₁.trans ?_
      rw [List.cons_append, ← List.append_assoc]
      exact (List.perm_append_singleton r (s.waiting.erase r ++ s.running)).symm
    exact hperm.nodup h.nodup
  · intro r' hr'
    obtain ⟨hrr, hr'⟩ := (mem_erase_waiting h).mp hr'
    rw [slotOf, placed_objects_of_ne hrr]
    exact h.waiting_ok r' hr'
  · intro r' hr'
    rcases (hmem r').mp hr' with hr' | rfl
    · rw [slotOf, placed_objects_of_ne (hne r' hr')]
      exact h.running_ok r' hr'
    · rw [slotOf, placed_objects_self]
      exact ⟨rfl, rfl⟩
  · intro r' hb hl hp
    rw [placed_live h hw] at hl
    have hrr : r' ≠ r := by
      rintro rfl
      exact hl (.inl hw)
    rw [placed_objects_of_ne hrr]
    exact h.retired r' hb hl hp
  · have hsame : s.running.filterMap (s.placed r hit chunk pool' fresh slot).slotOf =
        s.running.filterMap s.slotOf :=
      List.filterMap_congr fun r' hr' => by rw [slotOf, placed_objects_of_ne (hne r' hr')]; rfl
    have hrun : (s.placed r hit chunk pool' fresh slot).running = s.running ++ [r] := rfl
    have hself : (s.placed r hit chunk pool' fresh slot).slotOf r = some slot := by
      rw [slotOf, placed_objects_self]
    have hfree : (s.placed r hit chunk pool' fresh slot).freeSlots = free := by
      simp [placed, hslot]
    rw [hrun, List.filterMap_append, hsame, hfree]
    simp only [List.filterMap_cons, hself, List.filterMap_nil]
    have hold := h.slots
    rw [hslot] at hold
    refine List.Perm.trans ?_ hold
    rw [← List.append_assoc]
    exact List.perm_append_singleton slot _
  · have hlen : (s.placed r hit chunk pool' fresh slot).running.length = s.running.length + 1 := by
      simp [placed]
    rw [hlen]
    exact hseats
  · have hrefs : (s.placed r hit chunk pool' fresh slot).references =
        s.references + (hit.blocks : Multiset BlockId) + (fresh : Multiset BlockId) := by
      have hsame : s.running.flatMap
          (fun r' => ((s.placed r hit chunk pool' fresh slot).heldBy r').blocks) =
          s.running.flatMap fun r' => (s.heldBy r').blocks :=
        List.flatMap_congr fun r' hr' => by
          rw [heldBy_placed_of_ne (h.id_ne (.inr hr') (.inl hw) (hne r' hr'))]
      have hrun : (s.placed r hit chunk pool' fresh slot).running = s.running ++ [r] := rfl
      simp only [references, hrun, List.flatMap_append, hsame, List.flatMap_cons, List.flatMap_nil,
        heldBy_placed_self, List.append_nil, ← Multiset.coe_add, add_assoc]
      rw [add_left_comm (Aside.held : Multiset BlockId), add_comm (Aside.held : Multiset BlockId)]
    rw [hrefs]
    exact hgrew.holds
  · intro rid hrid
    by_cases hid : rid = s.idOf r
    · exact .inr ⟨r, (placed_live h hw ..).mpr (.inl hw), by rw [idOf_placed]; exact hid.symm⟩
    · simp only [placed, Function.update_of_ne hid] at hrid
      refine (h.coord_live rid hrid).imp_right ?_
      rintro ⟨r', hr', hid'⟩
      exact ⟨r', (placed_live h hw ..).mpr hr', by rw [idOf_placed]; exact hid'⟩
  · intro r' hr'
    rw [idOf_placed]
    by_cases hid : s.idOf r' = s.idOf r
    · rw [hid]
      simp [placed]
    · rcases (hmem r').mp hr' with hr' | rfl
      · simp only [placed, Function.update_of_ne hid]
        exact h.running_held r' hr'
      · exact absurd rfl hid
  · intro r' hr'
    obtain ⟨hrr, hr'⟩ := (mem_erase_waiting h).mp hr'
    rw [heldBy_placed_of_ne (h.id_ne (.inl hr') (.inl hw) hrr)]
    exact h.waiting_held r' hr'
  · intro r' hr'
    rw [idOf_placed]
    rcases (hmem r').mp hr' with hr' | rfl
    · exact h.running_tracked r' hr'
    · exact htracked
  · intro r' hr'
    rw [seqOf_placed]
    rcases (hmem r').mp hr' with hr' | rfl
    · rw [heldBy_placed_of_ne (h.id_ne (.inr hr') (.inl hw) (hne r' hr'))]
      exact h.mapped r' hr'
    · rw [(h.queued r' hw).1]
      exact Nat.zero_le _
  · intro r' hr'
    obtain ⟨hrr, hr'⟩ := (mem_erase_waiting h).mp hr'
    rw [seqOf_placed]
    exact h.queued r' hr'
  · intro e he
    exact (hmem e.1).mpr (.inl (h.pending e he))

/-- A match names whole blocks, each indexed under the request's own hash. -/
structure Matches (s : BatchPlanner) (r : RequestRef) (hit : PrefixMatch) : Prop where
  numTokens : hit.numTokens = 16 * hit.blocks.length
  le : hit.numTokens ≤ (s.objects r).promptLen - 1
  hash : ∀ (j : Nat) (b : BlockId), hit.blocks[j]? = some b →
    ∃ hash, (s.seqOf r).blockHashes[j]? = some hash ∧ s.pool.hashOf b = some hash

theorem Matches.servable (h : s.Inv) {hit : PrefixMatch} (hhit : s.Matches r hit) :
    ∀ b ∈ hit.blocks, b ≠ nullBlockId ∧ b < s.pool.numBlocks := by
  intro b hb
  obtain ⟨j, hj⟩ := List.mem_iff_getElem?.mp hb
  obtain ⟨hash, -, hhash⟩ := hhit.hash j b hj
  have hmem := (h.holds.index_iff hash b).mpr hhash
  exact ⟨h.holds.indexed_ne_null hmem, h.holds.index_bound hash b hmem⟩

/-- What the lookup of a tracked candidate returns is a match for it. -/
theorem lookup_matches (h : s.Inv) (hashes : List BlockHash) (hw : r ∈ s.waiting) :
    (s.tracked r hashes).Matches r
      ((s.tracked r hashes).prefixCache.lookup hashes (s.objects r).promptLen) := by
  obtain ⟨hnum, hle, -, hindexed⟩ := PrefixCache.lookup_spec (s.tracked r hashes).prefixCache hashes
    (s.objects r).promptLen
  refine ⟨hnum, hle, fun j b hj => ?_⟩
  obtain ⟨hash, hget, hmem⟩ := hindexed j b hj
  refine ⟨hash, by rw [seqOf_tracked_self]; exact hget, ?_⟩
  exact ((h.tracked_inv hw hashes).holds.index_iff hash b).mp hmem

/-- The pool is short of the blocks an admission needs. -/
def AdmissionShort (s : BatchPlanner) (n : Nat) (hit : PrefixMatch) : Prop :=
  s.prefixCache.coordinator.admissionShort n hit.blocks

/-- Allocating for a candidate: it is served, or what was touched goes back. -/
theorem allocate_candidate (h : s.Inv) (hw : r ∈ s.waiting) {hit : PrefixMatch}
    (hhit : s.Matches r hit) (n : Nat) :
    (s.AdmissionShort n hit ∧ ∃ cache pool', s.prefixCache.allocate (s.idOf r) n (some hit) =
        .ok (false, cache) ∧ cache.free (s.idOf r) = .ok (s.refused r pool').prefixCache ∧
      pool'.Holds s.references ∧ SameIndex s.pool pool') ∨
    (¬ s.AdmissionShort n hit ∧ ∃ pool' fresh,
      s.prefixCache.allocate (s.idOf r) n (some hit) = .ok (true, { s.prefixCache with
        coordinator := ⟨pool', Function.update s.prefixCache.coordinator.requests (s.idOf r)
          (some ⟨hit.blocks ++ fresh, hit.blocks.length⟩)⟩ }) ∧
      BlockPool.Grew s.pool pool' (s.references + (hit.blocks : Multiset BlockId)) fresh ∧
      numBlocksFor n ≤ (hit.blocks ++ fresh).length) := by
  have hserve := hhit.servable h
  have hnone := h.waiting_held r hw
  by_cases hshort : s.AdmissionShort n hit
  · obtain ⟨pool', left, hrun, hleft, hholds, hgeo, hindex, hhash⟩ :=
      KVCacheCoordinator.allocate_refuse h.holds hnone hserve hshort
    refine .inl ⟨hshort, { s.prefixCache with
      coordinator := ⟨pool', Function.update s.prefixCache.coordinator.requests (s.idOf r) left⟩ },
      pool', ?_, ?_, hholds, hgeo, hindex, hhash⟩
    · rw [PrefixCache.allocate_hit hhit.numTokens, hrun]; rfl
    · rw [PrefixCache.free_empty (by simpa using hleft)]
      simp only [refused, recached, released, Function.update_idem]
  · obtain ⟨pool', fresh, hrun, hgrew, hcover⟩ :=
      KVCacheCoordinator.allocate_admit h.holds hnone hserve hshort
    refine .inr ⟨hshort, pool', fresh, ?_, hgrew, hcover⟩
    rw [PrefixCache.allocate_hit hhit.numTokens, hrun]
    rfl

/-- `r` was seated, its blocks mapped and its chunk's registration queued. -/
def seated (s : BatchPlanner) (r : RequestRef) (hit : PrefixMatch) (chunk : Nat)
    (pool' : BlockPool) (fresh : List BlockId) (slot : Nat) : BatchPlanner :=
  let t := (s.placed r hit chunk pool' fresh slot).mapped r
  { t with pendingBlocks := t.pendingBlocks ++ [(r, hit.numTokens + chunk)] }

/-- Seating a candidate whose blocks are allocated, when there is a slot. -/
theorem seat_ok [BlockDigest] (h : s.Inv) (chunk : Nat) (hw : r ∈ s.waiting)
    (htracked : (s.prefixCache.sequences (s.idOf r)).isSome) {slot : Nat} {free : List Nat}
    (hslot : s.freeSlots = slot :: free) (hseats : s.running.length < s.maxNumSeqs)
    {hit : PrefixMatch} {pool' : BlockPool} {fresh : List BlockId}
    (hgrew : BlockPool.Grew s.pool pool' (s.references + (hit.blocks : Multiset BlockId)) fresh) :
    (s.recached { s.prefixCache with
      coordinator := ⟨pool', Function.update s.prefixCache.coordinator.requests (s.idOf r)
        (some ⟨hit.blocks ++ fresh, hit.blocks.length⟩)⟩ }).seat r hit chunk =
      .ok (s.seated r hit chunk pool' fresh slot) := by
  have hinv := h.placed_inv chunk hw htracked hslot hseats hgrew
  have hmem : r ∈ (s.placed r hit chunk pool' fresh slot).running := by simp [placed]
  have hpop : ∀ cache, ((s.recached cache).popWaiting (s.objects r).requestId) =
      { s.recached cache with waiting := s.waiting.erase r } := by
    intro cache
    have hwaiting : ((s.recached cache).popWaiting (s.objects r).requestId).waiting =
        s.waiting.erase r := popWaiting_eq h (.inl hw) rfl (fun _ => rfl) rfl
    rw [← hwaiting, popWaiting]
  have hfree : ∀ cache, (s.recached cache).freeSlots = slot :: free := fun _ => hslot
  simp only [seat, hfree]
  have hid : ∀ cache, ((s.recached cache).objects r).requestId = (s.objects r).requestId :=
    fun _ => rfl
  rw [hid, hpop]
  have hplaced : BatchPlanner.modify { s.recached { s.prefixCache with
      coordinator := ⟨pool', Function.update s.prefixCache.coordinator.requests (s.idOf r)
        (some ⟨hit.blocks ++ fresh, hit.blocks.length⟩)⟩ } with
      waiting := s.waiting.erase r, running := s.running ++ [r], freeSlots := free } r
        (fun request => { request with
          slot := some slot, status := .running, numCachedTokens := hit.numTokens
          numComputedTokens := hit.numTokens + chunk }) =
      s.placed r hit chunk pool' fresh slot := by
    simp only [placed, hslot, List.tail_cons]
    rfl
  have hmap := mapBlocks_eq hinv hmem
  rw [seated, ← hmap, ← hplaced]
  rfl

/-- A seated candidate keeps the invariant. -/
theorem Inv.seated_inv [BlockDigest] (h : s.Inv) (hw : r ∈ s.waiting)
    (htracked : (s.prefixCache.sequences (s.idOf r)).isSome) {slot : Nat} {free : List Nat}
    (hslot : s.freeSlots = slot :: free) (hseats : s.running.length < s.maxNumSeqs)
    {hit : PrefixMatch} {chunk : Nat} {pool' : BlockPool} {fresh : List BlockId}
    (hgrew : BlockPool.Grew s.pool pool' (s.references + (hit.blocks : Multiset BlockId)) fresh) :
    (s.seated r hit chunk pool' fresh slot).Inv := by
  have hinv := h.placed_inv chunk hw htracked hslot hseats hgrew
  have hmem : r ∈ (s.placed r hit chunk pool' fresh slot).running := by simp [placed]
  exact (hinv.mapped_inv hmem).trackPending hmem _

/-! ### Speculative growth -/

/-- `r` was given `fresh` blocks for a verify stretch, their writes appended to its plan. -/
def stretched (s : BatchPlanner) (r : RequestRef) (pool' : BlockPool) (fresh : List BlockId) :
    BatchPlanner :=
  let t := s.grown r pool' fresh
  (t.recached (t.prefixCache.setSequence (t.idOf r)
    (some { t.seqOf r with numMappedBlocks := (t.heldBy r).blocks.length }))).modify r
      fun request => { request with blockPlan := request.blockPlan ++ t.owedWrites r }

theorem Inv.stretched_inv (h : s.Inv) (hr : r ∈ s.running) {pool' : BlockPool}
    {fresh : List BlockId} (hgrew : BlockPool.Grew s.pool pool' s.references fresh) :
    (s.stretched r pool' fresh).Inv :=
  ((h.grown hr hgrew).remap hr).modify (fun request =>
    { request with blockPlan := request.blockPlan ++ (s.grown r pool' fresh).owedWrites r })
    rfl rfl rfl

/-- A verify stretch is as long as the pool reaches; nobody is evicted for it. -/
theorem reserveFit_ok [BlockDigest] (h : s.Inv) (hr : r ∈ s.running) (fit : Nat) :
    ∃ n ≤ fit, (∀ m, n < m → m ≤ fit → s.pool.numFreeBlocks <
        numBlocksFor ((s.objects r).seqLen + m) - (s.heldBy r).blocks.length) ∧
      (n = 0 ∧ s.reserveFit r fit = .ok (0, s) ∨
        ∃ pool' fresh, s.reserveFit r fit = .ok (n, s.stretched r pool' fresh) ∧
          BlockPool.Grew s.pool pool' s.references fresh ∧
          numBlocksFor ((s.objects r).seqLen + n) ≤ ((s.heldBy r).blocks ++ fresh).length) := by
  induction fit with
  | zero => exact ⟨0, le_rfl, fun m hm hle => absurd (hm.trans_le hle) (lt_irrefl 0), .inl ⟨rfl, rfl⟩⟩
  | succ fit ih =>
    rcases allocate_cases h hr ((s.objects r).seqLen + (fit + 1)) with
      ⟨hrun, hshort⟩ | ⟨pool', fresh, hrun, -, hgrew, hcover⟩
    · have hstep : s.reserveFit r (fit + 1) = s.reserveFit r fit := by
        rw [reserveFit, hrun]; rfl
      obtain ⟨n, hle, hlongest, hrest⟩ := ih
      refine ⟨n, Nat.le_succ_of_le hle, fun m hm hmle => ?_, hstep ▸ hrest⟩
      rcases Nat.le_succ_iff.mp hmle with hmle | rfl
      · exact hlongest m hm hmle
      · exact hshort
    · refine ⟨fit + 1, le_rfl, fun m hm hle => absurd (hm.trans_le hle) (lt_irrefl _),
        .inr ⟨pool', fresh, ?_, hgrew, hcover⟩⟩
      have hinv := h.grown hr hgrew
      have htake := takeTableWrites_planner hinv hr
      have hid : ((s.grown r pool' fresh).objects r).requestId = (s.grown r pool' fresh).idOf r :=
        rfl
      rw [reserveFit, hrun]
      simp only [ok_bind, if_true, hid, htake, pure_eq_ok, stretched, recached]

end BatchPlanner

end RapidLlm
