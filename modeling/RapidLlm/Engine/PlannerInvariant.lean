import RapidLlm.Engine.BatchPlanner

/-!
# RapidLlm.Engine.PlannerInvariant

**The resource invariant of the planner**, and what each of its mutations does
under it.

`BatchPlanner.Inv` says who is where: a live request is queued or running and not
both, its id leads back to it, the slots of the running requests and the free
ones are the slots there are, and the pool holds one reference for each block of
each running request.

Requests in neither queue may hold blocks as well, once there is an offloading tier;
the parameter `Aside` says what they account for, and without a tier it is nothing.

Under the invariant no mutation raises, and each one ends in a state that can be
written down: `evicted`, `grown`, `mapped`, `seated`, `committed`, `retired`. The
lemmas `*_ok` name that state, the lemmas `Inv.*` say that the invariant holds in
it. What the invariant does not mention (tokens, counters, hash chains) the later
modules read off these states.
-/

namespace RapidLlm

namespace BatchPlanner

/-- A request the planner still owes something. -/
def Live (s : BatchPlanner) (r : RequestRef) : Prop := r ∈ s.waiting ∨ r ∈ s.running

/-- The request id of an object. -/
def idOf (s : BatchPlanner) (r : RequestRef) : RequestId := (s.objects r).requestId

/-- What the coordinator keeps for a request. -/
def heldBy (s : BatchPlanner) (r : RequestRef) : RequestBlocks :=
  (s.prefixCache.coordinator.requests (s.idOf r)).getD {}

/-- What the prefix cache keeps for a request. -/
def seqOf (s : BatchPlanner) (r : RequestRef) : Sequence :=
  (s.prefixCache.sequences (s.idOf r)).getD {}

/-- The block pool. -/
def pool (s : BatchPlanner) : BlockPool := s.prefixCache.coordinator.pool

/-- What requests outside both queues account for: their references on the pool, the ids they
are tracked under, and those of them the planner still has under their id. -/
class Aside where
  held : Multiset BlockId
  tracks : RequestId → Prop
  parked : RequestRef → Prop

/-- Without an offloading tier there are none. -/
instance Aside.nobody : Aside := ⟨0, fun _ => False, fun _ => False⟩

/-- Every reference the requests hold on the pool. -/
def references [Aside] (s : BatchPlanner) : Multiset BlockId :=
  (s.running.flatMap fun r => (s.heldBy r).blocks : List BlockId) + Aside.held

/-- The references of everybody but `r`. -/
def referencesBut [Aside] (s : BatchPlanner) (r : RequestRef) : Multiset BlockId :=
  ((s.running.erase r).flatMap fun r' => (s.heldBy r').blocks : List BlockId) + Aside.held

/-- The slot a running request sits in. -/
def slotOf (s : BatchPlanner) (r : RequestRef) : Option Nat := (s.objects r).slot

/-- The resource invariant. A queued request holds nothing: at most an empty list is left of an
allocation the pool refused. -/
structure Inv [Aside] (s : BatchPlanner) : Prop where
  nodup : (s.waiting ++ s.running).Nodup
  bound : ∀ r, s.Live r → r < s.numObjects
  requests_iff : ∀ rid r, s.requests rid = some r ↔ (s.Live r ∨ Aside.parked r) ∧ s.idOf r = rid
  parked_lt : ∀ r, Aside.parked r → r < s.numObjects
  apart : ∀ r, s.Live r → ¬ Aside.parked r ∧ ¬ Aside.tracks (s.idOf r)
  waiting_ok : ∀ r ∈ s.waiting, (s.objects r).status = .waiting ∧ s.slotOf r = none
  running_ok : ∀ r ∈ s.running, (s.objects r).status = .running ∧ (s.slotOf r).isSome
  retired : ∀ r < s.numObjects, ¬ s.Live r → ¬ Aside.parked r → (s.objects r).status = .finished
  slots : (s.freeSlots ++ s.running.filterMap s.slotOf).Perm (List.range s.numSlots)
  seats : s.running.length ≤ s.maxNumSeqs
  holds : s.pool.Holds s.references
  coord_live : ∀ rid, (s.prefixCache.coordinator.requests rid).isSome →
    Aside.tracks rid ∨ ∃ r, s.Live r ∧ s.idOf r = rid
  running_held : ∀ r ∈ s.running, (s.prefixCache.coordinator.requests (s.idOf r)).isSome
  waiting_held : ∀ r ∈ s.waiting, s.heldBy r = {}
  tracked : ∀ rid, (s.prefixCache.sequences rid).isSome →
    Aside.tracks rid ∨ ∃ r, s.Live r ∧ s.idOf r = rid
  running_tracked : ∀ r ∈ s.running, (s.prefixCache.sequences (s.idOf r)).isSome
  mapped : ∀ r ∈ s.running, (s.seqOf r).numMappedBlocks ≤ (s.heldBy r).blocks.length
  queued : ∀ r ∈ s.waiting, (s.seqOf r).numMappedBlocks = 0 ∧ (s.seqOf r).numCachedTokens = 0
  pending : ∀ e ∈ s.pendingBlocks, e.1 ∈ s.running

variable [Aside] {s s' : BatchPlanner} {r r' : RequestRef}

namespace Inv

/-- Live requests have different ids. -/
theorem id_inj (h : s.Inv) (hr : s.Live r) (hr' : s.Live r') (hid : s.idOf r = s.idOf r') :
    r = r' := by
  have h₁ := (h.requests_iff (s.idOf r) r).mpr ⟨.inl hr, rfl⟩
  have h₂ := (h.requests_iff (s.idOf r) r').mpr ⟨.inl hr', hid.symm⟩
  exact Option.some.inj (h₁.symm.trans h₂)

theorem id_ne (h : s.Inv) (hr : s.Live r) (hr' : s.Live r') (hne : r ≠ r') :
    s.idOf r ≠ s.idOf r' :=
  fun hid => hne (h.id_inj hr hr' hid)

theorem waiting_nodup (h : s.Inv) : s.waiting.Nodup := (List.nodup_append.mp h.nodup).1

theorem running_nodup (h : s.Inv) : s.running.Nodup := (List.nodup_append.mp h.nodup).2.1

/-- Nobody is queued and running at once. -/
theorem not_both (h : s.Inv) (hw : r ∈ s.waiting) (hr : r ∈ s.running) : False :=
  (List.nodup_append.mp h.nodup).2.2 r hw r hr rfl

theorem coord_some (h : s.Inv) (hr : r ∈ s.running) :
    s.prefixCache.coordinator.requests (s.idOf r) = some (s.heldBy r) := by
  obtain ⟨state, hstate⟩ := Option.isSome_iff_exists.mp (h.running_held r hr)
  rw [heldBy, hstate, Option.getD_some]

theorem seq_some (h : s.Inv) (hr : r ∈ s.running) :
    s.prefixCache.sequences (s.idOf r) = some (s.seqOf r) := by
  obtain ⟨state, hstate⟩ := Option.isSome_iff_exists.mp (h.running_tracked r hr)
  rw [seqOf, hstate, Option.getD_some]

theorem mem_references (hr : r ∈ s.running) {b : BlockId} (hb : b ∈ (s.heldBy r).blocks) :
    b ∈ s.references := by
  rw [references, Multiset.mem_add, Multiset.mem_coe, List.mem_flatMap]
  exact .inl ⟨r, hr, hb⟩

/-- What `r` holds, and the others. -/
theorem references_erase (hr : r ∈ s.running) :
    s.references = s.referencesBut r + ((s.heldBy r).blocks : Multiset BlockId) := by
  have hperm := (List.perm_cons_erase hr).flatMap_right fun r => (s.heldBy r).blocks
  rw [references, referencesBut, Multiset.coe_eq_coe.mpr hperm, List.flatMap_cons,
    ← Multiset.coe_add, add_comm ((s.heldBy r).blocks : Multiset BlockId), add_right_comm]

theorem slots_erase (h : s.Inv) (hr : r ∈ s.running) {slot : Nat} (hslot : s.slotOf r = some slot) :
    (slot :: s.freeSlots ++ (s.running.erase r).filterMap s.slotOf).Perm
      (List.range s.numSlots) := by
  refine List.Perm.trans ?_ h.slots
  have hperm := (List.perm_cons_erase hr).filterMap s.slotOf
  rw [List.filterMap_cons_some hslot] at hperm
  refine List.Perm.trans ?_ (hperm.symm.append_left s.freeSlots)
  exact List.perm_middle.symm

end Inv

/-- The planner with another cache. -/
def recached (s : BatchPlanner) (cache : PrefixCache) : BatchPlanner :=
  { s with prefixCache := cache }

/-! ### Changes that move nobody

A mutation of the objects that leaves id, status and slot alone, and a change of the
cache that keeps what the invariant reads of it, keep the invariant. -/

omit [Aside] in
theorem modify_objects_of_ne (change : Request → Request) (hne : r' ≠ r) :
    (s.modify r change).objects r' = s.objects r' :=
  Function.update_of_ne hne _ _

omit [Aside] in
@[simp] theorem modify_objects_self (change : Request → Request) :
    (s.modify r change).objects r = change (s.objects r) :=
  Function.update_self _ _ _

/-- A change of one object under which nobody moves. -/
theorem Inv.modify (h : s.Inv) (change : Request → Request)
    (hid : (change (s.objects r)).requestId = (s.objects r).requestId)
    (hstatus : (change (s.objects r)).status = (s.objects r).status)
    (hslot : (change (s.objects r)).slot = (s.objects r).slot) : (s.modify r change).Inv := by
  have hids : (s.modify r change).idOf = s.idOf := by
    funext r'
    by_cases hr : r' = r
    · subst hr; simpa [idOf] using hid
    · simp [idOf, modify_objects_of_ne change hr]
  have hslots : (s.modify r change).slotOf = s.slotOf := by
    funext r'
    by_cases hr : r' = r
    · subst hr; simpa [slotOf] using hslot
    · simp [slotOf, modify_objects_of_ne change hr]
  have hstatuses : ∀ r', ((s.modify r change).objects r').status = (s.objects r').status := by
    intro r'
    by_cases hr : r' = r
    · subst hr; simpa using hstatus
    · simp [modify_objects_of_ne change hr]
  have hheld : (s.modify r change).heldBy = s.heldBy := by
    funext r'; simp only [heldBy, hids]; rfl
  have hseq : (s.modify r change).seqOf = s.seqOf := by
    funext r'; simp only [seqOf, hids]; rfl
  exact
    { nodup := h.nodup, bound := h.bound
      requests_iff := fun rid r' => by rw [hids]; exact h.requests_iff rid r'
      parked_lt := h.parked_lt, apart := fun r' => by rw [hids]; exact h.apart r'
      waiting_ok := fun r' hr' => by rw [hstatuses, hslots]; exact h.waiting_ok r' hr'
      running_ok := fun r' hr' => by rw [hstatuses, hslots]; exact h.running_ok r' hr'
      retired := fun r' hb hl => by rw [hstatuses]; exact h.retired r' hb hl
      slots := by rw [hslots]; exact h.slots
      seats := h.seats
      holds := by
        have : (s.modify r change).references = s.references := by
          simp only [references, hheld]; rfl
        rw [this]; exact h.holds
      coord_live := fun rid => by rw [hids]; exact h.coord_live rid
      running_held := fun r' => by rw [hids]; exact h.running_held r'
      waiting_held := fun r' => by rw [hheld]; exact h.waiting_held r'
      tracked := fun rid => by rw [hids]; exact h.tracked rid
      running_tracked := fun r' => by rw [hids]; exact h.running_tracked r'
      mapped := fun r' => by rw [hseq, hheld]; exact h.mapped r'
      queued := fun r' => by rw [hseq]; exact h.queued r'
      pending := h.pending }

/-- A change of the cache that keeps every request's blocks and leaves a chain to every
request that had one. -/
theorem Inv.recache (h : s.Inv) {cache : PrefixCache}
    (hholds : cache.coordinator.pool.Holds s.references)
    (hcoord : ∀ rid, (cache.coordinator.requests rid).isSome →
      (s.prefixCache.coordinator.requests rid).isSome)
    (hheld : ∀ r ∈ s.running, (cache.coordinator.requests (s.idOf r)).isSome)
    (hnone : ∀ r ∈ s.waiting, (cache.coordinator.requests (s.idOf r)).getD {} = {})
    (hblocks : ∀ rid, cache.coordinator.blocksOf rid = s.prefixCache.coordinator.blocksOf rid)
    (hseq : ∀ rid, (cache.sequences rid).isSome → (s.prefixCache.sequences rid).isSome ∨
      ∃ r, s.Live r ∧ s.idOf r = rid)
    (hkept : ∀ r ∈ s.running, (cache.sequences (s.idOf r)).isSome)
    (hmapped : ∀ r ∈ s.running, ((cache.sequences (s.idOf r)).getD {}).numMappedBlocks ≤
      (s.heldBy r).blocks.length)
    (hqueued : ∀ r ∈ s.waiting, ((cache.sequences (s.idOf r)).getD {}).numMappedBlocks = 0 ∧
      ((cache.sequences (s.idOf r)).getD {}).numCachedTokens = 0) :
    (s.recached cache).Inv := by
  have hsame : ∀ r, ((s.recached cache).heldBy r).blocks = (s.heldBy r).blocks :=
    fun r => hblocks (s.idOf r)
  exact
    { nodup := h.nodup, bound := h.bound, requests_iff := h.requests_iff
      parked_lt := h.parked_lt, apart := h.apart
      waiting_ok := h.waiting_ok, running_ok := h.running_ok, retired := h.retired
      slots := h.slots, seats := h.seats
      holds := by
        have : (s.recached cache).references = s.references := by
          simp only [references, hsame]
          rfl
        rw [this]; exact hholds
      coord_live := fun rid hrid => h.coord_live rid (hcoord rid hrid)
      running_held := hheld, waiting_held := hnone
      tracked := fun rid hrid => by
        rcases hseq rid hrid with hold | hlive
        · exact h.tracked rid hold
        · exact .inr hlive
      running_tracked := hkept
      mapped := fun r hr => by rw [hsame]; exact hmapped r hr
      queued := hqueued
      pending := h.pending }

/-! ### Growing a request -/

/-- `r` was given the blocks `fresh`. -/
def grown (s : BatchPlanner) (r : RequestRef) (pool' : BlockPool) (fresh : List BlockId) :
    BatchPlanner :=
  { s with prefixCache := { s.prefixCache with
      coordinator := ⟨pool', Function.update s.prefixCache.coordinator.requests (s.idOf r)
        (some { s.heldBy r with blocks := (s.heldBy r).blocks ++ fresh })⟩ } }

omit [Aside] in
theorem heldBy_grown_self (s : BatchPlanner) (r : RequestRef) (pool' : BlockPool)
    (fresh : List BlockId) : (s.grown r pool' fresh).heldBy r =
      { s.heldBy r with blocks := (s.heldBy r).blocks ++ fresh } := by
  simp only [heldBy, grown, idOf, Function.update_self, Option.getD_some]

omit [Aside] in
theorem heldBy_grown_of_ne (h : s.idOf r' ≠ s.idOf r) (pool' : BlockPool) (fresh : List BlockId) :
    (s.grown r pool' fresh).heldBy r' = s.heldBy r' := by
  have hne : (s.objects r').requestId ≠ (s.objects r).requestId := h
  simp only [heldBy, grown, idOf, Function.update_of_ne hne]

/-- Growing either changes nothing, for want of blocks, or draws what is missing. -/
theorem allocate_cases (h : s.Inv) (hr : r ∈ s.running) (n : Nat) :
    (s.allocate r n = .ok (false, s) ∧
      s.pool.numFreeBlocks < numBlocksFor n - (s.heldBy r).blocks.length) ∨
    ∃ pool' fresh, s.allocate r n = .ok (true, s.grown r pool' fresh) ∧
      numBlocksFor n - (s.heldBy r).blocks.length ≤ s.pool.numFreeBlocks ∧
      BlockPool.Grew s.pool pool' s.references fresh ∧
      numBlocksFor n ≤ ((s.heldBy r).blocks ++ fresh).length := by
  have hreq := h.coord_some hr
  by_cases hlt : s.pool.numFreeBlocks < numBlocksFor n - (s.heldBy r).blocks.length
  · left
    have hshort := KVCacheCoordinator.allocate_short hreq hlt
    refine ⟨?_, hlt⟩
    have hreq' : s.prefixCache.coordinator.allocate (s.objects r).requestId n none =
        .ok (false, s.prefixCache.coordinator) := hshort
    simp only [allocate, PrefixCache.allocate, hreq', ok_bind, pure_eq_ok]
  · right
    obtain ⟨pool', fresh, hrun, hgrew, hcover⟩ :=
      KVCacheCoordinator.allocate_grow h.holds hreq (Nat.le_of_not_lt hlt)
    refine ⟨pool', fresh, ?_, Nat.le_of_not_lt hlt, hgrew, hcover⟩
    have hrun' : s.prefixCache.coordinator.allocate (s.objects r).requestId n none = _ := hrun
    simp only [allocate, PrefixCache.allocate, hrun', ok_bind, pure_eq_ok, grown, idOf]

/-- What the running requests hold once `r` grew. -/
theorem references_grown (h : s.Inv) (hr : r ∈ s.running) (pool' : BlockPool)
    (fresh : List BlockId) :
    (s.grown r pool' fresh).references = s.references + (fresh : Multiset BlockId) := by
  have hself : (s.grown r pool' fresh).references = (s.grown r pool' fresh).referencesBut r +
      ((s.heldBy r).blocks ++ fresh : List BlockId) := by
    have := Inv.references_erase (s := s.grown r pool' fresh) hr
    rwa [heldBy_grown_self] at this
  have hothers : (s.running.erase r).flatMap (fun r' => ((s.grown r pool' fresh).heldBy r').blocks) =
      (s.running.erase r).flatMap fun r' => (s.heldBy r').blocks := by
    refine List.flatMap_congr fun r' hr' => ?_
    have hmem := (h.running_nodup.mem_erase_iff).mp hr'
    rw [heldBy_grown_of_ne (h.id_ne (.inr hmem.2) (.inr hr) hmem.1)]
  have hbut : (s.grown r pool' fresh).referencesBut r = s.referencesBut r := by
    rw [referencesBut, referencesBut, ← hothers]
    rfl
  rw [hself, hbut, ← Multiset.coe_add, ← add_assoc, ← Inv.references_erase hr]

theorem Inv.grown (h : s.Inv) (hr : r ∈ s.running) {pool' : BlockPool} {fresh : List BlockId}
    (hgrew : BlockPool.Grew s.pool pool' s.references fresh) : (s.grown r pool' fresh).Inv :=
  { nodup := h.nodup, bound := h.bound, requests_iff := h.requests_iff
    parked_lt := h.parked_lt, apart := h.apart
    waiting_ok := h.waiting_ok, running_ok := h.running_ok, retired := h.retired
    slots := h.slots, seats := h.seats
    holds := by rw [references_grown h hr]; exact hgrew.holds
    coord_live := fun rid hrid => by
      by_cases hself : rid = s.idOf r
      · exact .inr ⟨r, .inr hr, hself.symm⟩
      · simp only [BatchPlanner.grown, Function.update_of_ne hself] at hrid
        exact h.coord_live rid hrid
    running_held := fun r' hr' => by
      by_cases hself : s.idOf r' = s.idOf r
      · have hid : (s.grown r pool' fresh).idOf r' = s.idOf r := hself
        rw [hid]
        simp [BatchPlanner.grown]
      · have hid : (s.grown r pool' fresh).idOf r' = s.idOf r' := rfl
        rw [hid]
        simp only [BatchPlanner.grown, Function.update_of_ne hself]
        exact h.running_held r' hr'
    waiting_held := fun r' hr' => by
      have hne : r' ≠ r := fun hrr => h.not_both hr' (hrr ▸ hr)
      rw [heldBy_grown_of_ne (h.id_ne (.inl hr') (.inr hr) hne)]
      exact h.waiting_held r' hr'
    tracked := h.tracked, running_tracked := h.running_tracked
    mapped := fun r' hr' => by
      by_cases hrr : r' = r
      · subst hrr
        rw [heldBy_grown_self, List.length_append]
        exact Nat.le_trans (h.mapped r' hr') (Nat.le_add_right _ _)
      · rw [heldBy_grown_of_ne (h.id_ne (.inr hr') (.inr hr) hrr)]
        exact h.mapped r' hr'
    queued := h.queued, pending := h.pending }

/-! ### Mapping -/

/-- The table writes a request is owed. -/
def owedWrites (s : BatchPlanner) (r : RequestRef) : List TableWrite :=
  if (s.heldBy r).blocks.length = (s.seqOf r).numMappedBlocks then []
  else [⟨0, (s.seqOf r).numMappedBlocks, (s.heldBy r).blocks.drop (s.seqOf r).numMappedBlocks⟩]

/-- Every block of `r` is mapped, and the writes that do it are in its block plan. -/
def mapped (s : BatchPlanner) (r : RequestRef) : BatchPlanner :=
  (s.recached (s.prefixCache.setSequence (s.idOf r)
    (some { s.seqOf r with numMappedBlocks := (s.heldBy r).blocks.length }))).modify r
      fun request => { request with blockPlan := s.owedWrites r }

theorem takeTableWrites_planner (h : s.Inv) (hr : r ∈ s.running) :
    s.prefixCache.takeTableWrites (s.idOf r) = (s.owedWrites r, s.prefixCache.setSequence (s.idOf r)
      (some { s.seqOf r with numMappedBlocks := (s.heldBy r).blocks.length })) := by
  obtain ⟨hcache, hwrites⟩ := PrefixCache.takeTableWrites_eq (h.seq_some hr) (h.mapped r hr)
  exact Prod.ext hwrites hcache

theorem mapBlocks_eq (h : s.Inv) (hr : r ∈ s.running) : s.mapBlocks r = s.mapped r := by
  have htake : s.prefixCache.takeTableWrites (s.objects r).requestId = _ :=
    takeTableWrites_planner h hr
  simp only [mapBlocks, htake, mapped, recached]

/-- Remapping `r` up to its last block. -/
theorem Inv.remap (h : s.Inv) (hr : r ∈ s.running) :
    (s.recached (s.prefixCache.setSequence (s.idOf r)
      (some { s.seqOf r with numMappedBlocks := (s.heldBy r).blocks.length }))).Inv := by
  refine h.recache h.holds (fun _ => id) h.running_held h.waiting_held (fun _ => rfl) ?_ ?_ ?_ ?_
  · intro rid hrid
    by_cases hid : rid = s.idOf r
    · exact .inr ⟨r, .inr hr, hid.symm⟩
    · rw [PrefixCache.setSequence_of_ne hid] at hrid
      exact .inl hrid
  · intro r' hr'
    by_cases hid : s.idOf r' = s.idOf r
    · simp [hid]
    · rw [PrefixCache.setSequence_of_ne hid]
      exact h.running_tracked r' hr'
  · intro r' hr'
    by_cases hrr : r' = r
    · subst hrr; simp
    · rw [PrefixCache.setSequence_of_ne (h.id_ne (.inr hr') (.inr hr) hrr)]
      exact h.mapped r' hr'
  · intro r' hr'
    have hne : r' ≠ r := fun hrr => h.not_both hr' (hrr ▸ hr)
    rw [PrefixCache.setSequence_of_ne (h.id_ne (.inl hr') (.inr hr) hne)]
    exact h.queued r' hr'

theorem Inv.mapped_inv (h : s.Inv) (hr : r ∈ s.running) : (s.mapped r).Inv :=
  (h.remap hr).modify _ rfl rfl rfl

/-- Queueing a registration for a running request. -/
theorem Inv.trackPending [BlockDigest] (h : s.Inv) (hr : r ∈ s.running) (n : Nat) :
    (s.trackPending r n).Inv :=
  { nodup := h.nodup, bound := h.bound, requests_iff := h.requests_iff
    parked_lt := h.parked_lt, apart := h.apart
    waiting_ok := h.waiting_ok, running_ok := h.running_ok, retired := h.retired
    slots := h.slots, seats := h.seats, holds := h.holds, coord_live := h.coord_live
    running_held := h.running_held, waiting_held := h.waiting_held, tracked := h.tracked
    running_tracked := h.running_tracked, mapped := h.mapped
    queued := h.queued
    pending := fun e he => by
      rcases List.mem_append.mp he with he | he
      · exact h.pending e he
      · rw [List.mem_singleton] at he
        exact he ▸ hr }

/-! ### Registration -/

/-- Blocks of `r` were indexed, and its chain is `hashes`. -/
def committed (s : BatchPlanner) (r : RequestRef) (hashes : List BlockHash)
    (numCached numCachedTokens : Nat) (pool' : BlockPool) : BatchPlanner :=
  s.recached ({ s.prefixCache with
    coordinator := ⟨pool', Function.update s.prefixCache.coordinator.requests (s.idOf r)
      (some { s.heldBy r with numCached })⟩ }.setSequence (s.idOf r)
        (some { s.seqOf r with blockHashes := hashes, numCachedTokens }))

omit [Aside] in
/-- Committing a request whose blocks the pool holds. It is stated on what `commit` reads
and not on the invariant, because a retiring request commits too. -/
theorem commit_ok [BlockDigest] {held : Multiset BlockId} (hholds : s.pool.Holds held)
    (hseq : s.prefixCache.sequences (s.idOf r) = some (s.seqOf r))
    (hreq : s.prefixCache.coordinator.requests (s.idOf r) = some (s.heldBy r))
    (hbs : ∀ b ∈ (s.heldBy r).blocks, b ∈ held) (upto : Nat) :
    ∃ hashes numCached numCachedTokens pool',
      s.commit r upto = .ok (s.committed r hashes numCached numCachedTokens pool') ∧
      (hashes = (s.seqOf r).blockHashes ∨
        hashes = extendBlockHashes (s.seqOf r).blockHashes (s.objects r).tokens) ∧
      s.prefixCache.coordinator.Indexed (s.heldBy r) hashes upto held pool' numCached := by
  -- both branches commit a cache whose chain for `r` is `hashes`
  have hcommit : ∀ hashes, ∃ numCached numCachedTokens pool',
      (do let written ← (s.prefixCache.setSequence (s.idOf r)
            (some { s.seqOf r with blockHashes := hashes })).commit (s.idOf r) upto
          return { s with prefixCache := written.2 } : Except Raised BatchPlanner) =
        .ok (s.committed r hashes numCached numCachedTokens pool') ∧
      s.prefixCache.coordinator.Indexed (s.heldBy r) hashes upto held pool' numCached := by
    intro hashes
    let cache := s.prefixCache.setSequence (s.idOf r)
      (some { s.seqOf r with blockHashes := hashes })
    have hself : cache.sequences (s.idOf r) = some { s.seqOf r with blockHashes := hashes } :=
      PrefixCache.setSequence_self _ _ _
    have hholds' : cache.coordinator.pool.Holds held := hholds
    have hreq' : cache.coordinator.requests (s.idOf r) = some (s.heldBy r) := hreq
    obtain ⟨fresh, pool', numCached, numCachedTokens, hrun, hindexed⟩ :=
      PrefixCache.commit_ok hholds' hself hreq' hbs upto
    refine ⟨numCached, numCachedTokens, pool', ?_, hindexed⟩
    rw [hrun]
    simp only [cache, ok_bind, pure_eq_ok, committed, recached, PrefixCache.setSequence,
      Function.update_idem]
  have hself : s.prefixCache.setSequence (s.idOf r)
      (some { s.seqOf r with blockHashes := (s.seqOf r).blockHashes }) = s.prefixCache := by
    rw [show ({ s.seqOf r with blockHashes := (s.seqOf r).blockHashes } : Sequence) = s.seqOf r
      from rfl, ← hseq, PrefixCache.setSequence, Function.update_eq_self]
  have hseq' : s.prefixCache.sequences (s.objects r).requestId = some (s.seqOf r) := hseq
  by_cases hlong : upto / prefixCacheBlockSize > (s.prefixCache.blockHashes (s.idOf r)).length
  · obtain ⟨numCached, numCachedTokens, pool', hrun, hindexed⟩ :=
      hcommit (extendBlockHashes (s.seqOf r).blockHashes (s.objects r).tokens)
    refine ⟨_, numCached, numCachedTokens, pool', ?_, .inr rfl, hindexed⟩
    have hobserve : s.prefixCache.observe (s.objects r).requestId (s.objects r).tokens =
        s.prefixCache.setSequence (s.idOf r) (some { s.seqOf r with
          blockHashes := extendBlockHashes (s.seqOf r).blockHashes (s.objects r).tokens }) := by
      simp only [PrefixCache.observe, hseq', idOf]
    rw [← hrun, commit]
    simp only [hobserve, idOf] at hlong ⊢
    rw [if_pos hlong]
  · obtain ⟨numCached, numCachedTokens, pool', hrun, hindexed⟩ := hcommit (s.seqOf r).blockHashes
    refine ⟨_, numCached, numCachedTokens, pool', ?_, .inl rfl, hindexed⟩
    rw [hself] at hrun
    rw [← hrun, commit]
    simp only [idOf] at hlong ⊢
    rw [if_neg hlong]

theorem Inv.committed (h : s.Inv) (hr : r ∈ s.running) {hashes : List BlockHash}
    {numCached numCachedTokens : Nat} {pool' : BlockPool} (hholds : pool'.Holds s.references) :
    (s.committed r hashes numCached numCachedTokens pool').Inv := by
  refine h.recache hholds ?_ ?_ ?_ ?_ ?_ ?_ ?_ ?_
  · intro rid
    by_cases hid : rid = s.idOf r
    · subst hid; simp [h.coord_some hr]
    · simp [Function.update_of_ne hid]
  · intro r' hr'
    by_cases hid : s.idOf r' = s.idOf r
    · simp [hid]
    · simpa [Function.update_of_ne hid] using h.running_held r' hr'
  · intro r' hr'
    have hne : r' ≠ r := fun hrr => h.not_both hr' (hrr ▸ hr)
    have hheld := h.waiting_held r' hr'
    rw [heldBy] at hheld
    simpa [Function.update_of_ne (h.id_ne (.inl hr') (.inr hr) hne)] using hheld
  · intro rid
    simp only [KVCacheCoordinator.blocksOf, PrefixCache.setSequence_coordinator]
    by_cases hid : rid = s.idOf r
    · subst hid; simp [h.coord_some hr]
    · simp [Function.update_of_ne hid]
  · intro rid hrid
    by_cases hid : rid = s.idOf r
    · exact .inr ⟨r, .inr hr, hid.symm⟩
    · rw [PrefixCache.setSequence_of_ne hid] at hrid
      exact .inl hrid
  · intro r' hr'
    by_cases hid : s.idOf r' = s.idOf r
    · simp [hid]
    · rw [PrefixCache.setSequence_of_ne hid]
      exact h.running_tracked r' hr'
  · intro r' hr'
    by_cases hrr : r' = r
    · subst hrr; simpa using h.mapped r' hr'
    · rw [PrefixCache.setSequence_of_ne (h.id_ne (.inr hr') (.inr hr) hrr)]
      exact h.mapped r' hr'
  · intro r' hr'
    have hne : r' ≠ r := fun hrr => h.not_both hr' (hrr ▸ hr)
    rw [PrefixCache.setSequence_of_ne (h.id_ne (.inl hr') (.inr hr) hne)]
    exact h.queued r' hr'

/-! ### Leaving the running set -/

/-- The cache once `r` gave its blocks back and is not tracked any more. -/
def released (s : BatchPlanner) (r : RequestRef) (pool' : BlockPool) : PrefixCache :=
  { s.prefixCache with
    coordinator := ⟨pool', Function.update s.prefixCache.coordinator.requests (s.idOf r) none⟩
    }.setSequence (s.idOf r) none

/-- A pool that only differs in who holds what. -/
structure SameIndex (pool pool' : BlockPool) : Prop where
  geometry : pool'.geometry = pool.geometry
  index : pool'.cachedBlockHashToBlock = pool.cachedBlockHashToBlock
  hashOf : ∀ b, pool'.hashOf b = pool.hashOf b

theorem freeBlocks_ok (h : s.Inv) (hr : r ∈ s.running) :
    ∃ pool', s.prefixCache.free (s.idOf r) = .ok (s.released r pool') ∧
      pool'.Holds (s.referencesBut r) ∧ SameIndex s.pool pool' := by
  have hholds := h.holds
  rw [Inv.references_erase hr] at hholds
  obtain ⟨pool', hfree, hrest, hgeo, hindex, hhash⟩ :=
    PrefixCache.free_ok (h.coord_some hr) hholds
  exact ⟨pool', hfree, hrest, hgeo, hindex, hhash⟩

/-- `r` was evicted to the head of the queue. -/
def evicted (s : BatchPlanner) (r : RequestRef) (pool' : BlockPool) : BatchPlanner :=
  { s with
    objects := Function.update s.objects r (evict (s.objects r))
    freeSlots := (s.slotOf r).toList ++ s.freeSlots
    pendingBlocks := s.pendingBlocks.filter fun entry => entry.1 ≠ r
    prefixCache := s.released r pool'
    running := s.running.erase r
    waiting := r :: s.waiting }

/-- Dropping an id from the queue drops the request that has it. -/
theorem waiting_filter (h : s.Inv) (hr : s.Live r) :
    s.waiting.filter (fun r' => s.idOf r' ≠ s.idOf r) = s.waiting.erase r := by
  rw [h.waiting_nodup.erase_eq_filter]
  refine List.filter_congr fun r' hr' => ?_
  by_cases hrr : r' = r
  · subst hrr; simp
  · simp [hrr, h.id_ne (.inl hr') hr hrr]

theorem popWaiting_eq (h : s.Inv) (hr : s.Live r) {t : BatchPlanner} {rid : RequestId}
    (hwaiting : t.waiting = s.waiting)
    (hids : ∀ r', (t.objects r').requestId = (s.objects r').requestId) (hrid : rid = s.idOf r) :
    (t.popWaiting rid).waiting = s.waiting.erase r := by
  rw [← waiting_filter h hr, popWaiting, hwaiting, hrid]
  exact List.filter_congr fun r' _ => decide_eq_decide.mpr (by rw [hids]; exact Iff.rfl)

theorem waiting_erase_running (h : s.Inv) (hr : r ∈ s.running) : s.waiting.erase r = s.waiting :=
  List.erase_of_not_mem fun hw => h.not_both hw hr

/-- Evicting a running request does not raise. -/
theorem preempt_ok [BlockDigest] (h : s.Inv) (hr : r ∈ s.running) :
    ∃ pool', s.preempt r = .ok (s.evicted r pool') ∧ pool'.Holds (s.referencesBut r) ∧
      SameIndex s.pool pool' := by
  obtain ⟨pool', hfree, hrest⟩ := freeBlocks_ok h hr
  refine ⟨pool', ?_, hrest⟩
  have hfree' : s.prefixCache.free (s.objects r).requestId = .ok (s.released r pool') := hfree
  let t : BatchPlanner := BatchPlanner.modify { s with
    freeSlots := (s.slotOf r).toList ++ s.freeSlots
    pendingBlocks := s.pendingBlocks.filter fun entry => entry.1 ≠ r
    prefixCache := s.released r pool' } r evict
  have hrun : s.preempt r = .ok { t with
      running := s.running.erase r, waiting := r :: (t.popWaiting (s.idOf r)).waiting } := by
    simp only [preempt, freeBlocks, hfree', ok_bind, pure_eq_ok, t, slotOf]
    cases (s.objects r).slot <;> rfl
  have hids : ∀ r', (t.objects r').requestId = (s.objects r').requestId := by
    intro r'
    by_cases hrr : r' = r
    · subst hrr; simp [t, evict]
    · simp only [t]; rw [modify_objects_of_ne _ hrr]
  have hpop : (t.popWaiting (s.idOf r)).waiting = s.waiting :=
    (popWaiting_eq (t := t) h (.inr hr) rfl hids rfl).trans (waiting_erase_running h hr)
  rw [hrun, hpop]
  rfl

/-- Nobody else's blocks or chain move when `r` releases its own. -/
theorem released_frame (h : s.Inv) (hr : s.Live r) (hr' : s.Live r') (hne : r' ≠ r)
    (pool' : BlockPool) :
    (s.released r pool').coordinator.requests (s.idOf r') =
        s.prefixCache.coordinator.requests (s.idOf r') ∧
      (s.released r pool').sequences (s.idOf r') = s.prefixCache.sequences (s.idOf r') :=
  ⟨Function.update_of_ne (h.id_ne hr' hr hne) _ _, Function.update_of_ne (h.id_ne hr' hr hne) _ _⟩

theorem mem_erase_running (h : s.Inv) : r' ∈ s.running.erase r ↔ r' ≠ r ∧ r' ∈ s.running :=
  h.running_nodup.mem_erase_iff

theorem mem_erase_waiting (h : s.Inv) : r' ∈ s.waiting.erase r ↔ r' ≠ r ∧ r' ∈ s.waiting :=
  h.waiting_nodup.mem_erase_iff

/-- What of the invariant holds in any state in which `r` released its blocks and does not
run any more, and nobody else's blocks or chain moved. -/
structure Left (s : BatchPlanner) (r : RequestRef) (t : BatchPlanner) : Prop where
  idOf : t.idOf = s.idOf
  heldBy : ∀ r', s.Live r' → r' ≠ r → t.heldBy r' = s.heldBy r'
  seqOf : ∀ r', s.Live r' → r' ≠ r → t.seqOf r' = s.seqOf r'
  heldBy_self : t.heldBy r = {}
  seqOf_self : t.seqOf r = {}
  holds : t.pool.Holds t.references
  coord_live : ∀ rid, (t.prefixCache.coordinator.requests rid).isSome →
    Aside.tracks rid ∨ ∃ r', s.Live r' ∧ r' ≠ r ∧ s.idOf r' = rid
  running_held : ∀ r ∈ t.running, (t.prefixCache.coordinator.requests (t.idOf r)).isSome
  tracked : ∀ rid, (t.prefixCache.sequences rid).isSome →
    Aside.tracks rid ∨ ∃ r', s.Live r' ∧ r' ≠ r ∧ s.idOf r' = rid
  running_tracked : ∀ r ∈ t.running, (t.prefixCache.sequences (t.idOf r)).isSome
  mapped : ∀ r ∈ t.running, (t.seqOf r).numMappedBlocks ≤ (t.heldBy r).blocks.length

theorem Inv.left (h : s.Inv) (hr : s.Live r) {t : BatchPlanner} {pool' : BlockPool}
    (hrun : t.running = s.running.erase r) (hcache : t.prefixCache = s.released r pool')
    (hid : t.idOf = s.idOf) (hholds : pool'.Holds (s.referencesBut r)) : Left s r t := by
  have hheld : ∀ r', s.Live r' → r' ≠ r → t.heldBy r' = s.heldBy r' := by
    intro r' hr' hne
    rw [heldBy, hid, hcache, (released_frame h hr hr' hne pool').1]
    rfl
  have hseq : ∀ r', s.Live r' → r' ≠ r → t.seqOf r' = s.seqOf r' := by
    intro r' hr' hne
    rw [seqOf, hid, hcache, (released_frame h hr hr' hne pool').2]
    rfl
  refine { idOf := hid, heldBy := hheld, seqOf := hseq, heldBy_self := ?_, seqOf_self := ?_
           holds := ?_, coord_live := ?_, running_held := ?_, tracked := ?_, running_tracked := ?_
           mapped := ?_ }
  · rw [BatchPlanner.heldBy, hid, hcache]; simp [released]
  · rw [BatchPlanner.seqOf, hid, hcache]; simp [released]
  · have hrefs : t.references = s.referencesBut r := by
      simp only [references, referencesBut, hrun]
      refine congrArg (fun bs : List BlockId => (bs : Multiset BlockId) + Aside.held)
        (List.flatMap_congr fun r' hr' => ?_)
      obtain ⟨hrr, hmem⟩ := (mem_erase_running h).mp hr'
      rw [hheld r' (.inr hmem) hrr]
    rw [hrefs, pool, hcache]
    exact hholds
  · intro rid hrid
    rw [hcache] at hrid
    by_cases hid : rid = s.idOf r
    · subst hid
      simp [released] at hrid
    · have hold : (s.prefixCache.coordinator.requests rid).isSome := by
        simpa [released, Function.update_of_ne hid] using hrid
      refine (h.coord_live rid hold).imp_right ?_
      rintro ⟨r', hr', hid'⟩
      exact ⟨r', hr', fun hrr => hid (by rw [← hid', hrr]), hid'⟩
  · intro r' hr'
    rw [hrun] at hr'
    obtain ⟨hrr, hr'⟩ := (mem_erase_running h).mp hr'
    rw [hid, hcache, (released_frame h hr (.inr hr') hrr pool').1]
    exact h.running_held r' hr'
  · intro rid hrid
    rw [hcache] at hrid
    by_cases hid : rid = s.idOf r
    · subst hid
      simp [released] at hrid
    · have hold : (s.prefixCache.sequences rid).isSome := by
        simpa [released, PrefixCache.setSequence, Function.update_of_ne hid] using hrid
      refine (h.tracked rid hold).imp_right ?_
      rintro ⟨r', hr', hid'⟩
      exact ⟨r', hr', fun hrr => hid (by rw [← hid', hrr]), hid'⟩
  · intro r' hr'
    rw [hrun] at hr'
    obtain ⟨hrr, hr'⟩ := (mem_erase_running h).mp hr'
    rw [hid, hcache, (released_frame h hr (.inr hr') hrr pool').2]
    exact h.running_tracked r' hr'
  · intro r' hr'
    rw [hrun] at hr'
    obtain ⟨hrr, hr'⟩ := (mem_erase_running h).mp hr'
    rw [hseq r' (.inr hr') hrr, hheld r' (.inr hr') hrr]
    exact h.mapped r' hr'

/-- The slots once `r` gave its own back. -/
theorem Inv.slots_left (h : s.Inv) (hr : s.Live r) {slotOf' : RequestRef → Option Nat}
    (hsame : ∀ r' ≠ r, slotOf' r' = s.slotOf r') :
    ((s.slotOf r).toList ++ s.freeSlots ++ (s.running.erase r).filterMap slotOf').Perm
      (List.range s.numSlots) := by
  have hfilter : (s.running.erase r).filterMap slotOf' = (s.running.erase r).filterMap s.slotOf :=
    List.filterMap_congr fun r' hr' => hsame r' ((mem_erase_running h).mp hr').1
  rw [hfilter]
  rcases hr with hw | hr
  · have hnot : r ∉ s.running := fun hr => h.not_both hw hr
    rw [(h.waiting_ok r hw).2, List.erase_of_not_mem hnot]
    exact h.slots
  · obtain ⟨slot, hslot⟩ := Option.isSome_iff_exists.mp (h.running_ok r hr).2
    rw [hslot]
    exact h.slots_erase hr hslot

omit [Aside] in
theorem idOf_update (s : BatchPlanner) (r : RequestRef) {t : BatchPlanner} {request : Request}
    (hobj : t.objects = Function.update s.objects r request)
    (hid : request.requestId = (s.objects r).requestId) : t.idOf = s.idOf := by
  funext r'
  rw [idOf, hobj, idOf]
  by_cases hr : r' = r
  · subst hr; rw [Function.update_self, hid]
  · rw [Function.update_of_ne hr]

omit [Aside] in
theorem evicted_objects_of_ne (hne : r' ≠ r) (pool' : BlockPool) :
    (s.evicted r pool').objects r' = s.objects r' :=
  Function.update_of_ne hne _ _

omit [Aside] in
@[simp] theorem evicted_objects_self (s : BatchPlanner) (r : RequestRef) (pool' : BlockPool) :
    (s.evicted r pool').objects r = evict (s.objects r) :=
  Function.update_self _ _ _

theorem evicted_left (h : s.Inv) (hr : r ∈ s.running) {pool' : BlockPool}
    (hholds : pool'.Holds (s.referencesBut r)) : Left s r (s.evicted r pool') :=
  h.left (.inr hr) rfl rfl (idOf_update s r rfl rfl) hholds

theorem evicted_live (h : s.Inv) (hr : r ∈ s.running) (pool' : BlockPool) :
    (s.evicted r pool').Live r' ↔ s.Live r' := by
  simp only [Live, evicted, List.mem_cons, mem_erase_running h]
  by_cases hrr : r' = r
  · subst hrr; simp [hr]
  · simp [hrr]

/-- Eviction keeps the invariant. -/
theorem Inv.evicted (h : s.Inv) (hr : r ∈ s.running) {pool' : BlockPool}
    (hholds : pool'.Holds (s.referencesBut r)) : (s.evicted r pool').Inv := by
  have hleft := evicted_left h hr hholds
  have hne : ∀ r' ∈ s.waiting, r' ≠ r := fun r' hw hrr => h.not_both hw (hrr ▸ hr)
  refine
    { nodup := ?_, bound := fun r' hr' => h.bound r' ((evicted_live h hr pool').mp hr')
      requests_iff := fun rid r' => by
        rw [evicted_live h hr, hleft.idOf]; exact h.requests_iff rid r'
      parked_lt := h.parked_lt
      apart := fun r' hr' => by
        rw [hleft.idOf]; exact h.apart r' ((evicted_live h hr pool').mp hr')
      waiting_ok := ?_, running_ok := ?_, retired := ?_
      slots := h.slots_left (.inr hr) fun r' hne => by rw [slotOf, evicted_objects_of_ne hne]; rfl
      seats := Nat.le_trans (List.length_erase_le) h.seats
      holds := hleft.holds
      coord_live := fun rid hrid => by
        refine (hleft.coord_live rid hrid).imp_right ?_
        rintro ⟨r', hr', -, hid⟩
        exact ⟨r', (evicted_live h hr pool').mpr hr', by rw [hleft.idOf]; exact hid⟩
      running_held := hleft.running_held, waiting_held := ?_
      tracked := fun rid hrid => by
        refine (hleft.tracked rid hrid).imp_right ?_
        rintro ⟨r', hr', -, hid⟩
        exact ⟨r', (evicted_live h hr pool').mpr hr', by rw [hleft.idOf]; exact hid⟩
      running_tracked := hleft.running_tracked, mapped := hleft.mapped
      queued := ?_, pending := ?_ }
  · have hperm : (r :: s.waiting ++ s.running.erase r).Perm (s.waiting ++ s.running) :=
      List.Perm.trans List.perm_middle.symm ((List.perm_cons_erase hr).symm.append_left _)
    exact hperm.symm.nodup h.nodup
  · intro r' hr'
    rcases List.mem_cons.mp hr' with rfl | hr'
    · simp [slotOf, evict]
    · rw [slotOf, evicted_objects_of_ne (hne r' hr')]
      exact h.waiting_ok r' hr'
  · intro r' hr'
    obtain ⟨hrr, hr'⟩ := (mem_erase_running h).mp hr'
    rw [slotOf, evicted_objects_of_ne hrr]
    exact h.running_ok r' hr'
  · intro r' hb hl hp
    rw [evicted_live h hr] at hl
    have hrr : r' ≠ r := by
      rintro rfl
      exact hl (.inr hr)
    rw [evicted_objects_of_ne hrr]
    exact h.retired r' hb hl hp
  · intro r' hr'
    rcases List.mem_cons.mp hr' with rfl | hr'
    · exact hleft.heldBy_self
    · rw [hleft.heldBy r' (.inl hr') (hne r' hr')]
      exact h.waiting_held r' hr'
  · intro r' hr'
    rcases List.mem_cons.mp hr' with rfl | hr'
    · simp [hleft.seqOf_self]
    · rw [hleft.seqOf r' (.inl hr') (hne r' hr')]
      exact h.queued r' hr'
  · intro e he
    have he' := List.mem_filter.mp he
    exact (mem_erase_running h).mpr ⟨by simpa using he'.2, h.pending e he'.1⟩

/-! ### Retirement -/

/-- The request as it is left when it ends. -/
def endWith (reason : FinishReason) (request : Request) : Request :=
  { request with status := .finished, finishReason := some reason, slot := none }

/-- `r` ended and holds nothing any more. -/
def retired (s : BatchPlanner) (r : RequestRef) (reason : FinishReason) (pool' : BlockPool) :
    BatchPlanner :=
  { s with
    objects := Function.update s.objects r (endWith reason (s.objects r))
    freeSlots := (s.slotOf r).toList ++ s.freeSlots
    pendingBlocks := s.pendingBlocks.filter fun entry => entry.1 ≠ r
    prefixCache := s.released r pool'
    running := s.running.erase r
    waiting := s.waiting.erase r
    requests := Function.update s.requests (s.idOf r) none }

omit [Aside] in
theorem retired_objects_of_ne (hne : r' ≠ r) (reason : FinishReason) (pool' : BlockPool) :
    (s.retired r reason pool').objects r' = s.objects r' :=
  Function.update_of_ne hne _ _

omit [Aside] in
@[simp] theorem retired_objects_self (s : BatchPlanner) (r : RequestRef) (reason : FinishReason)
    (pool' : BlockPool) : (s.retired r reason pool').objects r = endWith reason (s.objects r) :=
  Function.update_self _ _ _

theorem retired_live (h : s.Inv) (reason : FinishReason) (pool' : BlockPool) :
    (s.retired r reason pool').Live r' ↔ s.Live r' ∧ r' ≠ r := by
  simp only [Live, retired, mem_erase_running h, mem_erase_waiting h]
  tauto

theorem retired_left (h : s.Inv) (hr : s.Live r) (reason : FinishReason) {pool' : BlockPool}
    (hholds : pool'.Holds (s.referencesBut r)) : Left s r (s.retired r reason pool') :=
  h.left hr rfl rfl (idOf_update s r rfl rfl) hholds

/-- Retirement keeps the invariant. -/
theorem Inv.retire (h : s.Inv) (hr : s.Live r) {reason : FinishReason} {pool' : BlockPool}
    (hholds : pool'.Holds (s.referencesBut r)) : (s.retired r reason pool').Inv := by
  have hleft := retired_left h hr reason hholds
  refine
    { nodup := ?_, bound := fun r' hr' => h.bound r' ((retired_live h _ _).mp hr').1
      requests_iff := ?_
      parked_lt := h.parked_lt
      apart := fun r' hr' => by
        rw [hleft.idOf]; exact h.apart r' ((retired_live h _ _).mp hr').1
      waiting_ok := ?_, running_ok := ?_, retired := ?_
      slots := h.slots_left hr fun r' hne => by rw [slotOf, retired_objects_of_ne hne]; rfl
      seats := Nat.le_trans (List.length_erase_le) h.seats
      holds := hleft.holds
      coord_live := fun rid hrid => by
        refine (hleft.coord_live rid hrid).imp_right ?_
        rintro ⟨r', hr', hne, hid⟩
        exact ⟨r', (retired_live h _ _).mpr ⟨hr', hne⟩, by rw [hleft.idOf]; exact hid⟩
      running_held := hleft.running_held, waiting_held := ?_
      tracked := fun rid hrid => by
        refine (hleft.tracked rid hrid).imp_right ?_
        rintro ⟨r', hr', hne, hid⟩
        exact ⟨r', (retired_live h _ _).mpr ⟨hr', hne⟩, by rw [hleft.idOf]; exact hid⟩
      running_tracked := hleft.running_tracked, mapped := hleft.mapped
      queued := ?_, pending := ?_ }
  · exact h.nodup.sublist (List.Sublist.append List.erase_sublist List.erase_sublist)
  · intro rid r'
    rw [retired_live h, hleft.idOf]
    by_cases hid : rid = s.idOf r
    · subst hid
      simp only [BatchPlanner.retired, Function.update_self, reduceCtorEq, false_iff]
      rintro ⟨⟨hr', hne⟩ | hpark, hid⟩
      · exact h.id_ne hr' hr hne hid
      · have h₁ := (h.requests_iff (s.idOf r) r').mpr ⟨.inr hpark, hid⟩
        have h₂ := (h.requests_iff (s.idOf r) r).mpr ⟨.inl hr, rfl⟩
        have heq : r' = r := Option.some.inj (h₁.symm.trans h₂)
        exact (h.apart r hr).1 (heq ▸ hpark)
    · simp only [BatchPlanner.retired, Function.update_of_ne hid]
      rw [h.requests_iff]
      constructor
      · rintro ⟨hr', rfl⟩
        exact ⟨hr'.imp_left fun hr' => ⟨hr', fun hrr => hid (hrr ▸ rfl)⟩, rfl⟩
      · rintro ⟨hr', hid⟩
        exact ⟨hr'.imp_left And.left, hid⟩
  · intro r' hr'
    obtain ⟨hrr, hr'⟩ := (mem_erase_waiting h).mp hr'
    rw [slotOf, retired_objects_of_ne hrr]
    exact h.waiting_ok r' hr'
  · intro r' hr'
    obtain ⟨hrr, hr'⟩ := (mem_erase_running h).mp hr'
    rw [slotOf, retired_objects_of_ne hrr]
    exact h.running_ok r' hr'
  · intro r' hb hl hp
    by_cases hrr : r' = r
    · subst hrr; simp [endWith]
    · rw [retired_objects_of_ne hrr]
      exact h.retired r' hb (fun hl' => hl ((retired_live h _ _).mpr ⟨hl', hrr⟩)) hp
  · intro r' hr'
    obtain ⟨hrr, hr'⟩ := (mem_erase_waiting h).mp hr'
    rw [hleft.heldBy r' (.inl hr') hrr]
    exact h.waiting_held r' hr'
  · intro r' hr'
    obtain ⟨hrr, hr'⟩ := (mem_erase_waiting h).mp hr'
    rw [hleft.seqOf r' (.inl hr') hrr]
    exact h.queued r' hr'
  · intro e he
    have he' := List.mem_filter.mp he
    exact (mem_erase_running h).mpr ⟨by simpa using he'.2, h.pending e he'.1⟩

/-! ### Registrations, one after the other -/

section

variable [BlockDigest]

/-- `t` is `s` after one queued registration of `r` was cashed in. -/
inductive Commit (r : RequestRef) (s : BatchPlanner) : BatchPlanner → Prop
  | intro {upto numCached numCachedTokens : Nat} {hashes : List BlockHash}
      {pool' : BlockPool} (hentry : (r, upto) ∈ s.pendingBlocks)
      (hhashes : hashes = (s.seqOf r).blockHashes ∨
        hashes = extendBlockHashes (s.seqOf r).blockHashes (s.objects r).tokens)
      (hindexed : s.prefixCache.coordinator.Indexed (s.heldBy r) hashes upto s.references pool'
        numCached) :
      Commit r s (s.committed r hashes numCached numCachedTokens pool')

/-- `t` is `s` after some queued registrations of the requests in `who` were cashed in. -/
abbrev Commits (who : RequestRef → Prop) : BatchPlanner → BatchPlanner → Prop :=
  Relation.ReflTransGen fun s t => ∃ r, who r ∧ Commit r s t

/-- Cashing in a registration only rewrites the cache. -/
theorem Commit.recached {t : BatchPlanner} (h : Commit r s t) : t = s.recached t.prefixCache := by
  cases h; rfl

variable {who : RequestRef → Prop}

theorem Commits.recached {t : BatchPlanner} (h : Commits who s t) :
    t = s.recached t.prefixCache := by
  induction h with
  | refl => rfl
  | tail _ hlast ih =>
    obtain ⟨r, -, hlast⟩ := hlast
    rw [hlast.recached, ih]
    rfl

theorem Commit.inv {t : BatchPlanner} (h : Commit r s t) (hs : s.Inv) : t.Inv := by
  cases h with
  | intro hentry _ hindexed => exact hs.committed (hs.pending _ hentry) hindexed.holds

theorem Commits.inv {t : BatchPlanner} (h : Commits who s t) (hs : s.Inv) : t.Inv := by
  induction h with
  | refl => exact hs
  | tail _ hlast ih =>
    obtain ⟨r, -, hlast⟩ := hlast
    exact hlast.inv ih

/-- Cashing in a queued registration returns. -/
theorem commit_entry (h : s.Inv) {upto : Nat} (hentry : (r, upto) ∈ s.pendingBlocks) :
    ∃ t, s.commit r upto = .ok t ∧ Commit r s t := by
  have hr := h.pending _ hentry
  obtain ⟨hashes, numCached, numCachedTokens, pool', hrun, hhashes, hindexed⟩ :=
    commit_ok h.holds (h.seq_some hr) (h.coord_some hr) (fun _ hb => Inv.mem_references hr hb) upto
  exact ⟨_, hrun, .intro hentry hhashes hindexed⟩

/-- Stage 0: every registration is of a running request and is cashed in. -/
theorem commitPendingBlocks_ok (h : s.Inv) :
    ∃ t, Commits (fun _ => True) s t ∧ s.commitPendingBlocks = .ok { t with pendingBlocks := [] } := by
  have hfold : ∀ (entries : List (RequestRef × Nat)) (u : BatchPlanner),
      Commits (fun _ => True) s u → (∀ e ∈ entries, e ∈ s.pendingBlocks) →
      ∃ t, Commits (fun _ => True) s t ∧ entries.foldlM commitEntry u = .ok t := by
    intro entries
    induction entries with
    | nil => intro u hu _; exact ⟨u, hu, rfl⟩
    | cons e entries ih =>
      intro u hu hsub
      have hinv := hu.inv h
      have hentry : (e.1, e.2) ∈ u.pendingBlocks := by
        rw [hu.recached]; exact hsub e (by simp)
      obtain ⟨t, hrun, hcommit⟩ := commit_entry hinv hentry
      have hstatus := (hinv.running_ok _ (hinv.pending _ hentry)).1
      obtain ⟨t', ht', hrest⟩ := ih t (hu.tail ⟨e.1, trivial, hcommit⟩) fun e' he' =>
        hsub e' (by simp [he'])
      refine ⟨t', ht', ?_⟩
      have hstep : commitEntry u e = .ok t := by rw [commitEntry, if_pos hstatus, hrun]
      rw [List.foldlM_cons, hstep, ok_bind, hrest]
  obtain ⟨t, ht, hrun⟩ := hfold s.pendingBlocks s .refl fun _ he => he
  exact ⟨t, ht, by simp [commitPendingBlocks, hrun]⟩

omit [Aside] in
/-- A commit reads the cache and the request's id and tokens, nothing else. -/
theorem commit_transport {t : BatchPlanner} (hcache : t.prefixCache = s.prefixCache)
    (hid : (t.objects r).requestId = (s.objects r).requestId)
    (htokens : (t.objects r).tokens = (s.objects r).tokens) {upto : Nat} {u : BatchPlanner}
    (hrun : s.commit r upto = .ok u) : t.commit r upto = .ok (t.recached u.prefixCache) := by
  simp only [commit, hcache, hid, htokens] at hrun ⊢
  rw [bind_eq_ok] at hrun
  obtain ⟨res, hres, hu⟩ := hrun
  cases hu
  rw [hres]
  rfl

/-- A retiring request, already out of the running list, cashes in its registrations as it
would have in its place. -/
theorem settlePendingBlocks_ok (h : s.Inv) {t : BatchPlanner}
    (hcache : t.prefixCache = s.prefixCache) (hpending : t.pendingBlocks = s.pendingBlocks)
    (hid : (t.objects r).requestId = (s.objects r).requestId)
    (htokens : (t.objects r).tokens = (s.objects r).tokens) :
    ∃ u, Commits (· = r) s u ∧ t.settlePendingBlocks r = .ok { t.recached u.prefixCache with
      pendingBlocks := s.pendingBlocks.filter fun entry => entry.1 ≠ r } := by
  have hfold : ∀ (entries : List (RequestRef × Nat)) (u : BatchPlanner), Commits (· = r) s u →
      (∀ e ∈ entries, e ∈ s.pendingBlocks) →
      ∃ u', Commits (· = r) s u' ∧ entries.foldlM (settleEntry r) (t.recached u.prefixCache) =
        .ok (t.recached u'.prefixCache) := by
    intro entries
    induction entries with
    | nil => intro u hu _; exact ⟨u, hu, rfl⟩
    | cons e entries ih =>
      intro u hu hsub
      by_cases hr : e.1 = r
      · have hentry : (e.1, e.2) ∈ u.pendingBlocks := by
          rw [hu.recached]; exact hsub e (by simp)
        obtain ⟨u₁, hrun, hcommit⟩ := commit_entry (hu.inv h) hentry
        have hobj : u.objects = s.objects := by rw [hu.recached]; rfl
        have hrun' := commit_transport (s := u) (t := t.recached u.prefixCache) rfl
          (by rw [hobj, hr]; exact hid) (by rw [hobj, hr]; exact htokens) hrun
        obtain ⟨u', hu', hrest⟩ := ih u₁ (hu.tail ⟨e.1, hr, hcommit⟩) fun e' he' =>
          hsub e' (by simp [he'])
        refine ⟨u', hu', ?_⟩
        rw [List.foldlM_cons, settleEntry, if_pos hr, hrun', ok_bind]
        exact hrest
      · obtain ⟨u', hu', hrest⟩ := ih u hu fun e' he' => hsub e' (by simp [he'])
        refine ⟨u', hu', ?_⟩
        rw [List.foldlM_cons, settleEntry, if_neg hr, ok_bind]
        exact hrest
  obtain ⟨u, hu, hrun⟩ := hfold s.pendingBlocks s .refl fun _ he => he
  refine ⟨u, hu, ?_⟩
  have hself : t.recached s.prefixCache = t := by rw [recached, ← hcache]
  rw [hself] at hrun
  simp only [settlePendingBlocks, hpending, hrun, ok_bind, pure_eq_ok]

/-- Retiring a running request: its registrations are cashed in, then it leaves. -/
theorem finish_running (h : s.Inv) (hr : r ∈ s.running) (reason : FinishReason) :
    ∃ u pool', Commits (· = r) s u ∧ s.finish r reason = .ok (u.retired r reason pool') ∧
      pool'.Holds (u.referencesBut r) ∧ SameIndex u.pool pool' := by
  let t : BatchPlanner := { BatchPlanner.modify { s with
    freeSlots := (s.slotOf r).toList ++ s.freeSlots } r (endWith reason) with
      running := s.running.erase r }
  have hstatus := (h.running_ok r hr).1
  have hobj : t.objects r = endWith reason (s.objects r) := by simp [t]
  obtain ⟨u, hu, hsettle⟩ := settlePendingBlocks_ok (t := t) (r := r) h rfl rfl
    (by rw [hobj]; rfl) (by rw [hobj]; rfl)
  have hinv := hu.inv h
  have hrun : r ∈ u.running := by rw [hu.recached]; exact hr
  obtain ⟨pool', hfree, hrest⟩ := freeBlocks_ok hinv hrun
  refine ⟨u, pool', hu, ?_, hrest⟩
  have hidu : u.idOf r = (s.objects r).requestId := by rw [hu.recached]; rfl
  have hreq : s.requests (s.objects r).requestId = some r :=
    (h.requests_iff _ _).mpr ⟨.inl (.inr hr), rfl⟩
  have hwaiting : u.waiting.erase r = s.waiting := by
    rw [hu.recached]
    show s.waiting.erase r = s.waiting
    exact waiting_erase_running h hr
  rw [hidu] at hfree
  have hfinish : s.finish r reason = (do
      let planner ← t.settlePendingBlocks r
      let planner ← planner.freeBlocks (s.objects r).requestId
      if planner.requests (s.objects r).requestId = some r then
        return { planner with
          requests := Function.update planner.requests (s.objects r).requestId none }
      else return planner : Except Raised BatchPlanner) := by
    simp only [finish, hstatus, reduceCtorEq, if_false, if_true, t, slotOf, modify]
    cases (s.objects r).slot <;> rfl
  rw [hfinish, hsettle]
  simp only [ok_bind, pure_eq_ok, freeBlocks, recached, hfree]
  have hreq' : t.requests (s.objects r).requestId = some r := hreq
  rw [if_pos hreq', retired, hwaiting, hidu, hu.recached]
  rfl

end

/-! ### Retirement from the queue -/

/-- Releasing a queued request only stops tracking it. -/
theorem free_waiting (h : s.Inv) (hw : r ∈ s.waiting) :
    s.prefixCache.free (s.idOf r) = .ok (s.released r s.pool) := by
  rw [PrefixCache.free_empty (h.waiting_held r hw)]
  rfl

theorem referencesBut_waiting (h : s.Inv) (hw : r ∈ s.waiting) :
    s.referencesBut r = s.references := by
  rw [referencesBut, List.erase_of_not_mem fun hr => h.not_both hw hr, references]

theorem pending_filter (h : s.Inv) (hr : r ∉ s.running) :
    (s.pendingBlocks.filter fun entry => entry.1 ≠ r) = s.pendingBlocks := by
  refine List.filter_eq_self.mpr fun e he => ?_
  simp only [ne_eq, decide_not, Bool.not_eq_true', decide_eq_false_iff_not]
  exact fun hrr => hr (hrr ▸ h.pending e he)

/-- Retiring a queued request. -/
theorem finish_waiting [BlockDigest] (h : s.Inv) (hw : r ∈ s.waiting) (reason : FinishReason) :
    s.finish r reason = .ok (s.retired r reason s.pool) := by
  have hnot : r ∉ s.running := fun hr => h.not_both hw hr
  obtain ⟨hstatus, hslot⟩ := h.waiting_ok r hw
  let t : BatchPlanner := s.modify r (endWith reason)
  have hids : ∀ r', (t.objects r').requestId = (s.objects r').requestId := by
    intro r'
    by_cases hrr : r' = r
    · subst hrr; simp [t, endWith]
    · simp only [t]; rw [modify_objects_of_ne _ hrr]
  have hpop : (t.popWaiting (s.objects r).requestId).waiting = s.waiting.erase r :=
    popWaiting_eq (t := t) h (.inl hw) rfl hids rfl
  have hslot' : (s.objects r).slot = none := hslot
  have hfree : s.prefixCache.free (s.objects r).requestId = .ok (s.released r s.pool) :=
    free_waiting h hw
  have hreq : s.requests (s.objects r).requestId = some r :=
    (h.requests_iff _ _).mpr ⟨.inl (.inl hw), rfl⟩
  have hfinish : s.finish r reason = .ok { t with
      waiting := (t.popWaiting (s.objects r).requestId).waiting
      prefixCache := s.released r s.pool
      requests := Function.update s.requests (s.objects r).requestId none } := by
    simp only [finish, hstatus, hslot', reduceCtorEq, if_false, ok_bind, pure_eq_ok]
    simp only [freeBlocks, popWaiting, BatchPlanner.modify, hfree, ok_bind, pure_eq_ok]
    rw [if_pos hreq]
    rfl
  rw [hfinish, hpop, retired, hslot, pending_filter h hnot, List.erase_of_not_mem hnot]
  rfl

/-! ### Submission -/

/-- `request` joined the queue. -/
def added (s : BatchPlanner) (request : Request) : BatchPlanner :=
  { s with
    objects := Function.update s.objects s.numObjects request
    numObjects := s.numObjects + 1
    requests := Function.update s.requests request.requestId (some s.numObjects)
    waiting := s.waiting ++ [s.numObjects] }

/-- The generation cap a request is queued with. -/
def cap (s : BatchPlanner) (request : Request) : Nat :=
  resolveCap request.params.maxGenLen (s.config.maxSeqLen - request.promptLen)

omit [Aside] in
/-- The cap is at least one token and leaves the sequence inside the context window. -/
theorem cap_bounds {request : Request} (h : request.promptLen < s.config.maxSeqLen) :
    1 ≤ s.cap request ∧ request.promptLen + s.cap request ≤ s.config.maxSeqLen := by
  unfold cap resolveCap
  cases hgen : request.params.maxGenLen with
  | none => simp only; omega
  | some requested =>
    have hpos : requested ≠ 0 := fun h => request.params.maxGenLen_pos (h ▸ hgen)
    simp only
    split <;> omega

omit [Aside] in
/-- What an accepted request looked like, and where it went. -/
theorem addRequest_ok {request : Request} {ref : RequestRef}
    (h : s.addRequest request = .ok (ref, s')) :
    s.requests request.requestId = none ∧ request.status = .waiting ∧ request.slot = none ∧
      request.promptLen ≠ 0 ∧ request.promptLen < s.config.maxSeqLen ∧ ref = s.numObjects ∧
      s' = s.added { request with maxNewTokens := s.cap request } := by
  unfold addRequest at h
  simp only at h
  split at h
  · cases h
  split at h
  · cases h
  split at h
  · cases h
  split at h
  · cases h
  rename_i hreq hfresh hempty hlong
  simp only [not_or, ne_eq, not_not, Bool.not_eq_true, Option.isSome_eq_false_iff,
    Option.isNone_iff_eq_none] at hreq hfresh
  simp only [Except.ok.injEq, Prod.mk.injEq] at h
  exact ⟨hreq, hfresh.1, hfresh.2, hempty, by omega, h.1.symm, h.2.symm⟩

/-- Queueing a fresh request keeps the invariant, unless somebody outside the queues is still
tracked under its id. -/
theorem Inv.add (h : s.Inv) {request : Request} (hreq : s.requests request.requestId = none)
    (hapart : ¬ Aside.tracks request.requestId)
    (hstatus : request.status = .waiting) (hslot : request.slot = none) :
    (s.added request).Inv := by
  have hne : ∀ r', s.Live r' → r' ≠ s.numObjects := fun r' hr' => Nat.ne_of_lt (h.bound r' hr')
  have hobj : ∀ r', s.Live r' → (s.added request).objects r' = s.objects r' :=
    fun r' hr' => Function.update_of_ne (hne r' hr') _ _
  have hnew : (s.added request).objects s.numObjects = request := Function.update_self _ _ _
  have hlive : ∀ r', (s.added request).Live r' ↔ s.Live r' ∨ r' = s.numObjects := by
    intro r'
    simp only [Live, added, List.mem_append, List.mem_singleton]
    tauto
  have hid : ∀ r', s.Live r' → (s.added request).idOf r' = s.idOf r' := fun r' hr' => by
    rw [idOf, hobj r' hr', idOf]
  have hfree : ∀ r', s.Live r' → s.idOf r' ≠ request.requestId := by
    intro r' hr' heq
    have := (h.requests_iff request.requestId r').mpr ⟨.inl hr', heq⟩
    rw [hreq] at this
    cases this
  have hslots : ∀ r', s.Live r' → (s.added request).slotOf r' = s.slotOf r' := fun r' hr' => by
    rw [slotOf, hobj r' hr', slotOf]
  have hheld : ∀ r', s.Live r' → (s.added request).heldBy r' = s.heldBy r' := fun r' hr' => by
    rw [heldBy, hid r' hr']; rfl
  have hseq : ∀ r', s.Live r' → (s.added request).seqOf r' = s.seqOf r' := fun r' hr' => by
    rw [seqOf, hid r' hr']; rfl
  have huntracked : s.prefixCache.sequences request.requestId = none := by
    rw [← Option.not_isSome_iff_eq_none]
    intro hsome
    obtain ⟨r', hr', hid'⟩ := (h.tracked _ hsome).resolve_left hapart
    exact hfree r' hr' hid'
  have hunheld : s.prefixCache.coordinator.requests request.requestId = none := by
    rw [← Option.not_isSome_iff_eq_none]
    intro hsome
    obtain ⟨r', hr', hid'⟩ := (h.coord_live _ hsome).resolve_left hapart
    exact hfree r' hr' hid'
  have hparked : ∀ r', Aside.parked r' → (s.added request).idOf r' = s.idOf r' := fun r' hr' => by
    have hne' : r' ≠ s.numObjects := Nat.ne_of_lt (h.parked_lt r' hr')
    rw [idOf, idOf]
    exact congrArg Request.requestId (Function.update_of_ne hne' _ _)
  refine
    { nodup := ?_, bound := ?_, requests_iff := ?_, apart := ?_
      parked_lt := fun r' hr' => Nat.lt_succ_of_lt (h.parked_lt r' hr')
      waiting_ok := ?_, running_ok := ?_, retired := ?_, slots := ?_, seats := h.seats, holds := ?_
      coord_live := ?_, running_held := ?_, waiting_held := ?_, tracked := ?_
      running_tracked := ?_, mapped := ?_, queued := ?_, pending := h.pending }
  · have hperm : (s.numObjects :: (s.waiting ++ s.running)).Perm
        ((s.waiting ++ [s.numObjects]) ++ s.running) := by
      rw [List.append_assoc]
      exact List.perm_middle.symm
    refine hperm.nodup (List.nodup_cons.mpr ⟨fun hmem => ?_, h.nodup⟩)
    exact hne _ (List.mem_append.mp hmem) rfl
  · intro r' hr'
    rcases (hlive r').mp hr' with hr' | rfl
    · exact Nat.lt_succ_of_lt (h.bound r' hr')
    · exact Nat.lt_succ_self _
  · intro rid r'
    rw [hlive]
    by_cases hrid : rid = request.requestId
    · subst hrid
      simp only [added, Function.update_self, Option.some.injEq]
      constructor
      · rintro rfl
        exact ⟨.inl (.inr rfl), by rw [idOf]; exact congrArg Request.requestId hnew⟩
      · rintro ⟨(hr' | rfl) | hp, hid'⟩
        · exact absurd ((hid r' hr').symm.trans hid') (hfree r' hr')
        · rfl
        · have := (h.requests_iff request.requestId r').mpr
            ⟨.inr hp, (hparked r' hp).symm.trans hid'⟩
          rw [hreq] at this
          cases this
    · simp only [added, Function.update_of_ne hrid]
      rw [h.requests_iff]
      constructor
      · rintro ⟨hr' | hp, hid'⟩
        · exact ⟨.inl (.inl hr'), (hid r' hr').trans hid'⟩
        · exact ⟨.inr hp, (hparked r' hp).trans hid'⟩
      · rintro ⟨(hr' | rfl) | hp, hid'⟩
        · exact ⟨.inl hr', (hid r' hr').symm.trans hid'⟩
        · exact absurd (hid'.symm.trans (congrArg Request.requestId hnew)) hrid
        · exact ⟨.inr hp, (hparked r' hp).symm.trans hid'⟩
  · intro r' hr'
    rcases (hlive r').mp hr' with hr' | rfl
    · rw [hid r' hr']
      exact h.apart r' hr'
    · have hself : (s.added request).idOf s.numObjects = request.requestId :=
        congrArg Request.requestId hnew
      rw [hself]
      exact ⟨fun hp => absurd (h.parked_lt _ hp) (Nat.lt_irrefl _), hapart⟩
  · intro r' hr'
    rcases List.mem_append.mp hr' with hr' | hr'
    · rw [hobj r' (.inl hr'), hslots r' (.inl hr')]
      exact h.waiting_ok r' hr'
    · rw [List.mem_singleton] at hr'
      subst hr'
      rw [slotOf, hnew]
      exact ⟨hstatus, hslot⟩
  · intro r' hr'
    rw [hobj r' (.inr hr'), hslots r' (.inr hr')]
    exact h.running_ok r' hr'
  · intro r' hb hl hp
    have hl' : ¬ s.Live r' ∧ r' ≠ s.numObjects := by rw [hlive] at hl; tauto
    have hb' : r' < s.numObjects := Nat.lt_of_le_of_ne (Nat.le_of_lt_succ hb) hl'.2
    have hobj' : (s.added request).objects r' = s.objects r' := Function.update_of_ne hl'.2 _ _
    rw [hobj']
    exact h.retired r' hb' hl'.1 hp
  · have hsame : s.running.filterMap (s.added request).slotOf = s.running.filterMap s.slotOf :=
      List.filterMap_congr fun r' hr' => hslots r' (.inr hr')
    exact hsame ▸ h.slots
  · have hrefs : (s.added request).references = s.references := by
      simp only [references]
      exact congrArg (fun bs : List BlockId => (bs : Multiset BlockId) + Aside.held)
        (List.flatMap_congr fun r' hr' => by rw [hheld r' (.inr hr')])
    rw [hrefs]
    exact h.holds
  · intro rid hrid
    refine (h.coord_live rid hrid).imp_right ?_
    rintro ⟨r', hr', hid'⟩
    exact ⟨r', (hlive r').mpr (.inl hr'), (hid r' hr').trans hid'⟩
  · intro r' hr'
    rw [hid r' (.inr hr')]
    exact h.running_held r' hr'
  · intro r' hr'
    rcases List.mem_append.mp hr' with hr' | hr'
    · rw [hheld r' (.inl hr')]
      exact h.waiting_held r' hr'
    · rw [List.mem_singleton] at hr'
      subst hr'
      rw [heldBy, idOf, hnew]
      simp only [added, hunheld, Option.getD_none]
  · intro rid hrid
    refine (h.tracked rid hrid).imp_right ?_
    rintro ⟨r', hr', hid'⟩
    exact ⟨r', (hlive r').mpr (.inl hr'), (hid r' hr').trans hid'⟩
  · intro r' hr'
    rw [hid r' (.inr hr')]
    exact h.running_tracked r' hr'
  · intro r' hr'
    rw [hseq r' (.inr hr'), hheld r' (.inr hr')]
    exact h.mapped r' hr'
  · intro r' hr'
    rcases List.mem_append.mp hr' with hr' | hr'
    · rw [hseq r' (.inl hr')]
      exact h.queued r' hr'
    · rw [List.mem_singleton] at hr'
      subst hr'
      have : (s.added request).seqOf s.numObjects = {} := by
        rw [seqOf, idOf, hnew]
        simp only [added, huntracked, Option.getD_none]
      rw [this]
      exact ⟨rfl, rfl⟩

end BatchPlanner

end RapidLlm
