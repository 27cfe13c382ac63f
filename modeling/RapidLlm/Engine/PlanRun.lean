import RapidLlm.Engine.PlannerAdmission

/-!
# RapidLlm.Engine.PlanRun

**`plan` as a sequence of small steps.** One call commits, resumes, evicts, tracks,
refuses, admits and grows, in an order that depends on the whole state; every
invariant would otherwise have to walk through all of it again. Instead

* `Micro` lists everything `plan` can do to the planner at once, each time with the
  state it ends in and the facts it was done under;
* `plan_run` says that a planner under its invariant never raises in `plan`, gets
  from its state to the returned one by `Micro` steps, and returns the work those
  steps granted.

An invariant of `plan` is then an invariant of each `Micro` step.
-/

namespace RapidLlm

namespace BatchPlanner

variable [Aside]

/-- `r` resumes its prompt up to `reach`, on blocks that cover it. -/
def resumed (s : BatchPlanner) (r : RequestRef) (pool' : BlockPool) (fresh : List BlockId)
    (reach : Nat) : BatchPlanner :=
  let t := ((s.grown r pool' fresh).modify r fun request =>
    { request with numComputedTokens := reach }).mapped r
  { t with pendingBlocks := t.pendingBlocks ++ [(r, reach)] }

/-- `r` takes one decode step, on blocks that cover the row it writes. -/
def decoded (s : BatchPlanner) (r : RequestRef) (pool' : BlockPool) (fresh : List BlockId) :
    BatchPlanner :=
  let t := (s.grown r pool' fresh).mapped r
  { t with pendingBlocks := t.pendingBlocks ++
      [(r, min (s.objects r).seqLen s.config.maxSeqLen)] }

/-- The tokens a decode row's blocks must cover: the row it writes, behind what the
pipeline launched. -/
def decodeReach (s : BatchPlanner) (r : RequestRef) : Nat :=
  (min (((s.objects r).seqLen : Int) + (s.objects r).pendingTokens + 1) s.config.maxSeqLen).toNat

/-- One thing `plan` does. -/
inductive Micro [BlockDigest] (st : PlanState) : PlanState → Prop
  /-- Stage 0: index the blocks of one registration. -/
  | commit {r : RequestRef} {t : BatchPlanner} (hnone : st.granted = [])
      (hcommit : Commit r st.planner t) :
      Micro st { st with planner := t }
  /-- Stage 0 is over. -/
  | forget (hnone : st.granted = []) :
      Micro st { st with planner := { st.planner with pendingBlocks := [] } }
  /-- A running request is considered; whatever it was owed, it was given. -/
  | consider {r : RequestRef} (hr : r ∈ st.planner.running) (hfree : r ∉ st.granted) :
      Micro st { st with planner := st.planner.modify r dropPlan }
  | evict {r : RequestRef} {pool' : BlockPool} (hr : r ∈ st.planner.running) (hfree : r ∉ st.granted)
      (hdone : (st.planner.objects r).prefillDone)
      (hholds : pool'.Holds (st.planner.referencesBut r))
      (hindex : SameIndex st.planner.pool pool') :
      Micro st { st with
        planner := st.planner.evicted r pool', preempted := st.preempted ++ [r] }
  | resume {r : RequestRef} {pool' : BlockPool} {fresh : List BlockId} {chunk : Nat}
      (hr : r ∈ st.planner.running) (hfree : r ∉ st.granted)
      (hopen : ¬ (st.planner.objects r).prefillDone)
      (hchunk : chunk = st.planner.chunkOf (st.planner.objects r)
        (st.planner.objects r).numComputedTokens)
      (hgrew : BlockPool.Grew st.planner.pool pool' st.planner.references fresh)
      (hcover : numBlocksFor ((st.planner.objects r).numComputedTokens + chunk) ≤
        ((st.planner.heldBy r).blocks ++ fresh).length) :
      Micro st { st with
        planner := st.planner.resumed r pool' fresh
          ((st.planner.objects r).numComputedTokens + chunk)
        prefill := st.prefill ++ [(r, chunk)] }
  | defer (n : Nat) : Micro st { st with planner := { st.planner with deferredSteps := n } }
  | track {r : RequestRef} (hw : r ∈ st.planner.waiting) :
      Micro st { st with planner := st.planner.tracked r (st.planner.trackedHashes r) }
  | refuse {r : RequestRef} {pool' : BlockPool} (hw : r ∈ st.planner.waiting)
      (hholds : pool'.Holds st.planner.references) (hindex : SameIndex st.planner.pool pool') :
      Micro st { st with planner := st.planner.refused r pool' }
  | seat {r : RequestRef} {pool' : BlockPool} {fresh : List BlockId} {hit : PrefixMatch}
      {chunk slot : Nat} {free : List Nat} (hw : r ∈ st.planner.waiting)
      (htracked : (st.planner.prefixCache.sequences (st.planner.idOf r)).isSome)
      (hhit : st.planner.Matches r hit)
      (hslot : st.planner.freeSlots = slot :: free)
      (hseats : st.planner.running.length < st.planner.maxNumSeqs)
      (hchunk : chunk = st.planner.chunkOf (st.planner.objects r) hit.numTokens)
      (hgrew : BlockPool.Grew st.planner.pool pool'
        (st.planner.references + (hit.blocks : Multiset BlockId)) fresh)
      (hcover : numBlocksFor (hit.numTokens + chunk) ≤ (hit.blocks ++ fresh).length)
      (hnodecode : st.decode = []) :
      Micro st { st with
        planner := st.planner.seated r hit chunk pool' fresh slot
        prefill := st.prefill ++ [(r, chunk)] }
  | grow {r : RequestRef} {pool' : BlockPool} {fresh : List BlockId}
      (hr : r ∈ st.planner.running) (hfree : r ∉ st.granted) (hdone : (st.planner.objects r).prefillDone)
      (hgrew : BlockPool.Grew st.planner.pool pool' st.planner.references fresh)
      (hcover : numBlocksFor (st.planner.decodeReach r) ≤
        ((st.planner.heldBy r).blocks ++ fresh).length) :
      Micro st { st with
        planner := st.planner.decoded r pool' fresh, decode := st.decode ++ [r] }

/-- Any number of them. -/
abbrev Micros [BlockDigest] : PlanState → PlanState → Prop := Relation.ReflTransGen Micro

variable {s s' : BatchPlanner} {r r' : RequestRef} {st st' : PlanState}

theorem Inv.forget (h : s.Inv) : ({ s with pendingBlocks := [] } : BatchPlanner).Inv :=
  { nodup := h.nodup, bound := h.bound, requests_iff := h.requests_iff
    parked_lt := h.parked_lt, apart := h.apart
    waiting_ok := h.waiting_ok, running_ok := h.running_ok, retired := h.retired
    slots := h.slots, seats := h.seats, holds := h.holds, coord_live := h.coord_live
    running_held := h.running_held, waiting_held := h.waiting_held, tracked := h.tracked
    running_tracked := h.running_tracked, mapped := h.mapped
    queued := h.queued, pending := fun e he => by cases he }

theorem Inv.defer (h : s.Inv) (n : Nat) : ({ s with deferredSteps := n } : BatchPlanner).Inv :=
  { nodup := h.nodup, bound := h.bound, requests_iff := h.requests_iff
    parked_lt := h.parked_lt, apart := h.apart
    waiting_ok := h.waiting_ok, running_ok := h.running_ok, retired := h.retired
    slots := h.slots, seats := h.seats, holds := h.holds, coord_live := h.coord_live
    running_held := h.running_held, waiting_held := h.waiting_held, tracked := h.tracked
    running_tracked := h.running_tracked, mapped := h.mapped
    queued := h.queued, pending := h.pending }

/-- The planner's invariant, with the work granted so far in running requests, each once. -/
structure PlanOk (st : PlanState) : Prop where
  inv : st.planner.Inv
  running : ∀ r ∈ st.granted, r ∈ st.planner.running
  nodup : st.granted.Nodup

omit [Aside] in
/-- Granting one more request keeps the granted ones distinct. -/
theorem granted_append_prefill (hnodup : st.granted.Nodup) (hfree : r ∉ st.granted)
    (chunk : Nat) (planner : BatchPlanner) :
    let st' : PlanState := { st with planner, prefill := st.prefill ++ [(r, chunk)] }
    st'.granted.Nodup ∧ ∀ r', r' ∈ st'.granted ↔ r' ∈ st.granted ∨ r' = r := by
  intro st'
  have hperm : (r :: st.granted).Perm st'.granted := by
    simp only [PlanState.granted, st', List.map_append, List.map_cons, List.map_nil,
      List.append_assoc, List.singleton_append]
    exact List.perm_middle.symm
  refine ⟨hperm.nodup (List.nodup_cons.mpr ⟨hfree, hnodup⟩), fun r' => ?_⟩
  rw [← hperm.mem_iff, List.mem_cons]
  tauto

omit [Aside] in
theorem granted_append_decode (hnodup : st.granted.Nodup) (hfree : r ∉ st.granted)
    (planner : BatchPlanner) :
    let st' : PlanState := { st with planner, decode := st.decode ++ [r] }
    st'.granted.Nodup ∧ ∀ r', r' ∈ st'.granted ↔ r' ∈ st.granted ∨ r' = r := by
  intro st'
  have heq : st'.granted = st.granted ++ [r] := by
    simp only [PlanState.granted, st', List.append_assoc]
  rw [heq]
  refine ⟨?_, fun r' => by simp⟩
  exact (List.perm_append_singleton r st.granted).symm.nodup (List.nodup_cons.mpr ⟨hfree, hnodup⟩)

/-! ### What every small step keeps -/

section

variable [BlockDigest]

theorem Inv.resumed_inv (h : s.Inv) (hr : r ∈ s.running) {pool' : BlockPool}
    {fresh : List BlockId} (hgrew : BlockPool.Grew s.pool pool' s.references fresh) (reach : Nat) :
    (s.resumed r pool' fresh reach).Inv := by
  have hinv := (h.grown hr hgrew).modify (r := r) (fun request =>
    { request with numComputedTokens := reach }) rfl rfl rfl
  exact (hinv.mapped_inv hr).trackPending hr reach

theorem Inv.decoded_inv (h : s.Inv) (hr : r ∈ s.running) {pool' : BlockPool}
    {fresh : List BlockId} (hgrew : BlockPool.Grew s.pool pool' s.references fresh) :
    (s.decoded r pool' fresh).Inv :=
  ((h.grown hr hgrew).mapped_inv hr).trackPending hr _

theorem Micro.ok (h : Micro st st') (hst : PlanOk st) : PlanOk st' := by
  cases h with
  | commit hnone hcommit =>
    refine ⟨hcommit.inv hst.inv, fun r hr => ?_, hst.nodup⟩
    rw [hcommit.recached]
    exact hst.running r hr
  | forget hnone => exact ⟨hst.inv.forget, hst.running, hst.nodup⟩
  | consider hr hfree => exact ⟨hst.inv.modify _ rfl rfl rfl, hst.running, hst.nodup⟩
  | @evict r pool' hr hfree hdone hholds hindex =>
    refine ⟨hst.inv.evicted hr hholds, fun r' hr' => ?_, hst.nodup⟩
    have hmem : r' ∈ st.granted := hr'
    exact (mem_erase_running hst.inv).mpr ⟨fun hrr => hfree (hrr ▸ hmem), hst.running r' hmem⟩
  | @resume r pool' fresh chunk hr hfree hopen hchunk hgrew hcover =>
    have hg := granted_append_prefill hst.nodup hfree chunk (st.planner.resumed r pool' fresh
      ((st.planner.objects r).numComputedTokens + chunk))
    refine ⟨hst.inv.resumed_inv hr hgrew _, fun r' hr' => ?_, hg.1⟩
    rcases (hg.2 r').mp hr' with hr' | rfl
    · exact hst.running r' hr'
    · exact hr
  | defer n => exact ⟨hst.inv.defer n, hst.running, hst.nodup⟩
  | track hw => exact ⟨hst.inv.tracked_inv hw _, hst.running, hst.nodup⟩
  | refuse hw hholds hindex => exact ⟨hst.inv.refused_inv hw hholds, hst.running, hst.nodup⟩
  | @seat r pool' fresh hit chunk slot free hw htracked hhit hslot hseats hchunk hgrew hcover =>
    have hfree : r ∉ st.granted := fun hmem => hst.inv.not_both hw (hst.running r hmem)
    have hg := granted_append_prefill hst.nodup hfree chunk
      (st.planner.seated r hit chunk pool' fresh slot)
    refine ⟨hst.inv.seated_inv hw htracked hslot hseats hgrew, fun r' hr' => ?_, hg.1⟩
    have hrun : (st.planner.seated r hit chunk pool' fresh slot).running =
        st.planner.running ++ [r] := rfl
    rw [hrun, List.mem_append, List.mem_singleton]
    exact ((hg.2 r').mp hr').imp_left (hst.running r')
  | @grow r pool' fresh hr hfree hdone hgrew hcover =>
    have hg := granted_append_decode hst.nodup hfree (st.planner.decoded r pool' fresh)
    refine ⟨hst.inv.decoded_inv hr hgrew, fun r' hr' => ?_, hg.1⟩
    rcases (hg.2 r').mp hr' with hr' | rfl
    · exact hst.running r' hr'
    · exact hr

omit [BlockDigest] in
/-- A plan starts with no work granted. -/
theorem Inv.start (h : s.Inv) : PlanOk { planner := s } :=
  ⟨h, fun _ hr => (List.not_mem_nil hr).elim, List.nodup_nil⟩

theorem Micros.ok (h : Micros st st') (hst : PlanOk st) : PlanOk st' := by
  induction h with
  | refl => exact hst
  | tail _ hlast ih => exact hlast.ok ih

/-! ### Eviction under pressure -/

/-- A running request that may be evicted to make room for others. -/
structure Eligible (s : BatchPlanner) (protect : List RequestRef) (v : RequestRef) : Prop where
  running : v ∈ s.running
  free : v ∉ protect
  done : (s.objects v).prefillDone
  progress : (s.objects v).outputTokenIds ≠ []

/-- One eviction of a request outside `protect`. -/
inductive Evict (protect : List RequestRef) (st : PlanState) : PlanState → Prop
  | intro {v : RequestRef} {pool' : BlockPool} (helig : Eligible st.planner protect v)
      (hholds : pool'.Holds (st.planner.referencesBut v))
      (hindex : SameIndex st.planner.pool pool') :
      Evict protect st { st with
        planner := st.planner.evicted v pool', preempted := st.preempted ++ [v] }

abbrev Evicts (protect : List RequestRef) : PlanState → PlanState → Prop :=
  Relation.ReflTransGen (Evict protect)

/-- Evicting whoever is left eligible. -/
theorem preemptVictim_cases (h : s.Inv) (protect : List RequestRef) :
    (s.preemptVictim protect = .ok (none, s) ∧ ∀ v, ¬ Eligible s protect v) ∨
    ∃ v pool', Eligible s protect v ∧
      s.preemptVictim protect = .ok (some v, s.evicted v pool') ∧
      pool'.Holds (s.referencesBut v) ∧ SameIndex s.pool pool' := by
  unfold preemptVictim
  split
  · rename_i hnone
    refine .inl ⟨rfl, fun v hv => ?_⟩
    have hfind := List.find?_eq_none.mp hnone v (List.mem_reverse.mpr hv.running)
    simp [hv.done, hv.free, hv.progress] at hfind
  · rename_i v hsome
    right
    have hmem : v ∈ s.running := List.mem_reverse.mp (List.mem_of_find?_eq_some hsome)
    have hprop := List.find?_some hsome
    simp only [Bool.and_eq_true, Bool.not_eq_true', List.contains_eq_mem, decide_eq_false_iff_not,
      List.isEmpty_eq_false_iff] at hprop
    obtain ⟨pool', hrun, hrest⟩ := preempt_ok h hmem
    exact ⟨v, pool', ⟨hmem, hprop.1.2, hprop.1.1, hprop.2⟩, by rw [hrun]; rfl, hrest⟩

theorem Evict.micro {protect : List RequestRef} (h : Evict protect st st')
    (hsub : ∀ r ∈ st.granted, r ∈ protect) : Micro st st' := by
  cases h with
  | intro helig hholds hindex =>
    exact .evict helig.running (fun hmem => helig.free (hsub _ hmem)) helig.done hholds hindex

/-- What evictions outside `protect` leave alone. -/
structure Spared (protect : List RequestRef) (st st' : PlanState) : Prop where
  prefill : st'.prefill = st.prefill
  decode : st'.decode = st.decode
  preempted : ∃ victims, st'.preempted = st.preempted ++ victims
  running : ∀ r ∈ protect, r ∈ st.planner.running → r ∈ st'.planner.running
  position : ∀ n, ∀ r ∈ protect, r ∈ st.planner.running.take n → r ∈ st'.planner.running.take n
  waiting : ∀ r ∈ st.planner.waiting, r ∈ st'.planner.waiting
  objects : ∀ r ∈ protect, st'.planner.objects r = st.planner.objects r
  stays : ∀ r ∈ st'.planner.running, r ∈ st.planner.running ∧
    st'.planner.objects r = st.planner.objects r
  live : ∀ r, st'.planner.Live r ↔ st.planner.Live r
  length : st'.planner.running.length ≤ st.planner.running.length
  config : st'.planner.config = st.planner.config
  unchanged : st'.preempted = st.preempted → st' = st

omit [BlockDigest] [Aside] in
/-- Deleting somebody else moves an element of a list towards the front, if at all. -/
theorem mem_take_erase : ∀ {running : List RequestRef} {n : Nat}, r ≠ r' → r ∈ running.take n →
    r ∈ (running.erase r').take n
  | [], n, _, h => by simp at h
  | q :: running, 0, _, h => by simp at h
  | q :: running, n + 1, hne, h => by
      rw [List.take_succ_cons, List.mem_cons] at h
      by_cases hq : q = r'
      · subst hq
        rw [List.erase_cons_head]
        rcases h with rfl | h
        · exact absurd rfl hne
        · exact List.take_subset_take_left running (Nat.le_succ n) h
      · rw [List.erase_cons_tail (by simpa using hq), List.take_succ_cons, List.mem_cons]
        exact h.imp_right fun h => mem_take_erase hne h

omit [BlockDigest] in
theorem Evict.spared {protect : List RequestRef} (h : Evict protect st st') (hst : PlanOk st) :
    Spared protect st st' := by
  cases h with
  | @intro v pool' helig hholds hindex =>
    have hne : ∀ r ∈ protect, r ≠ v := fun r hr hrv => helig.free (hrv ▸ hr)
    refine ⟨rfl, rfl, ⟨[v], rfl⟩, ?_, ?_, ?_, ?_, ?_, ?_, List.length_erase_le, rfl, ?_⟩
    · exact fun r hr hrun => (mem_erase_running hst.inv).mpr ⟨hne r hr, hrun⟩
    · exact fun n r hr hmem => mem_take_erase (hne r hr) hmem
    · exact fun r hr => List.mem_cons_of_mem _ hr
    · exact fun r hr => evicted_objects_of_ne (hne r hr) pool'
    · intro r hr
      obtain ⟨hrv, hr⟩ := (mem_erase_running hst.inv).mp hr
      exact ⟨hr, evicted_objects_of_ne hrv pool'⟩
    · exact fun r => evicted_live hst.inv helig.running pool'
    · intro heq
      have := congrArg List.length heq
      simp at this

theorem Evicts.spared {protect : List RequestRef} (h : Evicts protect st st') (hst : PlanOk st)
    (hsub : ∀ r ∈ st.granted, r ∈ protect) :
    Spared protect st st' ∧ Micros st st' := by
  induction h with
  | refl =>
    exact ⟨⟨rfl, rfl, ⟨[], by simp⟩, fun _ _ h => h, fun _ _ _ h => h, fun _ h => h, fun _ _ => rfl,
      fun _ h => ⟨h, rfl⟩, fun _ => Iff.rfl, Nat.le_refl _, rfl, fun _ => rfl⟩, .refl⟩
  | @tail st₁ st₂ _ hlast ih =>
    obtain ⟨hspared, hmicros⟩ := ih
    have hgranted : st₁.granted = st.granted := by
      simp only [PlanState.granted, hspared.prefill, hspared.decode]
    have hlast' := hlast.spared (hmicros.ok hst)
    refine ⟨⟨hlast'.prefill.trans hspared.prefill, hlast'.decode.trans hspared.decode, ?_,
      fun r hr hrun => hlast'.running r hr (hspared.running r hr hrun),
      fun n r hr hmem => hlast'.position n r hr (hspared.position n r hr hmem),
      fun r hr => hlast'.waiting r (hspared.waiting r hr),
      fun r hr => (hlast'.objects r hr).trans (hspared.objects r hr),
      fun r hr => ⟨(hspared.stays r (hlast'.stays r hr).1).1,
        (hlast'.stays r hr).2.trans (hspared.stays r (hlast'.stays r hr).1).2⟩,
      fun r => (hlast'.live r).trans (hspared.live r),
      Nat.le_trans hlast'.length hspared.length, hlast'.config.trans hspared.config, ?_⟩,
      hmicros.tail (hlast.micro fun r hr => hsub r (hgranted ▸ hr))⟩
    · obtain ⟨vs, hvs⟩ := hspared.preempted
      obtain ⟨vs', hvs'⟩ := hlast'.preempted
      exact ⟨vs ++ vs', by rw [hvs', hvs, List.append_assoc]⟩
    · intro heq
      obtain ⟨vs, hvs⟩ := hspared.preempted
      obtain ⟨vs', hvs'⟩ := hlast'.preempted
      rw [hvs', hvs, List.append_assoc] at heq
      have hnil : vs ++ vs' = [] := List.append_right_eq_self.mp heq
      obtain ⟨rfl, rfl⟩ := List.append_eq_nil_iff.mp hnil
      have h₁ := hspared.unchanged (by simpa using hvs)
      have h₂ := hlast'.unchanged (by simpa using hvs')
      rw [h₂, h₁]

/-- How a reservation ends: granted on blocks that cover it, or refused with nobody left to
evict. -/
inductive Reserved (r : RequestRef) (n : Nat) (st : PlanState) :
    Except Raised (Bool × BatchPlanner × List RequestRef) → Prop
  | granted {pool' : BlockPool} {fresh : List BlockId}
      (hgrew : BlockPool.Grew st.planner.pool pool' st.planner.references fresh)
      (hcover : numBlocksFor n ≤ ((st.planner.heldBy r).blocks ++ fresh).length) :
      Reserved r n st (.ok (true, st.planner.grown r pool' fresh, st.preempted))
  | refused (hshort : st.planner.pool.numFreeBlocks <
        numBlocksFor n - (st.planner.heldBy r).blocks.length)
      (hnobody : ∀ v, ¬ Eligible st.planner (r :: st.granted) v) :
      Reserved r n st (.ok (false, st.planner, st.preempted))

theorem reserveLoop_ok {protect : List RequestRef} (n : Nat) :
    ∀ (bound : Nat) {st : PlanState}, PlanOk st → r ∈ st.planner.running →
      protect = r :: st.granted → st.planner.running.length < bound →
      st.planner.pool.numFreeBlocks < numBlocksFor n - (st.planner.heldBy r).blocks.length →
      ∃ st', Evicts protect st st' ∧
        Reserved r n st' (reserveLoop r n protect bound st.planner st.preempted) := by
  intro bound
  induction bound with
  | zero => intro st _ _ _ hlt _; exact absurd hlt (Nat.not_lt_zero _)
  | succ bound ih =>
    intro st hst hr hprotect hlt hshort
    rcases preemptVictim_cases hst.inv protect with
      ⟨hrun, hnobody⟩ | ⟨v, pool', helig, hrun, hholds, hindex⟩
    · refine ⟨st, .refl, ?_⟩
      have hres : reserveLoop r n protect (bound + 1) st.planner st.preempted =
          .ok (false, st.planner, st.preempted) := by
        rw [reserveLoop, hrun]; rfl
      rw [hres]
      exact .refused hshort (hprotect ▸ hnobody)
    · -- somebody is evicted: the allocation is tried again one request down
      let st₁ : PlanState := { st with
        planner := st.planner.evicted v pool', preempted := st.preempted ++ [v] }
      have hevict : Evict protect st st₁ := .intro helig hholds hindex
      have hsub : ∀ r ∈ st.granted, r ∈ protect := fun r hr => by
        rw [hprotect]; exact List.mem_cons_of_mem _ hr
      have hok : PlanOk st₁ := (hevict.micro hsub).ok hst
      have hr₁ : r ∈ st₁.planner.running :=
        (hevict.spared hst).running r (by rw [hprotect]; exact List.mem_cons_self) hr
      have hstep : reserveLoop r n protect (bound + 1) st.planner st.preempted = (do
          let grant ← st₁.planner.allocate r n
          if grant.1 then return (true, grant.2, st₁.preempted)
          else reserveLoop r n protect bound grant.2 st₁.preempted :
            Except Raised (Bool × BatchPlanner × List RequestRef)) := by
        rw [reserveLoop, hrun]; rfl
      rcases allocate_cases hok.inv hr₁ n with
        ⟨halloc, hshort₁⟩ | ⟨pool₂, fresh, halloc, -, hgrew, hcover⟩
      · have hlen : st₁.planner.running.length < bound := by
          have hpos : 0 < st.planner.running.length := List.length_pos_of_mem helig.running
          have hdrop : st₁.planner.running.length = st.planner.running.length - 1 :=
            List.length_erase_of_mem helig.running
          omega
        obtain ⟨st', hevicts, hres⟩ := ih hok hr₁ hprotect hlen hshort₁
        refine ⟨st', .head hevict hevicts, ?_⟩
        rw [hstep, halloc]
        exact hres
      · refine ⟨st₁, .single hevict, ?_⟩
        rw [hstep, halloc]
        exact .granted hgrew hcover

/-- `_reserve` evicts requests outside the granted ones, and ends granted or refused. -/
theorem reserve_ok (hst : PlanOk st) (hr : r ∈ st.planner.running) (n : Nat) :
    ∃ st', Evicts (r :: st.granted) st st' ∧
      Reserved r n st' (st.planner.reserve r n st.granted st.preempted) := by
  unfold reserve
  rcases allocate_cases hst.inv hr n with
    ⟨halloc, hshort⟩ | ⟨pool', fresh, halloc, -, hgrew, hcover⟩
  · obtain ⟨st', hevicts, hres⟩ :=
      reserveLoop_ok n (st.planner.running.length + 1) hst hr rfl (Nat.lt_succ_self _) hshort
    refine ⟨st', hevicts, ?_⟩
    rw [halloc]
    exact hres
  · refine ⟨st, .refl, ?_⟩
    rw [halloc]
    exact .granted hgrew hcover

/-! ### Stage 1 -/

/-- `r` is looked at: its block plan is dropped. -/
def considered (st : PlanState) (r : RequestRef) : PlanState :=
  { st with planner := st.planner.modify r dropPlan }

theorem considered_ok (hst : PlanOk st) (hr : r ∈ st.planner.running) (hfree : r ∉ st.granted) :
    PlanOk (considered st r) ∧ Micro st (considered st r) :=
  have hmicro : Micro st (considered st r) := .consider hr hfree
  ⟨hmicro.ok hst, hmicro⟩

omit [BlockDigest] [Aside] in
@[simp] theorem considered_objects (st : PlanState) (r : RequestRef) :
    (considered st r).planner.objects r = dropPlan (st.planner.objects r) :=
  modify_objects_self _

/-- The chunk `r` would run next. -/
def nextChunk (s : BatchPlanner) (r : RequestRef) : Nat :=
  s.chunkOf (s.objects r) (s.objects r).numComputedTokens

/-- Stage 1 at one position: nothing to do, refused, or resumed. -/
theorem resumeAt_cases (hst : PlanOk st) (index : Nat)
    (hopen : ∀ r ∈ st.granted, st.planner.running[index]? ≠ some r) :
    (resumeAt st index = .ok st ∧ ∀ r, st.planner.running[index]? = some r →
      (st.planner.objects r).prefillDone) ∨
    ∃ r st₁, st.planner.running[index]? = some r ∧ ¬ (st.planner.objects r).prefillDone ∧
      Evicts (r :: st.granted) (considered st r) st₁ ∧
      ((∃ pool' fresh, resumeAt st index = .ok { st₁ with
            planner := st₁.planner.resumed r pool' fresh
              ((st.planner.objects r).numComputedTokens + st.planner.nextChunk r)
            prefill := st₁.prefill ++ [(r, st.planner.nextChunk r)] } ∧
          BlockPool.Grew st₁.planner.pool pool' st₁.planner.references fresh ∧
          numBlocksFor ((st.planner.objects r).numComputedTokens + st.planner.nextChunk r) ≤
            ((st₁.planner.heldBy r).blocks ++ fresh).length) ∨
        (resumeAt st index = .ok st₁ ∧ st₁.planner.pool.numFreeBlocks <
            numBlocksFor ((st.planner.objects r).numComputedTokens + st.planner.nextChunk r) -
              (st₁.planner.heldBy r).blocks.length ∧
          ∀ v, ¬ Eligible st₁.planner (r :: st.granted) v)) := by
  cases hget : st.planner.running[index]? with
  | none => exact .inl ⟨by simp [resumeAt, hget], fun r hr => by cases hr⟩
  | some r =>
    by_cases hdone : (st.planner.objects r).prefillDone
    · refine .inl ⟨by simp [resumeAt, hget, hdone], fun r' hr' => ?_⟩
      cases hr'
      exact hdone
    right
    have hr : r ∈ st.planner.running := List.mem_of_getElem? hget
    have hfree : r ∉ st.granted := fun hmem => hopen r hmem hget
    obtain ⟨hst', -⟩ := considered_ok hst hr hfree
    let reach := (st.planner.objects r).numComputedTokens + st.planner.nextChunk r
    obtain ⟨st₁, hevicts, hres⟩ := reserve_ok hst' hr reach
    refine ⟨r, st₁, rfl, hdone, hevicts, ?_⟩
    have hspared := (hevicts.spared hst' fun r' hr' => List.mem_cons_of_mem _ hr').1
    have hgranted : st₁.granted = st.granted := by
      simp only [PlanState.granted, hspared.prefill, hspared.decode]
      rfl
    have hrun : resumeAt st index = (do
        let grant ← (considered st r).planner.reserve r reach
          (considered st r).granted (considered st r).preempted
        if grant.1 then
          let planner := grant.2.1.modify r fun request =>
            { request with numComputedTokens := reach }
          let planner := (planner.mapBlocks r).trackPending r reach
          return { st with
            planner, preempted := grant.2.2
            prefill := st.prefill ++ [(r, nextChunk st.planner r)] }
        else return { st with planner := grant.2.1, preempted := grant.2.2 } :
          Except Raised PlanState) := by
      rw [resumeAt, hget]
      simp only [if_neg hdone, modify_objects_self]
      rfl
    have hok₁ : PlanOk st₁ :=
      (hevicts.spared hst' fun r' hr' => List.mem_cons_of_mem _ hr').2.ok hst'
    have hr₁ : r ∈ st₁.planner.running := hspared.running r List.mem_cons_self hr
    have hst₁ : ({ st with planner := st₁.planner, preempted := st₁.preempted } : PlanState) = st₁ := by
      have hpre : st₁.prefill = st.prefill := hspared.prefill
      have hdec : st₁.decode = st.decode := hspared.decode
      rw [← hpre, ← hdec]
    rw [hrun]
    generalize hout : (considered st r).planner.reserve r reach (considered st r).granted
      (considered st r).preempted = out at hres
    cases hres with
    | @granted pool' fresh hgrew hcover =>
      left
      refine ⟨pool', fresh, ?_, hgrew, hcover⟩
      have hinv := (hok₁.inv.grown hr₁ hgrew).modify (r := r) (fun request =>
        { request with numComputedTokens := reach }) rfl rfl rfl
      have hmap := mapBlocks_eq hinv hr₁
      have hpre : st₁.prefill = st.prefill := hspared.prefill
      have hdec : st₁.decode = st.decode := hspared.decode
      simp only [ok_bind, if_true, hmap, pure_eq_ok, hpre, hdec]
      rfl
    | refused hshort hnobody =>
      right
      refine ⟨?_, hshort, fun v hv => hnobody v (hgranted ▸ hv)⟩
      simp only [ok_bind, Bool.false_eq_true, if_false, pure_eq_ok, hst₁]

/-- Stage 1 at one position, as small steps. Whoever holds work sits left of the position
the loop goes to next, so nobody is resumed twice although evictions shift the list. -/
theorem resumeAt_ok (hst : PlanOk st) (hdecode : st.decode = []) (index : Nat)
    (hleft : ∀ r ∈ st.granted, r ∈ st.planner.running.take index) :
    ∃ st', resumeAt st index = .ok st' ∧ Micros st st' ∧ st'.decode = [] ∧
      ∀ r ∈ st'.granted, r ∈ st'.planner.running.take (index + 1) := by
  have hopen : ∀ r ∈ st.granted, st.planner.running[index]? ≠ some r := by
    intro r hr hget
    obtain ⟨j, hj, hjget⟩ := List.mem_take_iff_getElem.mp (hleft r hr)
    obtain ⟨hlt, hget⟩ := List.getElem?_eq_some_iff.mp hget
    have hjlt : j < st.planner.running.length := by omega
    have heq : st.planner.running[j] = st.planner.running[index] := hjget.trans hget.symm
    have := hst.inv.running_nodup.getElem_inj_iff.mp heq
    omega
  have hwiden : ∀ r ∈ st.granted, r ∈ st.planner.running.take (index + 1) := fun r hr =>
    List.take_subset_take_left _ (Nat.le_succ _) (hleft r hr)
  rcases resumeAt_cases hst index hopen with ⟨hrun, -⟩ | ⟨r, st₁, hget, hdone, hevicts, hcase⟩
  · exact ⟨st, hrun, .refl, hdecode, hwiden⟩
  have hr : r ∈ st.planner.running := List.mem_of_getElem? hget
  have hfree : r ∉ st.granted := fun hmem => hopen r hmem hget
  obtain ⟨hst', hconsider⟩ := considered_ok hst hr hfree
  obtain ⟨hspared, hmicros⟩ := hevicts.spared hst' fun r' hr' => List.mem_cons_of_mem _ hr'
  have hok₁ : PlanOk st₁ := hmicros.ok hst'
  have hgranted : st₁.granted = st.granted := by
    simp only [PlanState.granted, hspared.prefill, hspared.decode]
    rfl
  have hself : r ∈ st₁.planner.running.take (index + 1) := by
    refine hspared.position (index + 1) r List.mem_cons_self ?_
    obtain ⟨hlt, hget⟩ := List.getElem?_eq_some_iff.mp hget
    exact List.mem_take_iff_getElem.mpr ⟨index, by
      show index < min (index + 1) st.planner.running.length; omega, hget⟩
  have hothers : ∀ r' ∈ st.granted, r' ∈ st₁.planner.running.take (index + 1) := fun r' hr' =>
    hspared.position (index + 1) r' (List.mem_cons_of_mem _ hr') (hwiden r' hr')
  have hobj : st₁.planner.objects r = dropPlan (st.planner.objects r) :=
    (hspared.objects r List.mem_cons_self).trans (considered_objects st r)
  rcases hcase with ⟨pool', fresh, hrun, hgrew, hcover⟩ | ⟨hrun, -, -⟩
  · refine ⟨_, hrun, ?_, hspared.decode.trans hdecode, ?_⟩
    · have hresume : Micro st₁ { st₁ with
          planner := st₁.planner.resumed r pool' fresh
            ((st₁.planner.objects r).numComputedTokens + st.planner.nextChunk r)
          prefill := st₁.prefill ++ [(r, st.planner.nextChunk r)] } := .resume
        (List.mem_of_mem_take hself) (by rw [hgranted]; exact hfree)
        (by rw [hobj]; exact hdone)
        (by rw [hobj, chunkOf, hspared.config]; rfl) hgrew (by rw [hobj]; exact hcover)
      rw [hobj] at hresume
      exact (Relation.ReflTransGen.head hconsider hmicros).tail hresume
    · intro r' hr'
      have hmem := ((granted_append_prefill hok₁.nodup (by rw [hgranted]; exact hfree)
        (st.planner.nextChunk r) _).2 r').mp hr'
      rcases hmem with hr' | rfl
      · exact hothers r' (hgranted ▸ hr')
      · exact hself
  · exact ⟨st₁, hrun, Relation.ReflTransGen.head hconsider hmicros, hspared.decode.trans hdecode,
      fun r' hr' => hothers r' (hgranted ▸ hr')⟩

/-- Stage 1. -/
theorem resume_ok (hst : PlanOk st) (hdecode : st.decode = []) (hnone : st.granted = [])
    (n : Nat) :
    ∃ st', (List.range n).foldlM resumeAt st = .ok st' ∧ Micros st st' ∧ st'.decode = [] ∧
      ∀ r ∈ st'.granted, r ∈ st'.planner.running.take n := by
  induction n with
  | zero => exact ⟨st, rfl, .refl, hdecode, by simp [hnone]⟩
  | succ n ih =>
    obtain ⟨st₁, hrun, hmicros, hdecode₁, hleft⟩ := ih
    obtain ⟨st₂, hrun₂, hmicros₂, hdecode₂, hleft₂⟩ :=
      resumeAt_ok (hmicros.ok hst) hdecode₁ n hleft
    refine ⟨st₂, ?_, hmicros.trans hmicros₂, hdecode₂, hleft₂⟩
    rw [List.range_succ, List.foldlM_append, hrun, ok_bind, List.foldlM_cons, hrun₂]
    rfl

/-! ### Stage 2 -/

/-- The eviction policy, once a candidate waits for a slot or for blocks. -/
theorem maybePreempt_cases (hst : PlanOk st) (hdecode : st.decode = []) :
    st.planner.maybePreempt (st.prefill.map Prod.fst) = .ok (none, st.planner) ∨
    ∃ v pool', Eligible st.planner st.granted v ∧
      st.planner.maybePreempt (st.prefill.map Prod.fst) =
        .ok (some v, st.planner.evicted v pool') ∧
      pool'.Holds (st.planner.referencesBut v) ∧ SameIndex st.planner.pool pool' := by
  have hgranted : st.granted = st.prefill.map Prod.fst := by
    rw [PlanState.granted, hdecode, List.append_nil]
  unfold maybePreempt
  split
  · rcases preemptVictim_cases hst.inv (st.prefill.map Prod.fst) with ⟨hrun, -⟩ | ⟨v, pool', helig, hrest⟩
    · exact .inl hrun
    · exact .inr ⟨v, pool', hgranted ▸ helig, hrest⟩
  · exact .inl rfl

omit [BlockDigest] in
/-- A candidate's match survives the eviction of somebody else. -/
theorem Matches.evict {v : RequestRef} (h : s.Inv) (hv : v ∈ s.running) (hw : r ∈ s.waiting)
    {hit : PrefixMatch} (hhit : s.Matches r hit) {pool' : BlockPool}
    (hholds : pool'.Holds (s.referencesBut v)) (hindex : SameIndex s.pool pool') :
    (s.evicted v pool').Matches r hit ∧
      (s.evicted v pool').prefixCache.sequences ((s.evicted v pool').idOf r) =
        s.prefixCache.sequences (s.idOf r) := by
  have hne : r ≠ v := fun hrv => h.not_both hw (hrv ▸ hv)
  have hleft := evicted_left h hv hholds
  refine ⟨⟨hhit.numTokens, ?_, fun j b hj => ?_⟩, ?_⟩
  · rw [evicted_objects_of_ne hne]
    exact hhit.le
  · obtain ⟨hash, hget, hhash⟩ := hhit.hash j b hj
    exact ⟨hash, by rw [hleft.seqOf r (.inl hw) hne]; exact hget, (hindex.hashOf b).trans hhash⟩
  · rw [hleft.idOf]
    exact (released_frame h (.inr hv) (.inl hw) hne pool').2

omit [BlockDigest] in
/-- Past the gates, with the pool short: the blocks go back, and the policy may evict somebody for
the next step. -/
theorem admitInto_short (h : st.planner.Inv) (hw : r ∈ st.planner.waiting) {hit : PrefixMatch}
    (hhit : st.planner.Matches r hit) (hshort : st.planner.AdmissionShort
      (hit.numTokens + st.planner.chunkOf (st.planner.objects r) hit.numTokens) hit)
    (longest : Nat) :
    ∃ pool', pool'.Holds st.planner.references ∧ SameIndex st.planner.pool pool' ∧
      admitInto st r hit longest = (do
        let choice ← (st.planner.refused r pool').maybePreempt (st.prefill.map Prod.fst)
        return ({ st with
          planner := choice.2, preempted := st.preempted ++ choice.1.toList }, none) :
          Except Raised (PlanState × Option Nat)) := by
  let chunk := st.planner.chunkOf (st.planner.objects r) hit.numTokens
  rcases allocate_candidate h hw hhit (hit.numTokens + chunk) with
    ⟨-, cache, pool', hrun, hfree, hholds, hindex⟩ | ⟨hroom, -⟩
  · refine ⟨pool', hholds, hindex, ?_⟩
    have hrun' : st.planner.prefixCache.allocate (st.planner.objects r).requestId
        (hit.numTokens + chunk) (some hit) = .ok (false, cache) := hrun
    have hfree' : cache.free (st.planner.objects r).requestId =
        .ok (st.planner.refused r pool').prefixCache := hfree
    simp only [admitInto]
    rw [hrun']
    simp only [ok_bind, Bool.false_eq_true, if_false, freeBlocks, hfree', pure_eq_ok]
    rfl
  · exact absurd hshort hroom

/-- Past the gates, with a slot free and blocks to be had: the candidate is seated. -/
theorem admitInto_room (h : st.planner.Inv) (hw : r ∈ st.planner.waiting)
    (htracked : (st.planner.prefixCache.sequences (st.planner.idOf r)).isSome)
    {hit : PrefixMatch} (hhit : st.planner.Matches r hit) {slot : Nat} {free : List Nat}
    (hslot : st.planner.freeSlots = slot :: free)
    (hseats : st.planner.running.length < st.planner.maxNumSeqs)
    (hroom : ¬ st.planner.AdmissionShort
      (hit.numTokens + st.planner.chunkOf (st.planner.objects r) hit.numTokens) hit)
    (longest : Nat) :
    let chunk := st.planner.chunkOf (st.planner.objects r) hit.numTokens
    ∃ pool' fresh, BlockPool.Grew st.planner.pool pool'
        (st.planner.references + (hit.blocks : Multiset BlockId)) fresh ∧
      numBlocksFor (hit.numTokens + chunk) ≤ (hit.blocks ++ fresh).length ∧
      admitInto st r hit longest = .ok
        ({ st with
          planner := st.planner.seated r hit chunk pool' fresh slot
          prefill := st.prefill ++ [(r, chunk)] },
        if st.preempted.isEmpty then some (max longest chunk) else none) := by
  intro chunk
  rcases allocate_candidate h hw hhit (hit.numTokens + chunk) with
    ⟨hshort, -⟩ | ⟨-, pool', fresh, hrun, hgrew, hcover⟩
  · exact absurd hshort hroom
  · refine ⟨pool', fresh, hgrew, hcover, ?_⟩
    have hseat := seat_ok h chunk hw htracked hslot hseats hgrew
    have hrun' : st.planner.prefixCache.allocate (st.planner.objects r).requestId
        (hit.numTokens + chunk) (some hit) = _ := hrun
    simp only [admitInto]
    rw [hrun']
    simp only [ok_bind, if_true]
    rw [recached] at hseat
    rw [hseat]
    rfl

/-- Past the gates, with a slot free: the candidate is seated, or refused. -/
theorem admitInto_ok (hst : PlanOk st) (hdecode : st.decode = []) (hw : r ∈ st.planner.waiting)
    (htracked : (st.planner.prefixCache.sequences (st.planner.idOf r)).isSome)
    {hit : PrefixMatch} (hhit : st.planner.Matches r hit) {slot : Nat} {free : List Nat}
    (hslot : st.planner.freeSlots = slot :: free)
    (hseats : st.planner.running.length < st.planner.maxNumSeqs) (longest : Nat) :
    ∃ st' next, admitInto st r hit longest = .ok (st', next) ∧ Micros st st' ∧ st'.decode = [] ∧
      (next.isSome → st'.planner.waiting.length + 1 = st.planner.waiting.length ∧
        st.preempted = []) := by
  let chunk := st.planner.chunkOf (st.planner.objects r) hit.numTokens
  by_cases hshort : st.planner.AdmissionShort (hit.numTokens + chunk) hit
  · obtain ⟨pool', hholds, hindex, hstep⟩ := admitInto_short hst.inv hw hhit hshort longest
    let st₁ : PlanState := { st with planner := st.planner.refused r pool' }
    have hmicro : Micro st st₁ := .refuse hw hholds hindex
    have hok₁ := hmicro.ok hst
    have hstep : admitInto st r hit longest = (do
        let choice ← st₁.planner.maybePreempt (st₁.prefill.map Prod.fst)
        return ({ st₁ with
          planner := choice.2, preempted := st₁.preempted ++ choice.1.toList }, none) :
          Except Raised (PlanState × Option Nat)) := hstep
    rw [hstep]
    rcases maybePreempt_cases hok₁ hdecode with hnone | ⟨v, pool₂, helig, hsome, hholds₂, hindex₂⟩
    · refine ⟨st₁, none, ?_, .single hmicro, hdecode, fun h => by cases h⟩
      rw [hnone]
      simp [st₁]
    · refine ⟨_, none, ?_, (Relation.ReflTransGen.single hmicro).tail
        (.evict helig.running helig.free helig.done hholds₂ hindex₂), hdecode, fun h => by cases h⟩
      rw [hsome]
      rfl
  · obtain ⟨pool', fresh, hgrew, hcover, hrun⟩ :=
      admitInto_room hst.inv hw htracked hhit hslot hseats hshort longest
    have hmicro : Micro st { st with
        planner := st.planner.seated r hit chunk pool' fresh slot
        prefill := st.prefill ++ [(r, chunk)] } :=
      .seat hw htracked hhit hslot hseats rfl hgrew hcover hdecode
    refine ⟨_, _, hrun, .single hmicro, hdecode, fun hnext => ?_⟩
    have hempty : st.preempted = [] := by
      cases hp : st.preempted with
      | nil => rfl
      | cons v vs => simp [hp] at hnext
    refine ⟨?_, hempty⟩
    have hlen : (st.planner.waiting.erase r).length = st.planner.waiting.length - 1 :=
      List.length_erase_of_mem hw
    have hpos : 0 < st.planner.waiting.length := List.length_pos_of_mem hw
    show (st.planner.waiting.erase r).length + 1 = st.planner.waiting.length
    omega

/-- The match a candidate is admitted with, once its chain is tracked. -/
def trackedHit (s : BatchPlanner) (r : RequestRef) : PrefixMatch :=
  (s.tracked r (s.trackedHashes r)).prefixCache.lookup (s.trackedHashes r) (s.objects r).promptLen

omit [Aside] in
/-- One round of `_admit` behind the tracking of the candidate: its gates, and what follows the
policy's choice of a victim when no slot is free. -/
theorem admitCandidate_eq {st₀ : PlanState} (hst₀ : st₀ = { st with
      planner := st.planner.tracked r (st.planner.trackedHashes r) }) (longest : Nat) :
    ∃ seatBy : Option RequestRef × BatchPlanner → Except Raised (PlanState × Option Nat),
      admitCandidate st r longest =
      (if st₀.planner.running.length ≥ st₀.planner.maxNumSeqs then .ok (st₀, none)
      else if !st.prefill.isEmpty && max longest (st.planner.chunkOf (st.planner.objects r) 0) *
          (st.prefill.length + 1) > st.planner.config.maxNumBatchedTokens then .ok (st₀, none)
      else if st₀.planner.freeSlots.isEmpty then
        st₀.planner.maybePreempt (st₀.prefill.map Prod.fst) >>= seatBy
      else admitInto st₀ r (st.planner.trackedHit r) longest) ∧
      (∀ planner, seatBy (none, planner) = .ok ({ st₀ with planner }, none)) ∧
      ∀ victim planner, seatBy (some victim, planner) = admitInto
        { st₀ with planner, preempted := st₀.preempted ++ [victim] } r (st.planner.trackedHit r)
        longest := by
  subst hst₀
  refine ⟨?seatBy, ?code, fun _ => ?none, fun _ _ => ?some⟩
  case code =>
    simp only [admitCandidate, track_planner]
    rfl
  case none => rfl
  case some => rfl

/-- One round of `_admit`. -/
theorem admitCandidate_ok (hst : PlanOk st) (hdecode : st.decode = [])
    (hw : r ∈ st.planner.waiting) (longest : Nat) :
    ∃ st' next, admitCandidate st r longest = .ok (st', next) ∧ Micros st st' ∧ st'.decode = [] ∧
      (next.isSome → st'.planner.waiting.length + 1 ≤ st.planner.waiting.length) := by
  let st₀ : PlanState := { st with planner := st.planner.tracked r (st.planner.trackedHashes r) }
  let hit := st.planner.trackedHit r
  have htrack : Micro st st₀ := .track hw
  have hok₀ := htrack.ok hst
  have hhit : st₀.planner.Matches r hit := lookup_matches hst.inv _ hw
  have htracked : (st₀.planner.prefixCache.sequences (st₀.planner.idOf r)).isSome := by
    have hid : st₀.planner.idOf r = st.planner.idOf r := rfl
    rw [hid]
    simp [st₀, tracked, recached]
  obtain ⟨seatBy, hstep, hseatNone, hseatSome⟩ := admitCandidate_eq (show st₀ = _ from rfl) longest
  rw [hstep]
  split
  · exact ⟨st₀, none, rfl, .single htrack, hdecode, fun h => by cases h⟩
  rename_i hseats
  split
  · exact ⟨st₀, none, rfl, .single htrack, hdecode, fun h => by cases h⟩
  split
  · rcases maybePreempt_cases hok₀ hdecode with hnone | ⟨v, pool', helig, hsome, hholds, hindex⟩
    · refine ⟨st₀, none, ?_, .single htrack, hdecode, fun h => by cases h⟩
      rw [hnone, ok_bind, hseatNone]
    · -- the victim's slot is the one the candidate takes
      let st₁ : PlanState := { st₀ with
        planner := st₀.planner.evicted v pool', preempted := st₀.preempted ++ [v] }
      have hevict : Micro st₀ st₁ := .evict helig.running helig.free helig.done hholds hindex
      have hok₁ := hevict.ok hok₀
      obtain ⟨hhit₁, hseq₁⟩ := Matches.evict hok₀.inv helig.running hw hhit hholds hindex
      obtain ⟨slot, hslot⟩ := Option.isSome_iff_exists.mp (hok₀.inv.running_ok v helig.running).2
      have hfree₁ : st₁.planner.freeSlots = slot :: st₀.planner.freeSlots := by
        simp only [st₁, evicted, hslot]; rfl
      have hlen : st₁.planner.running.length ≤ st₀.planner.running.length := List.length_erase_le
      obtain ⟨st', next, hrun, hmicros, hdecode', hnext⟩ := admitInto_ok hok₁ hdecode
        (List.mem_cons_of_mem _ hw) (by rw [hseq₁]; exact htracked) hhit₁ hfree₁
        (by
          have hmax : st₁.planner.maxNumSeqs = st₀.planner.maxNumSeqs := rfl
          omega) longest
      refine ⟨st', next, ?_, (Relation.ReflTransGen.single htrack).trans
        (Relation.ReflTransGen.head hevict hmicros), hdecode', fun h => ?_⟩
      · rw [hsome, ok_bind, hseatSome]
        exact hrun
      · -- the loop only goes on when nobody was evicted
        have hpre : st₁.preempted = [] := (hnext h).2
        simp [st₁] at hpre
  · rename_i hfree
    obtain ⟨slot, free, hslot⟩ : ∃ slot free, st₀.planner.freeSlots = slot :: free := by
      cases hs : st₀.planner.freeSlots with
      | nil => simp [hs] at hfree
      | cons slot free => exact ⟨slot, free, rfl⟩
    obtain ⟨st', next, hrun, hmicros, hdecode', hnext⟩ :=
      admitInto_ok hok₀ hdecode hw htracked hhit hslot (by omega) longest
    exact ⟨st', next, hrun, Relation.ReflTransGen.head htrack hmicros, hdecode',
      fun h => Nat.le_of_eq (hnext h).1⟩

/-- The loop of `_admit`. -/
theorem admitLoop_ok : ∀ (bound : Nat) {st : PlanState}, PlanOk st → st.decode = [] →
    st.planner.waiting.length < bound → ∀ longest,
    ∃ st', admitLoop bound st longest = .ok st' ∧ Micros st st' ∧ st'.decode = []
  | 0, _, _, _, hlt, _ => absurd hlt (Nat.not_lt_zero _)
  | bound + 1, st, hst, hdecode, hlt, longest => by
      rw [admitLoop]
      split
      · exact ⟨st, rfl, .refl, hdecode⟩
      · rename_i r rest hwaiting
        have hw : r ∈ st.planner.waiting := by rw [hwaiting]; exact List.mem_cons_self
        obtain ⟨st₁, next, hrun, hmicros, hdecode₁, hnext⟩ :=
          admitCandidate_ok hst hdecode hw longest
        rw [hrun]
        cases next with
        | none => exact ⟨st₁, rfl, hmicros, hdecode₁⟩
        | some longest' =>
          have hlen := hnext rfl
          obtain ⟨st', hrun', hmicros', hdecode'⟩ :=
            admitLoop_ok bound (hmicros.ok hst) hdecode₁ (by omega) longest'
          exact ⟨st', hrun', hmicros.trans hmicros', hdecode'⟩

/-- Stage 2. -/
theorem admitWaiting_ok (hst : PlanOk st) (hdecode : st.decode = []) :
    ∃ st', admitWaiting st = .ok st' ∧ Micros st st' ∧ st'.decode = [] := by
  unfold admitWaiting
  split
  · exact ⟨_, rfl, .single (.defer _), hdecode⟩
  · have hmicro : Micro st { st with planner := { st.planner with deferredSteps := 0 } } := .defer 0
    obtain ⟨st', hrun, hmicros, hdecode'⟩ := admitLoop_ok (st.planner.waiting.length + 1)
      (hmicro.ok hst) hdecode (Nat.lt_succ_self _) ((st.prefill.map Prod.snd).foldl max 0)
    exact ⟨st', hrun, .head hmicro hmicros, hdecode'⟩

/-! ### Stage 3 -/

omit [BlockDigest] in
/-- A live request runs exactly when its status says so. -/
theorem Inv.running_iff (h : s.Inv) (hr : s.Live r) :
    (s.objects r).status = .running ↔ r ∈ s.running := by
  refine ⟨fun hstatus => ?_, fun hrun => (h.running_ok r hrun).1⟩
  rcases hr with hw | hr
  · rw [(h.waiting_ok r hw).1] at hstatus
    cases hstatus
  · exact hr

/-- Stage 3 for one row of a running request: granted on blocks that cover it, or evicted. -/
theorem growRow_ok (hst : PlanOk st) (hr : r ∈ st.planner.running) (hfree : r ∉ st.granted)
    (hdone : (st.planner.objects r).prefillDone) :
    ∃ st₁ st', Evicts (r :: st.granted) (considered st r) st₁ ∧ growRow st r = .ok st' ∧
      Micros st st' ∧
      ((∃ pool' fresh, st' = { st₁ with
          planner := st₁.planner.decoded r pool' fresh, decode := st₁.decode ++ [r] }) ∨
        (∃ pool', pool'.Holds (st₁.planner.referencesBut r) ∧ st' = { st₁ with
          planner := st₁.planner.evicted r pool', preempted := st₁.preempted ++ [r] })) := by
  obtain ⟨hst', hconsider⟩ := considered_ok hst hr hfree
  let reach := (considered st r).planner.decodeReach r
  obtain ⟨st₁, hevicts, hres⟩ := reserve_ok hst' hr reach
  obtain ⟨hspared, hmicros⟩ := hevicts.spared hst' fun r' hr' => List.mem_cons_of_mem _ hr'
  have hok₁ : PlanOk st₁ := hmicros.ok hst'
  have hr₁ : r ∈ st₁.planner.running := hspared.running r List.mem_cons_self hr
  have hgranted : st₁.granted = st.granted := by
    simp only [PlanState.granted, hspared.prefill, hspared.decode]
    rfl
  have hobj : st₁.planner.objects r = dropPlan (st.planner.objects r) :=
    (hspared.objects r List.mem_cons_self).trans (considered_objects st r)
  have hpre : st₁.prefill = st.prefill := hspared.prefill
  have hdec : st₁.decode = st.decode := hspared.decode
  have hstatus := (hst.inv.running_ok r hr).1
  have hrun : growRow st r = (do
      let grant ← (considered st r).planner.reserve r reach
        (considered st r).granted (considered st r).preempted
      if grant.1 then
        let planner := (grant.2.1.mapBlocks r).trackPending r
          (min (st.planner.objects r).seqLen st.planner.config.maxSeqLen)
        return { st with planner, preempted := grant.2.2, decode := st.decode ++ [r] }
      else
        let planner ← grant.2.1.preempt r
        return { st with planner, preempted := grant.2.2 ++ [r] } : Except Raised PlanState) := by
    simp only [growRow, hstatus, ne_eq, not_true_eq_false, if_false, modify_objects_self]
    have hreach : reach = (min (((dropPlan (st.planner.objects r)).seqLen : Int) +
        (dropPlan (st.planner.objects r)).pendingTokens + 1) st.planner.config.maxSeqLen).toNat := by
      simp only [reach, decodeReach, considered_objects]
      rfl
    rw [hreach]
    rfl
  rw [hrun]
  generalize hout : (considered st r).planner.reserve r reach (considered st r).granted
    (considered st r).preempted = out at hres
  cases hres with
  | @granted pool' fresh hgrew hcover =>
    have hmap := mapBlocks_eq (hok₁.inv.grown hr₁ hgrew) hr₁
    have hgrow : Micro st₁ { st₁ with
        planner := st₁.planner.decoded r pool' fresh, decode := st₁.decode ++ [r] } :=
      .grow hr₁ (by rw [hgranted]; exact hfree) (by rw [hobj]; exact hdone) hgrew (by
        have hreach : st₁.planner.decodeReach r = reach := by
          simp only [reach, decodeReach, hobj, considered_objects, hspared.config]
        rw [hreach]
        exact hcover)
    refine ⟨st₁, _, hevicts, ?_, (Relation.ReflTransGen.head hconsider hmicros).tail hgrow,
      .inl ⟨pool', fresh, rfl⟩⟩
    have hseq : (st.planner.objects r).seqLen = (st₁.planner.objects r).seqLen := by rw [hobj]; rfl
    have hconf : st.planner.config = st₁.planner.config := hspared.config.symm
    simp only [ok_bind, if_true, hmap, pure_eq_ok, ← hpre, ← hdec, hseq, hconf]
    rfl
  | refused hshort hnobody =>
    obtain ⟨pool', hpreempt, hholds, hindex⟩ := preempt_ok hok₁.inv hr₁
    have hevict : Micro st₁ { st₁ with
        planner := st₁.planner.evicted r pool', preempted := st₁.preempted ++ [r] } :=
      .evict hr₁ (by rw [hgranted]; exact hfree) (by rw [hobj]; exact hdone) hholds hindex
    refine ⟨st₁, _, hevicts, ?_, (Relation.ReflTransGen.head hconsider hmicros).tail hevict,
      .inr ⟨pool', hholds, rfl⟩⟩
    simp only [ok_bind, Bool.false_eq_true, if_false, hpreempt, pure_eq_ok, ← hpre, ← hdec]

/-- What stage 3 does over the rows `rows`. -/
structure Grown (rows : List RequestRef) (st st' : PlanState) : Prop where
  micros : Micros st st'
  prefill : st'.prefill = st.prefill
  decode : st'.decode = st.decode ++
    rows.filter fun r => (st'.planner.objects r).status = .running
  preempted : ∃ victims, st'.preempted = st.preempted ++ victims
  stays : ∀ r ∈ st'.planner.running, r ∈ st.planner.running
  live : ∀ r, st'.planner.Live r ↔ st.planner.Live r
  done : ∀ r ∈ st'.planner.running,
    (st'.planner.objects r).prefillDone = (st.planner.objects r).prefillDone
  kept : st'.preempted = st.preempted → ∀ r ∈ st.planner.running, r ∈ st'.planner.running

theorem growRows_ok : ∀ (rows : List RequestRef) {st : PlanState}, PlanOk st → rows.Nodup →
    (∀ r ∈ rows, st.planner.Live r ∧ r ∉ st.granted ∧
      (r ∈ st.planner.running → (st.planner.objects r).prefillDone)) →
    ∃ st', rows.foldlM growRow st = .ok st' ∧ Grown rows st st'
  | [], st, _, _, _ =>
    ⟨st, rfl, .refl, rfl, by simp, ⟨[], by simp⟩, fun _ h => h, fun _ => Iff.rfl,
      fun _ _ => rfl, fun _ _ h => h⟩
  | r :: rows, st, hst, hnodup, hrows => by
      rw [List.nodup_cons] at hnodup
      obtain ⟨hlive, hfree, hdone⟩ := hrows r List.mem_cons_self
      by_cases hr : r ∈ st.planner.running
      · obtain ⟨st₁, st₂, hevicts, hrun, hmicros, hcase⟩ := growRow_ok hst hr hfree (hdone hr)
        have hst₂ := hmicros.ok hst
        obtain ⟨hst', hconsider⟩ := considered_ok hst hr hfree
        obtain ⟨hspared, hmicros₁⟩ := hevicts.spared hst' fun r' hr' => List.mem_cons_of_mem _ hr'
        have hok₁ : PlanOk st₁ := hmicros₁.ok hst'
        have hr₁ : r ∈ st₁.planner.running := hspared.running r List.mem_cons_self hr
        have hobjects : ∀ r' ∈ st₁.planner.running, r' ≠ r →
            st₁.planner.objects r' = st.planner.objects r' := fun r' hr' hne =>
          (hspared.stays r' hr').2.trans (modify_objects_of_ne dropPlan hne)
        -- either way nobody joined, nobody else was granted, and `r` is settled
        have hstep : st₂.prefill = st.prefill ∧
            (∃ vs, st₂.preempted = st.preempted ++ vs) ∧
            (∀ r' ∈ st₂.planner.running, r' ∈ st.planner.running) ∧
            (∀ r', st₂.planner.Live r' ↔ st.planner.Live r') ∧
            (∀ r' ∈ st₂.planner.running, r' ≠ r →
              st₂.planner.objects r' = st.planner.objects r') ∧
            (r ∈ st₂.planner.running → (st₂.planner.objects r).prefillDone) ∧
            (∀ r', r' ≠ r → r' ∉ st.granted → r' ∉ st₂.granted) ∧
            ((st₂.decode = st.decode ++ [r] ∧ r ∈ st₂.granted) ∨
              (st₂.decode = st.decode ∧ r ∉ st₂.planner.running)) ∧
            (st₂.preempted = st.preempted → ∀ r' ∈ st.planner.running, r' ∈ st₂.planner.running) := by
          have hpre : st₁.prefill = st.prefill := hspared.prefill
          have hdec : st₁.decode = st.decode := hspared.decode
          obtain ⟨vs, hvs⟩ := hspared.preempted
          have hvs : st₁.preempted = st.preempted ++ vs := hvs
          have hgranted : st₁.granted = st.granted := by
            simp only [PlanState.granted, hpre, hdec]
          rcases hcase with ⟨pool', fresh, rfl⟩ | ⟨pool', hholds, rfl⟩
          · refine ⟨hpre, ⟨vs, hvs⟩, fun r' hr' => (hspared.stays r' hr').1,
              fun r' => hspared.live r', ?_, ?_, ?_, .inl ⟨by rw [hdec], ?_⟩, ?_⟩
            · intro r' hr' hne
              have : (st₁.planner.decoded r pool' fresh).objects r' = st₁.planner.objects r' :=
                Function.update_of_ne hne _ _
              exact this.trans (hobjects r' hr' hne)
            · intro _
              have hself : st₁.planner.objects r = dropPlan (st.planner.objects r) :=
                (hspared.objects r List.mem_cons_self).trans (considered_objects st r)
              have : (st₁.planner.decoded r pool' fresh).objects r =
                  { st₁.planner.objects r with
                    blockPlan := (st₁.planner.grown r pool' fresh).owedWrites r } :=
                Function.update_self _ _ _
              simp only [this, hself]
              exact hdone hr
            · intro r' hne hnot hmem
              simp only [PlanState.granted, hpre, hdec, List.mem_append, List.mem_singleton] at hmem hnot
              tauto
            · simp [PlanState.granted]
            · intro heq r' hr'
              have hsame := hspared.unchanged heq
              have : r' ∈ st₁.planner.running := by rw [hsame]; exact hr'
              exact this
          · have hleft := evicted_left hok₁.inv hr₁ hholds
            refine ⟨hpre, ⟨vs ++ [r], by simp [hvs]⟩, ?_, ?_, ?_, ?_, ?_, .inr ⟨hdec, ?_⟩, ?_⟩
            · intro r' hr'
              exact (hspared.stays r' ((mem_erase_running hok₁.inv).mp hr').2).1
            · intro r'
              exact (evicted_live hok₁.inv hr₁ pool').trans (hspared.live r')
            · intro r' hr' hne
              exact (evicted_objects_of_ne hne pool').trans
                (hobjects r' ((mem_erase_running hok₁.inv).mp hr').2 hne)
            · exact fun hmem => absurd rfl ((mem_erase_running hok₁.inv).mp hmem).1
            · intro r' hne hnot hmem
              exact hnot (hgranted ▸ hmem)
            · intro hmem
              exact ((mem_erase_running hok₁.inv).mp hmem).1 rfl
            · intro heq
              have := congrArg List.length heq
              simp [hvs] at this
        obtain ⟨hpre, ⟨vs, hvs⟩, hstays, hlives, hobj, hself, hgr, hdec, hkept⟩ := hstep
        have hrest : ∀ r' ∈ rows, st₂.planner.Live r' ∧ r' ∉ st₂.granted ∧
            (r' ∈ st₂.planner.running → (st₂.planner.objects r').prefillDone) := by
          intro r' hr'
          have hne : r' ≠ r := fun hrr => hnodup.1 (hrr ▸ hr')
          obtain ⟨hlive', hfree', hdone'⟩ := hrows r' (List.mem_cons_of_mem _ hr')
          refine ⟨(hlives r').mpr hlive', hgr r' hne hfree', fun hrun' => ?_⟩
          rw [hobj r' hrun' hne]
          exact hdone' (hstays r' hrun')
        obtain ⟨st', hrun', hgrown⟩ := growRows_ok rows hst₂ hnodup.2 hrest
        have hok' := hgrown.micros.ok hst₂
        obtain ⟨vs', hvs'⟩ := hgrown.preempted
        refine ⟨st', by rw [List.foldlM_cons, hrun, ok_bind, hrun'], hmicros.trans hgrown.micros,
          hgrown.prefill.trans hpre, ?_, ⟨vs ++ vs', by rw [hvs', hvs, List.append_assoc]⟩,
          fun r' hr' => hstays r' (hgrown.stays r' hr'),
          fun r' => (hgrown.live r').trans (hlives r'), ?_, ?_⟩
        · have hlive' : st'.planner.Live r := (hgrown.live r).mpr ((hlives r).mpr hlive)
          rw [hgrown.decode]
          rcases hdec with ⟨hdec, hmem⟩ | ⟨hdec, hnot⟩
          · have hmem' : r ∈ st'.granted := by
              simp only [PlanState.granted, hgrown.prefill, hgrown.decode, List.mem_append] at hmem ⊢
              tauto
            have hstatus := (hok'.inv.running_ok r (hok'.running r hmem')).1
            rw [hdec, List.filter_cons_of_pos (by simpa using hstatus), List.append_assoc,
              List.singleton_append]
          · have hstatus : (st'.planner.objects r).status ≠ .running := fun hstatus =>
              hnot (hgrown.stays r ((hok'.inv.running_iff hlive').mp hstatus))
            rw [hdec, List.filter_cons_of_neg (by simpa using hstatus)]
        · intro r' hr'
          have hr₂ := hgrown.stays r' hr'
          rw [hgrown.done r' hr']
          by_cases hne : r' = r
          · subst hne
            rw [hself hr₂, hdone hr]
          · rw [hobj r' hr₂ hne]
        · intro heq
          rw [hvs', hvs, List.append_assoc] at heq
          obtain ⟨rfl, rfl⟩ := List.append_eq_nil_iff.mp (List.append_right_eq_self.mp heq)
          exact fun r' hr' => hgrown.kept (by simpa using hvs') r' (hkept (by simpa using hvs) r' hr')
      · have hstatus : (st.planner.objects r).status ≠ .running := fun hstatus =>
          hr ((hst.inv.running_iff hlive).mp hstatus)
        have hrun : growRow st r = .ok st := by
          simp only [growRow, ne_eq, hstatus, not_false_eq_true, if_true, pure_eq_ok]
        obtain ⟨st', hrun', hgrown⟩ := growRows_ok rows hst hnodup.2 fun r' hr' =>
          hrows r' (List.mem_cons_of_mem _ hr')
        refine ⟨st', by rw [List.foldlM_cons, hrun, ok_bind, hrun'],
          { hgrown with decode := ?_ }⟩
        have hok' := hgrown.micros.ok hst
        have hstatus' : (st'.planner.objects r).status ≠ .running := fun hstatus =>
          hr (hgrown.stays r ((hok'.inv.running_iff ((hgrown.live r).mpr hlive)).mp hstatus))
        rw [hgrown.decode, List.filter_cons_of_neg (by simpa using hstatus')]

/-! ### One call of `plan` -/

/-- A planner under its invariant plans without raising: it gets to the returned state by
small steps, returns the work they granted, and leaves nobody out who could decode. -/
structure Planned (s : BatchPlanner) (plan : StepPlan) (st : PlanState) : Prop where
  run : s.plan = .ok (plan, st.planner)
  micros : Micros { planner := s } st
  prefill : plan.prefill = st.prefill
  decode : plan.decode = st.decode
  preempted : plan.preempted = st.preempted
  decodes : ∀ r ∈ st.planner.running, (st.planner.objects r).prefillDone → r ∈ st.granted

theorem Planned.ok {plan : StepPlan} (h : Planned s plan st) (hs : s.Inv) : PlanOk st :=
  h.micros.ok hs.start

/-- Stage 0 by small steps. -/
theorem commits_micros {t : BatchPlanner} (h : Commits (fun _ => True) s t) :
    Micros { planner := s } { planner := t } := by
  induction h with
  | refl => exact .refl
  | tail _ hlast ih =>
    obtain ⟨r, -, hlast⟩ := hlast
    exact ih.tail (.commit rfl hlast)

/-- One call of `plan`, stage by stage: stage 0 leaves `t`, the others what they are numbered. -/
structure Stages (s t : BatchPlanner) (st₁ st₂ st₃ : PlanState) : Prop where
  commits : ∃ u, Commits (fun _ => True) s u ∧ t = { u with pendingBlocks := [] }
  commit : s.commitPendingBlocks = .ok t
  resume : (List.range t.running.length).foldlM resumeAt { planner := t } = .ok st₁
  waiting : admitWaiting st₁ = .ok st₂
  grow : (decodeRows st₂).foldlM growRow st₂ = .ok st₃
  run : s.plan = .ok ({ prefill := st₃.prefill, decode := st₃.decode, preempted := st₃.preempted },
    st₃.planner)
  micros₁ : Micros { planner := t } st₁
  micros₂ : Micros st₁ st₂
  decode₁ : st₁.decode = []
  decode₂ : st₂.decode = []
  grown : Grown (decodeRows st₂) st₂ st₃

/-- Stage 0 by small steps, with the registrations forgotten at its end. -/
theorem Stages.micros {t : BatchPlanner} {st₁ st₂ st₃ : PlanState} (h : Stages s t st₁ st₂ st₃) :
    Micros { planner := s } { planner := t } := by
  obtain ⟨u, hcommits, rfl⟩ := h.commits
  exact (commits_micros hcommits).tail (.forget rfl)

omit [BlockDigest] [Aside] in
/-- Whom stage 3 has rows for, when stage 2 ended with no decode row. -/
theorem mem_decodeRows (hdecode : st.decode = []) : r ∈ decodeRows st ↔
    r ∈ st.planner.running ∧ (st.planner.objects r).prefillDone ∧ r ∉ st.granted := by
  have hgranted : st.granted = st.prefill.map Prod.fst := by
    rw [PlanState.granted, hdecode, List.append_nil]
  simp only [decodeRows, hgranted, List.mem_filter, Bool.and_eq_true, Bool.not_eq_true',
    List.contains_eq_mem, decide_eq_false_iff_not]
  tauto

theorem plan_stages (h : s.Inv) : ∃ t st₁ st₂ st₃, Stages s t st₁ st₂ st₃ := by
  obtain ⟨u, hcommits, hcommit⟩ := commitPendingBlocks_ok h
  let st₀ : PlanState := { planner := { u with pendingBlocks := [] } }
  have hforget : Micro { planner := u } st₀ := .forget rfl
  have hmicros₀ : Micros { planner := s } st₀ := (commits_micros hcommits).tail hforget
  have hst₀ : PlanOk st₀ := hmicros₀.ok h.start
  obtain ⟨st₁, hresume, hmicros₁, hdecode₁, -⟩ :=
    resume_ok hst₀ rfl rfl st₀.planner.running.length
  have hst₁ := hmicros₁.ok hst₀
  obtain ⟨st₂, hadmit, hmicros₂, hdecode₂⟩ := admitWaiting_ok hst₁ hdecode₁
  have hst₂ := hmicros₂.ok hst₁
  obtain ⟨st₃, hgrow, hgrown⟩ := growRows_ok (decodeRows st₂) hst₂
    (hst₂.inv.running_nodup.filter _) fun r hr => by
      obtain ⟨hrun, hdone, hfree⟩ := (mem_decodeRows hdecode₂).mp hr
      exact ⟨.inr hrun, hfree, fun _ => hdone⟩
  have hst₃ := hgrown.micros.ok hst₂
  -- the rows that are left are those of requests that still run
  have hdecode₃ : (if st₃.preempted.isEmpty then decodeRows st₂
      else (decodeRows st₂).filter fun r => (st₃.planner.objects r).status = .running) =
      st₃.decode := by
    rw [hgrown.decode, hdecode₂, List.nil_append]
    split
    · rename_i hempty
      rw [List.isEmpty_iff] at hempty
      obtain ⟨vs, hvs⟩ := hgrown.preempted
      have hnone : st₂.preempted = [] := by
        rw [hempty] at hvs
        exact (List.append_eq_nil_iff.mp hvs.symm).1
      have hkept := hgrown.kept (hempty.trans hnone.symm)
      refine (List.filter_eq_self.mpr fun r hr => ?_).symm
      have hrun := hkept r ((mem_decodeRows hdecode₂).mp hr).1
      simpa using (hst₃.inv.running_ok r hrun).1
    · rfl
  refine ⟨{ u with pendingBlocks := [] }, st₁, st₂, st₃, ⟨u, hcommits, rfl⟩, hcommit, hresume,
    hadmit, hgrow, ?_, hmicros₁, hmicros₂, hdecode₁, hdecode₂, hgrown⟩
  simp only [plan]
  rw [hcommit]
  simp only [ok_bind]
  have hresume' : (List.range u.running.length).foldlM resumeAt
      { planner := { u with pendingBlocks := [] } } = .ok st₁ := hresume
  rw [hresume']
  simp only [ok_bind, hadmit, hgrow, pure_eq_ok, hdecode₃]

theorem Stages.planned {t : BatchPlanner} {st₁ st₂ st₃ : PlanState} (h : Stages s t st₁ st₂ st₃)
    (hs : s.Inv) : Planned s
      { prefill := st₃.prefill, decode := st₃.decode, preempted := st₃.preempted } st₃ := by
  have hgrown := h.grown
  have hst₂ : PlanOk st₂ := h.micros₂.ok (h.micros₁.ok (h.micros.ok hs.start))
  have hst₃ := hgrown.micros.ok hst₂
  refine ⟨h.run, h.micros.trans (h.micros₁.trans (h.micros₂.trans hgrown.micros)), rfl, rfl, rfl,
    fun r hr hdone => ?_⟩
  have hr₂ := hgrown.stays r hr
  rw [hgrown.done r hr] at hdone
  have hgranted₂ : st₂.granted = st₂.prefill.map Prod.fst := by
    rw [PlanState.granted, h.decode₂, List.append_nil]
  simp only [PlanState.granted, hgrown.prefill, hgrown.decode, h.decode₂, List.nil_append,
    List.mem_append, List.mem_filter]
  by_cases hmem : r ∈ st₂.granted
  · exact .inl (hgranted₂ ▸ hmem)
  · right
    exact ⟨(mem_decodeRows h.decode₂).mpr ⟨hr₂, hdone, hmem⟩,
      by simpa using (hst₃.inv.running_ok r hr).1⟩

theorem plan_run (h : s.Inv) : ∃ plan st, Planned s plan st := by
  obtain ⟨t, st₁, st₂, st₃, hstages⟩ := plan_stages h
  exact ⟨_, st₃, hstages.planned h⟩

end

end BatchPlanner

end RapidLlm
