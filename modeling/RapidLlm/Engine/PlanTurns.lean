import RapidLlm.Engine.CacheEffects
import RapidLlm.Engine.OffloadPlanner
import RapidLlm.Engine.PlanRun

/-!
# RapidLlm.Engine.PlanTurns

**What a call of the planner did, read off the fact that it returned.** `Engine.PlanRun` shows that
a planner under its resource invariant never raises; with an offloading tier that invariant does
not hold in every run, so here nothing is assumed of the accounting. A call that returned went
from its state to the new one by `Turn`s:

* `Kept s t`: nobody moved, block plans apart; `Moved s waiting running r change t`: the queues and
  one request changed, as said;
* `Press protect`: what an attempt to make room does, one eviction at a time;
* `Turn`: everything a stage of `plan` does at once, each time with the facts it was done under.

An invariant of `plan` is then an invariant of each `Turn`.
-/

namespace RapidLlm

namespace BatchPlanner

open PrefixCache (SameBlocks Covers Releases Aligned)

variable {s t u : BatchPlanner} {r r' : RequestRef} {st st' : PlanState}

/-! ### Records that agree apart from their block plan -/

section

variable {a b : Request}

theorem dropPlan_id (h : dropPlan a = dropPlan b) : a.requestId = b.requestId :=
  have hid := congrArg Request.requestId h
  hid

theorem dropPlan_status (h : dropPlan a = dropPlan b) : a.status = b.status :=
  have hstatus := congrArg (·.status) h
  hstatus

theorem dropPlan_done (h : dropPlan a = dropPlan b) : a.prefillDone = b.prefillDone :=
  have hdone := congrArg Request.prefillDone h
  hdone

theorem dropPlan_computed (h : dropPlan a = dropPlan b) :
    a.numComputedTokens = b.numComputedTokens :=
  have hcomputed := congrArg (·.numComputedTokens) h
  hcomputed

theorem dropPlan_promptLen (h : dropPlan a = dropPlan b) : a.promptLen = b.promptLen :=
  have hlen := congrArg Request.promptLen h
  hlen

theorem dropPlan_seqLen (h : dropPlan a = dropPlan b) : a.seqLen = b.seqLen :=
  have hlen := congrArg Request.seqLen h
  hlen

theorem dropPlan_outputs (h : dropPlan a = dropPlan b) : a.outputTokenIds = b.outputTokenIds :=
  have houtputs := congrArg (·.outputTokenIds) h
  houtputs

theorem dropPlan_pending (h : dropPlan a = dropPlan b) : a.pendingTokens = b.pendingTokens :=
  have hpending := congrArg (·.pendingTokens) h
  hpending

theorem dropPlan_cap (h : dropPlan a = dropPlan b) : a.maxNewTokens = b.maxNewTokens :=
  have hcap := congrArg (·.maxNewTokens) h
  hcap

end

/-! ### Nobody moves, or one request does -/

/-- Nobody moved: block plans, registrations, caches and counters apart, the planner is the same. -/
structure Kept (s t : BatchPlanner) : Prop where
  config : t.config = s.config
  maxNumSeqs : t.maxNumSeqs = s.maxNumSeqs
  numObjects : t.numObjects = s.numObjects
  requests : t.requests = s.requests
  waiting : t.waiting = s.waiting
  running : t.running = s.running
  objects : ∀ q, dropPlan (t.objects q) = dropPlan (s.objects q)

/-- The queues became `waiting` and `running`, and request `r` what `change` makes of it. -/
structure Moved (s : BatchPlanner) (waiting running : List RequestRef) (r : RequestRef)
    (change : Request → Request) (t : BatchPlanner) : Prop where
  config : t.config = s.config
  maxNumSeqs : t.maxNumSeqs = s.maxNumSeqs
  numObjects : t.numObjects = s.numObjects
  requests : t.requests = s.requests
  waiting : t.waiting = waiting
  running : t.running = running
  self : dropPlan (t.objects r) = dropPlan (change (s.objects r))
  others : ∀ q ≠ r, dropPlan (t.objects q) = dropPlan (s.objects q)

namespace Kept

theorem refl (s : BatchPlanner) : Kept s s := ⟨rfl, rfl, rfl, rfl, rfl, rfl, fun _ => rfl⟩

theorem trans (h : Kept s t) (h' : Kept t u) : Kept s u where
  config := h'.config.trans h.config
  maxNumSeqs := h'.maxNumSeqs.trans h.maxNumSeqs
  numObjects := h'.numObjects.trans h.numObjects
  requests := h'.requests.trans h.requests
  waiting := h'.waiting.trans h.waiting
  running := h'.running.trans h.running
  objects q := (h'.objects q).trans (h.objects q)

theorem idOf (h : Kept s t) (q : RequestRef) : t.idOf q = s.idOf q := dropPlan_id (h.objects q)

theorem status (h : Kept s t) (q : RequestRef) : (t.objects q).status = (s.objects q).status :=
  dropPlan_status (h.objects q)

theorem prefillDone (h : Kept s t) (q : RequestRef) :
    (t.objects q).prefillDone = (s.objects q).prefillDone :=
  dropPlan_done (h.objects q)

/-- A change of the block plan of one request. -/
theorem of_modify (s : BatchPlanner) (r : RequestRef) {change : Request → Request}
    (h : ∀ request, dropPlan (change request) = dropPlan request) : Kept s (s.modify r change) := by
  refine ⟨rfl, rfl, rfl, rfl, rfl, rfl, fun q => ?_⟩
  by_cases hq : q = r
  · subst hq
    rw [modify_objects_self, h]
  · rw [modify_objects_of_ne change hq]

end Kept

namespace Moved

variable {waiting running : List RequestRef} {change : Request → Request}

theorem trans_kept (h : Moved s waiting running r change t) (h' : Kept t u) :
    Moved s waiting running r change u where
  config := h'.config.trans h.config
  maxNumSeqs := h'.maxNumSeqs.trans h.maxNumSeqs
  numObjects := h'.numObjects.trans h.numObjects
  requests := h'.requests.trans h.requests
  waiting := h'.waiting.trans h.waiting
  running := h'.running.trans h.running
  self := (h'.objects r).trans h.self
  others q hq := (h'.objects q).trans (h.others q hq)

end Moved

/-- A change of one request, after nobody moved; the change does not look at block plans. -/
theorem Kept.moved {change : Request → Request} (h : Kept s t)
    (hchange : ∀ request request', dropPlan request = dropPlan request' →
      dropPlan (change request) = dropPlan (change request')) :
    Moved s s.waiting s.running r change (t.modify r change) where
  config := h.config
  maxNumSeqs := h.maxNumSeqs
  numObjects := h.numObjects
  requests := h.requests
  waiting := h.waiting
  running := h.running
  self := by rw [modify_objects_self]; exact hchange _ _ (h.objects r)
  others q hq := by rw [modify_objects_of_ne change hq]; exact h.objects q

/-- The queue without the id of `r`. -/
def waitingBut (s : BatchPlanner) (r : RequestRef) : List RequestRef :=
  s.waiting.filter fun q => s.idOf q ≠ s.idOf r

/-- `r` made progress up to `reach` tokens of its prompt. -/
def advance (reach : Nat) (request : Request) : Request :=
  { request with numComputedTokens := reach }

/-- `r` was admitted on a match of `cached` tokens and ran its first chunk. -/
def admitted (slot cached chunk : Nat) (request : Request) : Request :=
  { request with
    slot := some slot, status := .running, numCachedTokens := cached
    numComputedTokens := cached + chunk }

theorem advance_congr (reach : Nat) (request request' : Request)
    (h : dropPlan request = dropPlan request') :
    dropPlan (advance reach request) = dropPlan (advance reach request') :=
  congrArg (advance reach) h

/-! ### Calls that move nobody -/

/-- A change of the cache that moves no block, and of nothing else. -/
structure Idle (s t : BatchPlanner) : Prop where
  kept : Kept s t
  same : SameBlocks s.prefixCache t.prefixCache

theorem Idle.refl (s : BatchPlanner) : Idle s s := ⟨.refl s, .refl _⟩

theorem Idle.trans (h : Idle s t) (h' : Idle t u) : Idle s u :=
  ⟨h.kept.trans h'.kept, h.same.trans h'.same⟩

theorem idle_cache {cache : PrefixCache} (h : SameBlocks s.prefixCache cache) :
    Idle s { s with prefixCache := cache } :=
  ⟨⟨rfl, rfl, rfl, rfl, rfl, rfl, fun _ => rfl⟩, h⟩

theorem idle_dropPlan (s : BatchPlanner) (r : RequestRef) : Idle s (s.modify r dropPlan) :=
  ⟨.of_modify s r fun _ => rfl, .refl _⟩

theorem idle_mapBlocks (s : BatchPlanner) (r : RequestRef) : Idle s (s.mapBlocks r) := by
  unfold mapBlocks
  exact (idle_cache (PrefixCache.takeTableWrites_same _ _)).trans
    ⟨.of_modify _ r fun _ => rfl, .refl _⟩

theorem idle_trackPending (s : BatchPlanner) (r : RequestRef) (n : Nat) : Idle s (s.trackPending r n) :=
  ⟨⟨rfl, rfl, rfl, rfl, rfl, rfl, fun _ => rfl⟩, .refl _⟩

theorem idle_mapped (s : BatchPlanner) (r : RequestRef) (n : Nat) :
    Idle s ((s.mapBlocks r).trackPending r n) :=
  (idle_mapBlocks s r).trans (idle_trackPending _ r n)

theorem freeBlocks_eff {rid : RequestId} (h : s.freeBlocks rid = .ok t) :
    Kept s t ∧ s.prefixCache.free rid = .ok t.prefixCache := by
  unfold freeBlocks at h
  obtain ⟨cache, hfree, h⟩ := bind_eq_ok.mp h
  cases h
  exact ⟨⟨rfl, rfl, rfl, rfl, rfl, rfl, fun _ => rfl⟩, hfree⟩

/-! ### Eviction -/

/-- `r` went back to the head of the queue, and its blocks to the pool. -/
structure Evicted (s : BatchPlanner) (r : RequestRef) (t : BatchPlanner) : Prop where
  moved : Moved s (r :: s.waitingBut r) (s.running.erase r) r evict t
  released : Releases s.prefixCache (s.idOf r) t.prefixCache

theorem preempt_eff (h : s.preempt r = .ok t) : Evicted s r t := by
  unfold preempt at h
  obtain ⟨u, hfree, h⟩ := bind_eq_ok.mp h
  cases h
  unfold freeBlocks at hfree
  obtain ⟨cache, hcache, hfree⟩ := bind_eq_ok.mp hfree
  cases hfree
  refine ⟨⟨rfl, rfl, rfl, rfl, ?_, rfl, ?_, fun q hq => ?_⟩, PrefixCache.free_releases hcache⟩
  · -- the evicted request keeps its id
    refine congrArg (r :: ·) (List.filter_congr fun q _ => ?_)
    by_cases hq : q = r
    · subst hq
      simp only [BatchPlanner.modify, Function.update_self]
      rfl
    · simp only [BatchPlanner.modify, Function.update_of_ne hq]
      rfl
  · simp [BatchPlanner.modify]
  · simp [BatchPlanner.modify, Function.update_of_ne hq]

/-- Whoever is evicted was eligible; otherwise nobody is. -/
theorem preemptVictim_eff {protect : List RequestRef} {victim : Option RequestRef}
    (h : s.preemptVictim protect = .ok (victim, t)) :
    (victim = none ∧ t = s ∧ ∀ v, ¬ Eligible s protect v) ∨
      ∃ v, victim = some v ∧ Eligible s protect v ∧ Evicted s v t := by
  unfold preemptVictim at h
  split at h
  · rename_i hnone
    cases h
    refine .inl ⟨rfl, rfl, fun v hv => ?_⟩
    have hfind := List.find?_eq_none.mp hnone v (List.mem_reverse.mpr hv.running)
    simp [hv.done, hv.free, hv.progress] at hfind
  · rename_i v hsome
    obtain ⟨u, hpreempt, h⟩ := bind_eq_ok.mp h
    cases h
    have hmem : v ∈ s.running := List.mem_reverse.mp (List.mem_of_find?_eq_some hsome)
    have hprop := List.find?_some hsome
    simp only [Bool.and_eq_true, Bool.not_eq_true', List.contains_eq_mem, decide_eq_false_iff_not,
      List.isEmpty_eq_false_iff] at hprop
    exact .inr ⟨v, rfl, ⟨hmem, hprop.1.2, hprop.1.1, hprop.2⟩, preempt_eff hpreempt⟩

/-- One thing an attempt to make room does. -/
inductive Press (protect : List RequestRef) (st : PlanState) : PlanState → Prop
  | idle {t : BatchPlanner} (hidle : Idle st.planner t) : Press protect st { st with planner := t }
  | evict {v : RequestRef} {t : BatchPlanner} (helig : Eligible st.planner protect v)
      (hevicted : Evicted st.planner v t) :
      Press protect st { st with planner := t, preempted := st.preempted ++ [v] }

abbrev Presses (protect : List RequestRef) : PlanState → PlanState → Prop :=
  Relation.ReflTransGen (Press protect)

theorem allocate_eff {n : Nat} {granted : Bool} (h : s.allocate r n = .ok (granted, t)) :
    (granted = true ∧ Kept s t ∧ Covers s.prefixCache (s.idOf r) n t.prefixCache) ∨
      granted = false ∧ Idle s t ∧ s.prefixCache.numFreeBlocks <
        numBlocksFor n - (s.prefixCache.blocksUnder (s.idOf r)).length := by
  unfold allocate at h
  obtain ⟨⟨granted', cache⟩, halloc, h⟩ := bind_eq_ok.mp h
  cases h
  rcases PrefixCache.allocate_grow_eff halloc with ⟨rfl, hcovers⟩ | ⟨rfl, hsame, hshort⟩
  · exact .inl ⟨rfl, ⟨rfl, rfl, rfl, rfl, rfl, rfl, fun _ => rfl⟩, hcovers⟩
  · exact .inr ⟨rfl, idle_cache hsame, hshort⟩

/-- The pool is short of what `r` needs to hold `n` tokens. -/
def Short (s : BatchPlanner) (r : RequestRef) (n : Nat) : Prop :=
  s.prefixCache.numFreeBlocks < numBlocksFor n - (s.prefixCache.blocksUnder (s.idOf r)).length

theorem Short.idle {n : Nat} (h : Short s r n) (hidle : Idle s t) : Short t r n := by
  rw [Short, hidle.same.free, hidle.kept.idOf, hidle.same.blocks]
  exact h

theorem Eligible.of_kept {protect : List RequestRef} {v : RequestRef} (h : Kept s t)
    (helig : Eligible t protect v) : Eligible s protect v where
  running := h.running ▸ helig.running
  free := helig.free
  done := (h.prefillDone v).symm.trans helig.done
  progress := by
    rw [← dropPlan_outputs (h.objects v)]
    exact helig.progress

/-- How an attempt to reserve ends: granted on blocks that cover it, or refused with the pool short
and nobody left to evict. -/
inductive ReserveEnd (r : RequestRef) (n : Nat) (protect : List RequestRef) (s : BatchPlanner) :
    Bool → BatchPlanner → Prop
  | granted {t : BatchPlanner} (hkept : Kept s t)
      (hcovers : Covers s.prefixCache (s.idOf r) n t.prefixCache) :
      ReserveEnd r n protect s true t
  | refused (hshort : Short s r n) (hnobody : ∀ v, ¬ Eligible s protect v) :
      ReserveEnd r n protect s false s

theorem reserveLoop_eff {n : Nat} {protect : List RequestRef} : ∀ (bound : Nat) {st : PlanState}
    {granted : Bool} {t : BatchPlanner} {victims : List RequestRef}, Short st.planner r n →
    reserveLoop r n protect bound st.planner st.preempted = .ok (granted, t, victims) →
    ∃ st', Presses protect st st' ∧ victims = st'.preempted ∧
      ReserveEnd r n protect st'.planner granted t
  | 0, st, granted, t, victims, _, h => by cases h
  | bound + 1, st, granted, t, victims, hshort, h => by
      rw [reserveLoop] at h
      obtain ⟨⟨victim, s₁⟩, hvictim, h⟩ := bind_eq_ok.mp h
      rcases preemptVictim_eff hvictim with ⟨rfl, rfl, hnobody⟩ | ⟨v, rfl, helig, hevicted⟩
      · cases h
        exact ⟨st, .refl, rfl, .refused hshort hnobody⟩
      · -- somebody is evicted: the allocation is tried again one request down
        let st₁ : PlanState := { st with planner := s₁, preempted := st.preempted ++ [v] }
        have hpress : Press protect st st₁ := .evict helig hevicted
        obtain ⟨⟨granted', s₂⟩, halloc, h⟩ := bind_eq_ok.mp h
        rcases allocate_eff halloc with ⟨rfl, hkept, hcovers⟩ | ⟨rfl, hidle, hshort₁⟩
        · cases h
          exact ⟨st₁, .single hpress, rfl, .granted hkept hcovers⟩
        · let st₂ : PlanState := { st₁ with planner := s₂ }
          have hshort₂ : Short st₂.planner r n := Short.idle hshort₁ hidle
          obtain ⟨st', hrest, hvictims, hend⟩ := reserveLoop_eff bound hshort₂ h
          exact ⟨st', (Relation.ReflTransGen.single hpress).trans (.head (.idle hidle) hrest),
            hvictims, hend⟩

/-- `_reserve`: evictions outside the protected, then granted or refused. -/
theorem reserve_eff {n : Nat} {protect : List RequestRef} {granted : Bool}
    {victims : List RequestRef}
    (h : st.planner.reserve r n protect st.preempted = .ok (granted, t, victims)) :
    ∃ st', Presses (r :: protect) st st' ∧ victims = st'.preempted ∧
      ReserveEnd r n (r :: protect) st'.planner granted t := by
  unfold reserve at h
  obtain ⟨⟨granted', s₁⟩, halloc, h⟩ := bind_eq_ok.mp h
  rcases allocate_eff halloc with ⟨rfl, hkept, hcovers⟩ | ⟨rfl, hidle, hshort⟩
  · cases h
    exact ⟨st, .refl, rfl, .granted hkept hcovers⟩
  · let st₁ : PlanState := { st with planner := s₁ }
    have hshort₁ : Short st₁.planner r n := Short.idle hshort hidle
    obtain ⟨st', hrest, hvictims, hend⟩ := reserveLoop_eff _ hshort₁ h
    exact ⟨st', .head (.idle hidle) hrest, hvictims, hend⟩

/-- What evictions outside `protect` leave alone. -/
structure Yielded (protect : List RequestRef) (st st' : PlanState) : Prop where
  prefill : st'.prefill = st.prefill
  decode : st'.decode = st.decode
  preempted : ∃ victims, st'.preempted = st.preempted ++ victims
  config : st'.planner.config = st.planner.config
  maxNumSeqs : st'.planner.maxNumSeqs = st.planner.maxNumSeqs
  numObjects : st'.planner.numObjects = st.planner.numObjects
  running : st'.planner.running.Sublist st.planner.running
  stays : ∀ r ∈ protect, r ∈ st.planner.running → r ∈ st'.planner.running
  position : ∀ n, ∀ r ∈ protect, r ∈ st.planner.running.take n → r ∈ st'.planner.running.take n
  objects : ∀ r, r ∈ protect ∨ r ∈ st'.planner.running →
    dropPlan (st'.planner.objects r) = dropPlan (st.planner.objects r)

theorem Yielded.refl (protect : List RequestRef) (st : PlanState) : Yielded protect st st :=
  ⟨rfl, rfl, ⟨[], by simp⟩, rfl, rfl, rfl, List.Sublist.refl _, fun _ _ h => h, fun _ _ _ h => h,
    fun _ _ => rfl⟩

theorem Yielded.granted {protect : List RequestRef} (h : Yielded protect st st') :
    st'.granted = st.granted := by
  simp only [PlanState.granted, h.prefill, h.decode]

theorem Press.yielded {protect : List RequestRef} (hnodup : st.planner.running.Nodup)
    (h : Press protect st st') : Yielded protect st st' := by
  cases h with
  | idle hidle =>
    have hrun := hidle.kept.running
    exact ⟨rfl, rfl, ⟨[], by simp⟩, hidle.kept.config, hidle.kept.maxNumSeqs,
      hidle.kept.numObjects, by simp only [hrun]; exact List.Sublist.refl _,
      fun r _ hr => by simp only [hrun]; exact hr,
      fun n r _ hr => by simp only [hrun]; exact hr, fun r _ => hidle.kept.objects r⟩
  | @evict v t helig hevicted =>
    have hrun := hevicted.moved.running
    have hne : ∀ r ∈ protect, r ≠ v := fun r hr hrv => helig.free (hrv ▸ hr)
    refine ⟨rfl, rfl, ⟨[v], rfl⟩, hevicted.moved.config, hevicted.moved.maxNumSeqs,
      hevicted.moved.numObjects, ?_, fun r hr hmem => ?_, fun n r hr hmem => ?_, fun r hr => ?_⟩
    · simp only [hrun]
      exact List.erase_sublist
    · simp only [hrun]
      exact (hnodup.mem_erase_iff).mpr ⟨hne r hr, hmem⟩
    · simp only [hrun]
      exact mem_take_erase (hne r hr) hmem
    · refine hevicted.moved.others r ?_
      rcases hr with hr | hr
      · exact hne r hr
      · simp only [hrun] at hr
        exact ((hnodup.mem_erase_iff).mp hr).1

theorem Presses.yielded {protect : List RequestRef} (hnodup : st.planner.running.Nodup)
    (h : Presses protect st st') : Yielded protect st st' := by
  induction h with
  | refl => exact .refl _ _
  | @tail st₁ st₂ _ hlast ih =>
    have hlast := hlast.yielded (ih.running.nodup hnodup)
    refine ⟨hlast.prefill.trans ih.prefill, hlast.decode.trans ih.decode, ?_,
      hlast.config.trans ih.config, hlast.maxNumSeqs.trans ih.maxNumSeqs,
      hlast.numObjects.trans ih.numObjects, hlast.running.trans ih.running,
      fun r hr hmem => hlast.stays r hr (ih.stays r hr hmem),
      fun n r hr hmem => hlast.position n r hr (ih.position n r hr hmem), fun r hr => ?_⟩
    · obtain ⟨vs, hvs⟩ := ih.preempted
      obtain ⟨vs', hvs'⟩ := hlast.preempted
      exact ⟨vs ++ vs', by rw [hvs', hvs, List.append_assoc]⟩
    · exact (hlast.objects r hr).trans
        (ih.objects r (hr.imp_right fun hmem => hlast.running.subset hmem))

/-! ### The turns of a plan -/

/-- The widest chunk granted so far. -/
def PlanState.widest (st : PlanState) : Nat := (st.prefill.map Prod.snd).foldl max 0

/-- One thing `plan` does. -/
inductive Turn (st : PlanState) : PlanState → Prop
  | idle {t : BatchPlanner} (hidle : Idle st.planner t) : Turn st { st with planner := t }
  | evict {r : RequestRef} {t : BatchPlanner} (hr : r ∈ st.planner.running) (hfree : r ∉ st.granted)
      (hdone : (st.planner.objects r).prefillDone) (hevicted : Evicted st.planner r t) :
      Turn st { st with planner := t, preempted := st.preempted ++ [r] }
  /-- `r` resumes its prompt. -/
  | resume {r : RequestRef} {t : BatchPlanner} (hr : r ∈ st.planner.running) (hfree : r ∉ st.granted)
      (hopen : ¬ (st.planner.objects r).prefillDone)
      (hmoved : Moved st.planner st.planner.waiting st.planner.running r
        (advance ((st.planner.objects r).numComputedTokens + st.planner.nextChunk r)) t)
      (hcovers : Covers st.planner.prefixCache (st.planner.idOf r)
        ((st.planner.objects r).numComputedTokens + st.planner.nextChunk r) t.prefixCache) :
      Turn st { st with planner := t, prefill := st.prefill ++ [(r, st.planner.nextChunk r)] }
  /-- A queued request was tracked and lost what it was tracked with. -/
  | refuse {r : RequestRef} {t : BatchPlanner} (hw : r ∈ st.planner.waiting)
      (hkept : Kept st.planner t)
      (hreleased : Releases st.planner.prefixCache (st.planner.idOf r) t.prefixCache)
      (hback : st.planner.prefixCache.blocksUnder (st.planner.idOf r) = [] →
        st.planner.prefixCache.NullHeld → SameBlocks st.planner.prefixCache t.prefixCache) :
      Turn st { st with planner := t }
  /-- A queued request is admitted on a match, within the token budget. -/
  | seat {r : RequestRef} {t : BatchPlanner} {hit : PrefixMatch} {slot chunk : Nat}
      (hw : r ∈ st.planner.waiting) (haligned : Aligned hit)
      (hshort : hit.numTokens ≤ (st.planner.objects r).promptLen - 1)
      (hchunk : chunk = st.planner.chunkOf (st.planner.objects r) hit.numTokens)
      (hmoved : Moved st.planner (st.planner.waitingBut r) (st.planner.running ++ [r]) r
        (admitted slot hit.numTokens chunk) t)
      (hcovers : Covers st.planner.prefixCache (st.planner.idOf r) (hit.numTokens + chunk)
        t.prefixCache)
      (hroom : st.planner.prefixCache.blocksUnder (st.planner.idOf r) = [] →
        numBlocksFor (hit.numTokens + chunk) - hit.blocks.length ≤
          st.planner.prefixCache.numFreeBlocks)
      (hnodecode : st.decode = [])
      (hbudget : st.prefill = [] ∨ max st.widest (st.planner.chunkOf (st.planner.objects r) 0) *
        (st.prefill.length + 1) ≤ st.planner.config.maxNumBatchedTokens) :
      Turn st { st with planner := t, prefill := st.prefill ++ [(r, chunk)] }
  /-- A queued request is parked on `n` tokens of promoted prefix. -/
  | park {r : RequestRef} {t : BatchPlanner} {n : Nat} (hw : r ∈ st.planner.waiting)
      (hn : n < (st.planner.objects r).promptLen)
      (hmoved : Moved st.planner (st.planner.waitingBut r) st.planner.running r id t)
      (hcovers : Covers st.planner.prefixCache (st.planner.idOf r) n t.prefixCache) :
      Turn st { st with planner := t }
  /-- `r` takes one decode step. -/
  | grow {r : RequestRef} {t : BatchPlanner} (hr : r ∈ st.planner.running) (hfree : r ∉ st.granted)
      (hdone : (st.planner.objects r).prefillDone) (hkept : Kept st.planner t)
      (hcovers : Covers st.planner.prefixCache (st.planner.idOf r) (st.planner.decodeReach r)
        t.prefixCache) :
      Turn st { st with planner := t, decode := st.decode ++ [r] }

abbrev Turns : PlanState → PlanState → Prop := Relation.ReflTransGen Turn

theorem Press.turn {protect : List RequestRef} (h : Press protect st st')
    (hsub : ∀ r ∈ st.granted, r ∈ protect) : Turn st st' := by
  cases h with
  | idle hidle => exact .idle hidle
  | evict helig hevicted =>
    exact .evict helig.running (fun hmem => helig.free (hsub _ hmem)) helig.done hevicted

theorem Presses.turns {protect : List RequestRef} (hnodup : st.planner.running.Nodup)
    (h : Presses protect st st') (hsub : ∀ r ∈ st.granted, r ∈ protect) : Turns st st' := by
  induction h with
  | refl => exact .refl
  | @tail st₁ st₂ hrest hlast ih =>
    have hgranted := (Presses.yielded hnodup hrest).granted
    exact ih.tail (hlast.turn fun r hr => hsub r (hgranted ▸ hr))

/-! ### Stage 1 -/

/-- What stage 1 does at one position: nothing, or it makes room for the request there and grants
it its next chunk or refuses it. -/
inductive Visit (index : Nat) (st : PlanState) : PlanState → Prop
  | past (hdone : ∀ r, st.planner.running[index]? = some r → (st.planner.objects r).prefillDone) :
      Visit index st st
  | granted {r : RequestRef} {st₁ : PlanState} {t : BatchPlanner}
      (hget : st.planner.running[index]? = some r) (hopen : ¬ (st.planner.objects r).prefillDone)
      (hpress : Presses (r :: st.granted) (considered st r) st₁)
      (hmoved : Moved st₁.planner st₁.planner.waiting st₁.planner.running r
        (advance ((st.planner.objects r).numComputedTokens + st.planner.nextChunk r)) t)
      (hcovers : Covers st₁.planner.prefixCache (st₁.planner.idOf r)
        ((st.planner.objects r).numComputedTokens + st.planner.nextChunk r) t.prefixCache) :
      Visit index st
        { st₁ with planner := t, prefill := st₁.prefill ++ [(r, st.planner.nextChunk r)] }
  | refused {r : RequestRef} {st₁ : PlanState}
      (hget : st.planner.running[index]? = some r) (hopen : ¬ (st.planner.objects r).prefillDone)
      (hpress : Presses (r :: st.granted) (considered st r) st₁)
      (hshort : Short st₁.planner r
        ((st.planner.objects r).numComputedTokens + st.planner.nextChunk r))
      (hnobody : ∀ v, ¬ Eligible st₁.planner (r :: st.granted) v) : Visit index st st₁

/-- Stage 1's attempt to reserve the next chunk of a request. -/
def attempt (st : PlanState) (r : RequestRef) :
    Except Raised (Bool × BatchPlanner × List RequestRef) :=
  (considered st r).planner.reserve r
    ((st.planner.objects r).numComputedTokens + st.planner.nextChunk r) st.granted st.preempted

theorem resumeAt_eq {index : Nat} (hget : st.planner.running[index]? = some r)
    (hopen : ¬ (st.planner.objects r).prefillDone) : resumeAt st index = (do
      let grant ← attempt st r
      if grant.1 then
        let planner := grant.2.1.modify r (advance
          ((st.planner.objects r).numComputedTokens + st.planner.nextChunk r))
        return { st with
          planner := (planner.mapBlocks r).trackPending r
            ((st.planner.objects r).numComputedTokens + st.planner.nextChunk r)
          preempted := grant.2.2
          prefill := st.prefill ++ [(r, st.planner.nextChunk r)] }
      else return { st with planner := grant.2.1, preempted := grant.2.2 } :
        Except Raised PlanState) := by
  rw [resumeAt, hget]
  simp only [if_neg hopen, modify_objects_self]
  rfl

theorem resumeAt_eff {index : Nat} (hnodup : st.planner.running.Nodup)
    (h : resumeAt st index = .ok st') : Visit index st st' := by
  cases hget : st.planner.running[index]? with
  | none =>
    rw [resumeAt, hget] at h
    cases h
    exact .past fun r hr => by rw [hget] at hr; cases hr
  | some r =>
    by_cases hdone : (st.planner.objects r).prefillDone
    · rw [resumeAt, hget] at h
      simp only [if_pos hdone] at h
      cases h
      refine .past fun r' hr' => ?_
      rw [hget] at hr'
      cases hr'
      exact hdone
    rw [resumeAt_eq hget hdone] at h
    obtain ⟨⟨granted, s₁, victims⟩, hreserve, h⟩ := bind_eq_ok.mp h
    have hreserve : (considered st r).planner.reserve r _ st.granted
        (considered st r).preempted = .ok (granted, s₁, victims) := hreserve
    have hnodup : (considered st r).planner.running.Nodup := hnodup
    obtain ⟨st₁, hpress, rfl, hend⟩ := reserve_eff hreserve
    have hyield := Presses.yielded hnodup hpress
    have hpre : st₁.prefill = st.prefill := hyield.prefill
    have hdec : st₁.decode = st.decode := hyield.decode
    cases hend with
    | granted hkept hcovers =>
      cases h
      have hidle := idle_mapped (s₁.modify r (advance
        ((st.planner.objects r).numComputedTokens + st.planner.nextChunk r))) r
          ((st.planner.objects r).numComputedTokens + st.planner.nextChunk r)
      rw [← hpre, ← hdec]
      exact .granted hget hdone hpress ((hkept.moved (advance_congr _)).trans_kept hidle.kept)
        (hcovers.trans_same hidle.same)
    | refused hshort hnobody =>
      cases h
      rw [← hpre, ← hdec]
      exact .refused hget hdone hpress hshort hnobody

/-- Who is where, whatever the blocks: a running request is listed once, a request's status says
which list it is in, and one that has not ended is the one its id leads to. -/
structure Roster (s : BatchPlanner) : Prop where
  nodup : s.running.Nodup
  running_ok : ∀ r ∈ s.running, (s.objects r).status = .running
  waiting_ok : ∀ r ∈ s.waiting, (s.objects r).status = .waiting
  seated : ∀ r < s.numObjects, (s.objects r).status = .running → r ∈ s.running
  known : ∀ r, r ∈ s.waiting ∨ r ∈ s.running → r < s.numObjects
  ids : ∀ r < s.numObjects, (s.objects r).status ≠ .finished → s.requests (s.idOf r) = some r

namespace Roster

theorem not_running (h : Roster s) (hw : r ∈ s.waiting) : r ∉ s.running := fun hr => by
  have := (h.waiting_ok r hw).symm.trans (h.running_ok r hr)
  cases this

/-- Requests that have not ended have different ids. -/
theorem id_inj (h : Roster s) (hr : r < s.numObjects) (hr' : r' < s.numObjects)
    (hlive : (s.objects r).status ≠ .finished) (hlive' : (s.objects r').status ≠ .finished)
    (hid : s.idOf r = s.idOf r') : r = r' := by
  have h₁ := h.ids r hr hlive
  have h₂ := h.ids r' hr' hlive'
  rw [hid] at h₁
  exact Option.some.inj (h₁.symm.trans h₂)

theorem running_id_inj (h : Roster s) (hr : r ∈ s.running) (hr' : r' ∈ s.running)
    (hid : s.idOf r = s.idOf r') : r = r' :=
  h.id_inj (h.known r (.inr hr)) (h.known r' (.inr hr')) (by rw [h.running_ok r hr]; decide)
    (by rw [h.running_ok r' hr']; decide) hid

theorem id_ne (h : Roster s) (hw : r ∈ s.waiting) (hr' : r' ∈ s.running) :
    s.idOf r ≠ s.idOf r' := fun hid => by
  have heq := h.id_inj (h.known r (.inl hw)) (h.known r' (.inr hr'))
    (by rw [h.waiting_ok r hw]; decide) (by rw [h.running_ok r' hr']; decide) hid
  exact h.not_running hw (heq ▸ hr')

theorem kept (h : Roster s) (hkept : Kept s t) : Roster t where
  nodup := hkept.running ▸ h.nodup
  running_ok r hr := (hkept.status r).trans (h.running_ok r (hkept.running ▸ hr))
  waiting_ok r hr := (hkept.status r).trans (h.waiting_ok r (hkept.waiting ▸ hr))
  seated r hr hstatus := by
    rw [hkept.running]
    exact h.seated r (hkept.numObjects ▸ hr) ((hkept.status r).symm.trans hstatus)
  known r hr := by
    rw [hkept.numObjects]
    rw [hkept.waiting, hkept.running] at hr
    exact h.known r hr
  ids r hr hlive := by
    rw [hkept.requests, hkept.idOf]
    rw [hkept.status] at hlive
    exact h.ids r (hkept.numObjects ▸ hr) hlive

end Roster

namespace Moved

variable {waiting running : List RequestRef} {change : Request → Request}

theorem status_self (h : Moved s waiting running r change t) :
    (t.objects r).status = (change (s.objects r)).status :=
  dropPlan_status h.self

theorem status_of_ne (h : Moved s waiting running r change t) (hne : r' ≠ r) :
    (t.objects r').status = (s.objects r').status :=
  dropPlan_status (h.others r' hne)

theorem idOf (h : Moved s waiting running r change t)
    (hid : ∀ request, (change request).requestId = request.requestId) (q : RequestRef) :
    t.idOf q = s.idOf q := by
  by_cases hq : q = r
  · subst hq
    have hself := congrArg Request.requestId h.self
    exact hself.trans (hid _)
  · have hother := congrArg Request.requestId (h.others q hq)
    exact hother

/-- Moving one request keeps the roster when its new status says where it went. -/
theorem roster (h : Moved s waiting running r change t) (hs : Roster s) (hr : r < s.numObjects)
    (hid : ∀ request, (change request).requestId = request.requestId)
    (hlive : (s.objects r).status ≠ .finished) (hnodup : running.Nodup)
    (hwaiting : ∀ q ∈ waiting, q = r ∧ (change (s.objects r)).status = .waiting ∨
      q ≠ r ∧ q ∈ s.waiting)
    (hrunning : ∀ q ∈ running, q = r ∧ (change (s.objects r)).status = .running ∨
      q ≠ r ∧ q ∈ s.running)
    (hseated : (change (s.objects r)).status = .running → r ∈ running)
    (hstays : ∀ q ∈ s.running, q ≠ r → q ∈ running) : Roster t where
  nodup := h.running ▸ hnodup
  running_ok q hq := by
    rcases hrunning q (h.running ▸ hq) with ⟨rfl, hstatus⟩ | ⟨hne, hmem⟩
    · exact h.status_self.trans hstatus
    · exact (h.status_of_ne hne).trans (hs.running_ok q hmem)
  waiting_ok q hq := by
    rcases hwaiting q (h.waiting ▸ hq) with ⟨rfl, hstatus⟩ | ⟨hne, hmem⟩
    · exact h.status_self.trans hstatus
    · exact (h.status_of_ne hne).trans (hs.waiting_ok q hmem)
  seated q hq hstatus := by
    rw [h.running]
    by_cases hne : q = r
    · subst hne
      exact hseated (h.status_self.symm.trans hstatus)
    · exact hstays q (hs.seated q (h.numObjects ▸ hq) ((h.status_of_ne hne).symm.trans hstatus)) hne
  known q hq := by
    rw [h.numObjects]
    rw [h.waiting, h.running] at hq
    rcases hq with hq | hq
    · rcases hwaiting q hq with ⟨rfl, -⟩ | ⟨-, hmem⟩
      · exact hr
      · exact hs.known q (.inl hmem)
    · rcases hrunning q hq with ⟨rfl, -⟩ | ⟨-, hmem⟩
      · exact hr
      · exact hs.known q (.inr hmem)
  ids q hq hq' := by
    rw [h.requests, h.idOf hid]
    by_cases hne : q = r
    · subst hne
      exact hs.ids q hr hlive
    · rw [h.status_of_ne hne] at hq'
      exact hs.ids q (h.numObjects ▸ hq) hq'

end Moved

theorem mem_waitingBut (h : Roster s) (hr : r < s.numObjects)
    (hlive : (s.objects r).status ≠ .finished) {q : RequestRef} :
    q ∈ s.waitingBut r ↔ q ∈ s.waiting ∧ q ≠ r := by
  simp only [waitingBut, List.mem_filter, ne_eq, decide_not, Bool.not_eq_true',
    decide_eq_false_iff_not]
  refine and_congr_right fun hq => not_congr ⟨fun hid => ?_, fun heq => heq ▸ rfl⟩
  exact h.id_inj (h.known q (.inl hq)) hr (by rw [h.waiting_ok q hq]; decide) hlive hid

/-- An eviction keeps the roster. -/
theorem Evicted.roster (h : Evicted s r t) (hs : Roster s) (hr : r ∈ s.running) : Roster t := by
  have hlt := hs.known r (.inr hr)
  have hlive : (s.objects r).status ≠ .finished := by rw [hs.running_ok r hr]; decide
  refine h.moved.roster hs hlt (fun _ => rfl) hlive (hs.nodup.erase r) (fun q hq => ?_)
    (fun q hq => ?_) (fun hstatus => ?_) fun q hq hne => (hs.nodup.mem_erase_iff).mpr ⟨hne, hq⟩
  · rcases List.mem_cons.mp hq with rfl | hq
    · exact .inl ⟨rfl, rfl⟩
    · obtain ⟨hq, hne⟩ := (mem_waitingBut hs hlt hlive).mp hq
      exact .inr ⟨hne, hq⟩
  · exact .inr ((hs.nodup.mem_erase_iff).mp hq)
  · cases hstatus

/-- Whoever waits goes on waiting through somebody's eviction. -/
theorem Evicted.mem_waiting (h : Evicted s r t) (hs : Roster s) (hr : r ∈ s.running)
    (hw : r' ∈ s.waiting) : r' ∈ t.waiting := by
  rw [h.moved.waiting]
  refine List.mem_cons_of_mem _ ((mem_waitingBut hs (hs.known r (.inr hr)) ?_).mpr ⟨hw, ?_⟩)
  · rw [hs.running_ok r hr]; decide
  · rintro rfl
    exact hs.not_running hw hr

/-- **The step lemma.** Every turn keeps the roster. -/
theorem Turn.roster (h : Turn st st') (hs : Roster st.planner) : Roster st'.planner := by
  cases h with
  | idle hidle => exact hs.kept hidle.kept
  | evict hr hfree hdone hevicted => exact hevicted.roster hs hr
  | @resume r t hr hfree hopen hmoved hcovers =>
    refine hmoved.roster hs (hs.known r (.inr hr)) (fun _ => rfl)
      (by rw [hs.running_ok r hr]; decide) hs.nodup (fun q hq => .inr ⟨?_, hq⟩) (fun q hq => ?_)
      (fun _ => hr) fun q hq _ => hq
    · rintro rfl
      exact hs.not_running hq hr
    · by_cases hne : q = r
      · exact .inl ⟨hne, hs.running_ok r hr⟩
      · exact .inr ⟨hne, hq⟩
  | refuse hw hkept => exact hs.kept hkept
  | @seat r t hit slot chunk hw _ _ _ hmoved =>
    have hlt := hs.known r (.inl hw)
    have hlive : (st.planner.objects r).status ≠ .finished := by
      rw [hs.waiting_ok r hw]; decide
    refine hmoved.roster hs hlt (fun _ => rfl) hlive ?_ (fun q hq => ?_) (fun q hq => ?_)
      (fun _ => List.mem_append_right _ (List.mem_singleton_self r))
      fun q hq _ => List.mem_append_left _ hq
    · exact List.nodup_append.mpr ⟨hs.nodup, List.nodup_singleton r, fun a ha b hb hab =>
        hs.not_running hw (List.mem_singleton.mp hb ▸ hab ▸ ha)⟩
    · obtain ⟨hq, hne⟩ := (mem_waitingBut hs hlt hlive).mp hq
      exact .inr ⟨hne, hq⟩
    · rcases List.mem_append.mp hq with hmem | hmem
      · exact .inr ⟨fun heq => hs.not_running hw (heq ▸ hmem), hmem⟩
      · exact .inl ⟨List.mem_singleton.mp hmem, rfl⟩
  | @park r t n hw _ hmoved =>
    have hlt := hs.known r (.inl hw)
    have hlive : (st.planner.objects r).status ≠ .finished := by
      rw [hs.waiting_ok r hw]; decide
    refine hmoved.roster hs hlt (fun _ => rfl) hlive hs.nodup (fun q hq => ?_)
      (fun q hq => .inr ⟨?_, hq⟩) (fun hstatus => ?_) fun q hq _ => hq
    · obtain ⟨hq, hne⟩ := (mem_waitingBut hs hlt hlive).mp hq
      exact .inr ⟨hne, hq⟩
    · rintro rfl
      exact hs.not_running hw hq
    · rw [id_eq, hs.waiting_ok r hw] at hstatus
      cases hstatus
  | grow hr hfree hdone hkept => exact hs.kept hkept

theorem Turns.roster (h : Turns st st') (hs : Roster st.planner) : Roster st'.planner := by
  induction h with
  | refl => exact hs
  | tail _ hlast ih => exact hlast.roster ih

end BatchPlanner

end RapidLlm
