import RapidLlm.Engine.PlanTurns

/-!
# RapidLlm.Engine.PlanStages

**One call of `plan` as turns, stage by stage**, for a planner whose `Roster` holds and whatever
its tier does.

* `Walked s n st`: stage 1 got from `s` past the first `n` positions of the running list;
* `TieredTurn`: stage 2 takes turns too, and parks requests on promotions;
* `PlanEnds`: how a call that returned got to what it returned.
-/

namespace RapidLlm

namespace BatchPlanner

open PrefixCache (SameBlocks Covers Releases Aligned)

variable {s t : BatchPlanner} {r r' : RequestRef} {st st' : PlanState}

/-! ### What turns keep -/

theorem nextChunk_congr (hconfig : t.config = s.config)
    (hobj : dropPlan (t.objects r) = dropPlan (s.objects r)) : t.nextChunk r = s.nextChunk r := by
  simp only [nextChunk, chunkOf, dropPlan_computed hobj, dropPlan_promptLen hobj, hconfig]

/-- Work once granted stays granted. -/
theorem Turn.prefill (h : Turn st st') : ∃ more, st'.prefill = st.prefill ++ more := by
  cases h with
  | resume => exact ⟨_, rfl⟩
  | seat => exact ⟨_, rfl⟩
  | _ => exact ⟨[], (List.append_nil _).symm⟩

theorem Turns.prefill (h : Turns st st') : ∃ more, st'.prefill = st.prefill ++ more := by
  induction h with
  | refl => exact ⟨[], (List.append_nil _).symm⟩
  | tail _ hlast ih =>
    obtain ⟨more, hmore⟩ := ih
    obtain ⟨more', hmore'⟩ := hlast.prefill
    exact ⟨more ++ more', by rw [hmore', hmore, List.append_assoc]⟩

/-! ### Stage 1 -/

/-- Stage 1 of a plan from `s`, past the first `n` positions: what it granted sits left of the
position it goes to next, and nobody else's progress changed. -/
structure Walked (s : BatchPlanner) (n : Nat) (st : PlanState) : Prop where
  turns : Turns { planner := s } st
  decode : st.decode = []
  left : ∀ r ∈ st.granted, r ∈ st.planner.running.take n
  sub : st.planner.running.Sublist s.running
  others : ∀ r ∈ st.planner.running, r ∉ st.granted →
    dropPlan (st.planner.objects r) = dropPlan (s.objects r)

theorem Walked.start (s : BatchPlanner) : Walked s 0 { planner := s } :=
  ⟨.refl, rfl, fun _ hr => (List.not_mem_nil hr).elim, List.Sublist.refl _, fun _ _ _ => rfl⟩

/-- The request at the position stage 1 goes to next has not been granted anything. -/
theorem Walked.free {n : Nat} (h : Walked s n st) (hs : Roster s)
    (hget : st.planner.running[n]? = some r) : r ∉ st.granted := by
  intro hmem
  obtain ⟨j, hj, hjget⟩ := List.mem_take_iff_getElem.mp (h.left r hmem)
  obtain ⟨hlt, hget⟩ := List.getElem?_eq_some_iff.mp hget
  have hjlt : j < st.planner.running.length := by omega
  have heq : st.planner.running[j] = st.planner.running[n] := hjget.trans hget.symm
  have := (h.turns.roster hs).nodup.getElem_inj_iff.mp heq
  omega

theorem mem_take_succ {l : List RequestRef} {n : Nat} (h : l[n]? = some r) :
    r ∈ l.take (n + 1) := by
  obtain ⟨hlt, hget⟩ := List.getElem?_eq_some_iff.mp h
  exact List.mem_take_iff_getElem.mpr ⟨n, by omega, hget⟩

/-- What making room for the request at a position leaves of stage 1's progress. -/
theorem Walked.pressed {n : Nat} (h : Walked s n st) (hs : Roster s)
    (hget : st.planner.running[n]? = some r) {st₁ : PlanState}
    (hpress : Presses (r :: st.granted) (considered st r) st₁) :
    Walked s (n + 1) st₁ ∧ st₁.granted = st.granted ∧ r ∈ st₁.planner.running ∧
      r ∈ st₁.planner.running.take (n + 1) ∧
      dropPlan (st₁.planner.objects r) = dropPlan (st.planner.objects r) ∧
      st₁.planner.config = st.planner.config := by
  have hnodup : (considered st r).planner.running.Nodup := (h.turns.roster hs).nodup
  have hyield := Presses.yielded hnodup hpress
  have hgranted : st₁.granted = st.granted := hyield.granted
  have hobjects : ∀ q, q ∈ r :: st.granted ∨ q ∈ st₁.planner.running →
      dropPlan (st₁.planner.objects q) = dropPlan (st.planner.objects q) := fun q hq =>
    (hyield.objects q hq).trans ((idle_dropPlan st.planner r).kept.objects q)
  have hturns : Turns st st₁ := .head (.idle (idle_dropPlan st.planner r))
    (Presses.turns hnodup hpress fun q hq => List.mem_cons_of_mem _ hq)
  have hself := hyield.position (n + 1) r List.mem_cons_self (mem_take_succ hget)
  refine ⟨⟨h.turns.trans hturns, hyield.decode.trans h.decode, fun q hq => ?_,
    hyield.running.trans h.sub, fun q hq hfree => ?_⟩, hgranted, List.mem_of_mem_take hself, hself,
    hobjects r (.inl List.mem_cons_self), hyield.config⟩
  · rw [hgranted] at hq
    exact hyield.position (n + 1) q (List.mem_cons_of_mem _ hq)
      (List.take_subset_take_left _ (Nat.le_succ n) (h.left q hq))
  · rw [hgranted] at hfree
    exact (hobjects q (.inr hq)).trans (h.others q (hyield.running.subset hq) hfree)

/-- One position of stage 1. -/
theorem Walked.visit {n : Nat} (h : Walked s n st) (hs : Roster s) (hv : Visit n st st') :
    Walked s (n + 1) st' := by
  cases hv with
  | past => exact { h with left := fun r hr =>
    List.take_subset_take_left _ (Nat.le_succ n) (h.left r hr) }
  | @granted r st₁ t hget hopen hpress hmoved hcovers =>
    obtain ⟨hwalked, hgranted, hr, hself, hobj, hconfig⟩ := h.pressed hs hget hpress
    have hfree : r ∉ st₁.granted := by rw [hgranted]; exact h.free hs hget
    rw [← dropPlan_computed hobj, ← nextChunk_congr hconfig hobj] at hmoved hcovers
    rw [← nextChunk_congr hconfig hobj]
    have hopen₁ : ¬ (st₁.planner.objects r).prefillDone := by
      rw [dropPlan_done hobj]
      exact hopen
    refine ⟨hwalked.turns.tail (.resume hr hfree hopen₁ hmoved hcovers),
      hwalked.decode, fun q hq => ?_, ?_, fun q hq hq' => ?_⟩
    · simp only [PlanState.granted, List.map_append, List.map_cons, List.map_nil,
        List.mem_append, List.mem_singleton] at hq
      simp only [hmoved.running]
      rcases hq with (hq | rfl) | hq
      · exact hwalked.left q (List.mem_append_left _ hq)
      · exact hself
      · exact hwalked.left q (List.mem_append_right _ hq)
    · simp only [hmoved.running]
      exact hwalked.sub
    · simp only [PlanState.granted, List.map_append, List.map_cons, List.map_nil,
        List.mem_append, List.mem_singleton, not_or] at hq'
      simp only [hmoved.running] at hq
      refine (hmoved.others q hq'.1.2).trans (hwalked.others q hq ?_)
      simp only [PlanState.granted, List.mem_append, not_or]
      exact ⟨hq'.1.1, hq'.2⟩
  | refused hget hopen hpress => exact (h.pressed hs hget hpress).1

/-- Stage 1 up to a position. -/
theorem walked (hs : Roster s) : ∀ {n : Nat} {st : PlanState},
    (List.range n).foldlM resumeAt { planner := s } = .ok st → Walked s n st
  | 0, st, h => by
      cases h
      exact .start s
  | n + 1, st, h => by
      rw [List.range_succ, List.foldlM_append] at h
      obtain ⟨st₁, hrest, h⟩ := bind_eq_ok.mp h
      rw [List.foldlM_cons] at h
      obtain ⟨st₂, hlast, h⟩ := bind_eq_ok.mp h
      cases h
      have hwalked := walked hs hrest
      exact hwalked.visit hs (resumeAt_eff (hwalked.turns.roster hs).nodup hlast)

/-! ### Stage 2 -/

/-- The policy evicts an eligible request, or nobody. -/
theorem maybePreempt_eff {protect : List RequestRef} {victim : Option RequestRef}
    (h : s.maybePreempt protect = .ok (victim, t)) :
    (victim = none ∧ t = s) ∨ ∃ v, victim = some v ∧ Eligible s protect v ∧ Evicted s v t := by
  unfold maybePreempt at h
  split at h
  · rcases preemptVictim_eff h with ⟨rfl, rfl, -⟩ | hsome
    · exact .inl ⟨rfl, rfl⟩
    · exact .inr hsome
  · cases h
    exact .inl ⟨rfl, rfl⟩

theorem seat_eff {hit : PrefixMatch} {chunk : Nat} (h : s.seat r hit chunk = .ok t) :
    ∃ slot, Moved s (s.waitingBut r) (s.running ++ [r]) r (admitted slot hit.numTokens chunk) t ∧
      SameBlocks s.prefixCache t.prefixCache := by
  unfold seat at h
  split at h
  · cases h
  · rename_i slot freeSlots _
    cases h
    have hidle := idle_mapped ({ s.popWaiting (s.objects r).requestId with
      freeSlots, running := s.running ++ [r] }.modify r (admitted slot hit.numTokens chunk)) r
        (hit.numTokens + chunk)
    refine ⟨slot, Moved.trans_kept ?_ hidle.kept, hidle.same⟩
    exact ⟨rfl, rfl, rfl, rfl, rfl, rfl, by rw [modify_objects_self]; rfl,
      fun q hq => by rw [modify_objects_of_ne _ hq]; rfl⟩

/-- The facts under which `_admit` is past its gates for `r`. -/
structure PastGates (st : PlanState) (r : RequestRef) (hit : PrefixMatch) : Prop where
  waiting : r ∈ st.planner.waiting
  aligned : Aligned hit
  short : hit.numTokens ≤ (st.planner.objects r).promptLen - 1
  nodecode : st.decode = []
  budget : st.prefill = [] ∨ max st.widest (st.planner.chunkOf (st.planner.objects r) 0) *
    (st.prefill.length + 1) ≤ st.planner.config.maxNumBatchedTokens

theorem widest_append (st : PlanState) (t : BatchPlanner) (r : RequestRef) (chunk : Nat) :
    PlanState.widest { st with planner := t, prefill := st.prefill ++ [(r, chunk)] } =
      max st.widest chunk := by
  simp only [PlanState.widest, List.map_append, List.map_cons, List.map_nil, List.foldl_append,
    List.foldl_cons, List.foldl_nil]

/-- Past the gates: the candidate is seated, or refused and somebody may be evicted. -/
theorem admitInto_eff {hit : PrefixMatch} {next : Option Nat} (hgates : PastGates st r hit)
    (h : admitInto st r hit st.widest = .ok (st', next)) :
    Turns st st' ∧ st'.decode = [] ∧ ∀ longest, next = some longest → longest = st'.widest := by
  have hgranted : st.granted = st.prefill.map Prod.fst := by
    rw [PlanState.granted, hgates.nodecode, List.append_nil]
  unfold admitInto at h
  obtain ⟨⟨granted, cache⟩, halloc, h⟩ := bind_eq_ok.mp h
  rcases PrefixCache.allocate_admit_eff hgates.aligned halloc with
    ⟨rfl, hcovers, hroom⟩ | ⟨rfl, hsame⟩
  · obtain ⟨t, hseat, h⟩ := bind_eq_ok.mp h
    cases h
    obtain ⟨slot, hmoved, hsame⟩ := seat_eff hseat
    have hmoved' : Moved st.planner (st.planner.waitingBut r) (st.planner.running ++ [r]) r
        (admitted slot hit.numTokens (st.planner.chunkOf (st.planner.objects r) hit.numTokens)) t :=
      ⟨hmoved.config, hmoved.maxNumSeqs, hmoved.numObjects, hmoved.requests, hmoved.waiting,
        hmoved.running, hmoved.self, hmoved.others⟩
    refine ⟨.single (.seat hgates.waiting hgates.aligned hgates.short rfl hmoved'
      (hcovers.trans_same hsame) hroom hgates.nodecode hgates.budget), hgates.nodecode,
      fun longest hlongest => ?_⟩
    split at hlongest
    · rw [widest_append]
      exact (Option.some.inj hlongest).symm
    · cases hlongest
  · simp only [Bool.false_eq_true, if_false] at h
    obtain ⟨t, hfree, h⟩ := bind_eq_ok.mp h
    obtain ⟨⟨victim, u⟩, hpreempt, h⟩ := bind_eq_ok.mp h
    cases h
    obtain ⟨hkept, hcache⟩ := freeBlocks_eff hfree
    have hrefuse : Turn st { st with planner := t } := by
      refine .refuse hgates.waiting ((idle_cache hsame).kept.trans hkept)
        (hsame.trans_releases (PrefixCache.free_releases hcache)) fun hnil _ => ?_
      have hnil' : cache.blocksUnder (st.planner.idOf r) = [] := (hsame.blocks _).trans hnil
      exact hsame.trans (PrefixCache.free_empty_same hnil' hcache)
    rcases maybePreempt_eff hpreempt with ⟨rfl, rfl⟩ | ⟨v, rfl, helig, hevicted⟩
    · refine ⟨?_, hgates.nodecode, fun longest hlongest => by cases hlongest⟩
      simpa using Relation.ReflTransGen.single hrefuse
    · have hevict : Turn { st with planner := t }
          { st with planner := u, preempted := st.preempted ++ [v] } :=
        Turn.evict helig.running (fun hmem => helig.free (hgranted ▸ hmem)) helig.done hevicted
      exact ⟨(Relation.ReflTransGen.single hrefuse).tail hevict, hgates.nodecode,
        fun longest hlongest => by cases hlongest⟩

/-! ### Stage 3 -/

/-- What stage 3 leaves: nobody joins, and who stays is as it was. -/
structure Later (st st' : PlanState) : Prop where
  prefill : st'.prefill = st.prefill
  running : ∀ r ∈ st'.planner.running, r ∈ st.planner.running
  objects : ∀ r ∈ st'.planner.running,
    dropPlan (st'.planner.objects r) = dropPlan (st.planner.objects r)
  numObjects : st'.planner.numObjects = st.planner.numObjects

theorem Later.refl (st : PlanState) : Later st st := ⟨rfl, fun _ h => h, fun _ _ => rfl, rfl⟩

theorem Later.trans {st'' : PlanState} (h : Later st st') (h' : Later st' st'') : Later st st'' :=
  ⟨h'.prefill.trans h.prefill, fun r hr => h.running r (h'.running r hr), fun r hr =>
    (h'.objects r hr).trans (h.objects r (h'.running r hr)), h'.numObjects.trans h.numObjects⟩

theorem Yielded.later {protect : List RequestRef} (h : Yielded protect st st') : Later st st' :=
  ⟨h.prefill, fun _ hr => h.running.subset hr, fun r hr => h.objects r (.inr hr), h.numObjects⟩

theorem Later.of_idle (h : Idle st.planner t) : Later st { st with planner := t } :=
  ⟨rfl, fun _ hr => h.kept.running ▸ hr, fun r _ => h.kept.objects r, h.kept.numObjects⟩

/-- What stage 3 does for one request: it has stopped running, it takes its step, or it is
evicted. -/
inductive Row (r : RequestRef) (st : PlanState) : PlanState → Prop
  | gone (hstatus : (st.planner.objects r).status ≠ .running) : Row r st st
  | granted {st' : PlanState} (hturns : Turns st st') (hlater : Later st st')
      (hdecode : st'.decode = st.decode ++ [r]) : Row r st st'
  | evicted {st' : PlanState} (hturns : Turns st st') (hlater : Later st st')
      (hdecode : st'.decode = st.decode) (hr : (st'.planner.objects r).status ≠ .running) :
      Row r st st'

theorem decodeReach_congr (hconfig : t.config = s.config)
    (hobj : dropPlan (t.objects r) = dropPlan (s.objects r)) : t.decodeReach r = s.decodeReach r := by
  simp only [decodeReach, dropPlan_seqLen hobj, dropPlan_pending hobj, hconfig]

theorem growRow_eq (hstatus : (st.planner.objects r).status = .running) : growRow st r = (do
    let grant ← (considered st r).planner.reserve r (st.planner.decodeReach r) st.granted
      st.preempted
    if grant.1 then
      let planner := (grant.2.1.mapBlocks r).trackPending r
        (min (st.planner.objects r).seqLen st.planner.config.maxSeqLen)
      return { st with planner, preempted := grant.2.2, decode := st.decode ++ [r] }
    else
      let planner ← grant.2.1.preempt r
      return { st with planner, preempted := grant.2.2 ++ [r] } : Except Raised PlanState) := by
  simp only [growRow, hstatus, ne_eq, not_true_eq_false, if_false, modify_objects_self]
  rfl

theorem growRow_eff (hs : Roster st.planner) (hlt : r < st.planner.numObjects)
    (hfree : r ∉ st.granted)
    (hdone : r ∈ st.planner.running → (st.planner.objects r).prefillDone)
    (h : growRow st r = .ok st') : Row r st st' := by
  by_cases hstatus : (st.planner.objects r).status = .running
  swap
  · rw [growRow, if_pos hstatus] at h
    cases h
    exact .gone hstatus
  rw [growRow_eq hstatus] at h
  have hr : r ∈ st.planner.running := hs.seated r hlt hstatus
  have hdone := hdone hr
  obtain ⟨⟨granted, s₁, victims⟩, hreserve, h⟩ := bind_eq_ok.mp h
  have hreserve : (considered st r).planner.reserve r (st.planner.decodeReach r) st.granted
      (considered st r).preempted = .ok (granted, s₁, victims) := hreserve
  have hnodup : (considered st r).planner.running.Nodup := hs.nodup
  obtain ⟨st₁, hpress, rfl, hend⟩ := reserve_eff hreserve
  have hyield := Presses.yielded hnodup hpress
  have hpre : st₁.prefill = st.prefill := hyield.prefill
  have hdec : st₁.decode = st.decode := hyield.decode
  have hgranted : st₁.granted = st.granted := hyield.granted
  have hr₁ : r ∈ st₁.planner.running := hyield.stays r List.mem_cons_self hr
  have hobj : dropPlan (st₁.planner.objects r) = dropPlan (st.planner.objects r) :=
    (hyield.objects r (.inl List.mem_cons_self)).trans
      ((idle_dropPlan st.planner r).kept.objects r)
  have hdone₁ : (st₁.planner.objects r).prefillDone := (dropPlan_done hobj).trans hdone
  have hturns : Turns st st₁ := .head (.idle (idle_dropPlan st.planner r))
    (Presses.turns hnodup hpress fun q hq => List.mem_cons_of_mem _ hq)
  have hlater : Later st st₁ := (Later.of_idle (idle_dropPlan st.planner r)).trans hyield.later
  have hs₁ : Roster st₁.planner := hturns.roster hs
  have hfree₁ : r ∉ st₁.granted := by rw [hgranted]; exact hfree
  have hconfig : st₁.planner.config = st.planner.config := hyield.config
  have hreach : st.planner.decodeReach r = st₁.planner.decodeReach r :=
    (decodeReach_congr hconfig hobj).symm
  rw [hreach] at hend
  cases hend with
  | granted hkept hcovers =>
    cases h
    have hidle := idle_mapped s₁ r
      (min (st.planner.objects r).seqLen st.planner.config.maxSeqLen)
    have hkept' := hkept.trans hidle.kept
    have hgrow := Turn.grow hr₁ hfree₁ hdone₁ hkept' (hcovers.trans_same hidle.same)
    rw [← hpre, ← hdec]
    refine .granted (hturns.tail hgrow) (hlater.trans ?_) (by rw [hdec])
    exact ⟨rfl, fun _ hq => hkept'.running ▸ hq, fun q _ => hkept'.objects q, hkept'.numObjects⟩
  | refused hshort hnobody =>
    simp only [Bool.false_eq_true, if_false] at h
    obtain ⟨u, hpreempt, h⟩ := bind_eq_ok.mp h
    cases h
    have hevicted := preempt_eff hpreempt
    have hevict := Turn.evict hr₁ hfree₁ hdone₁ hevicted
    rw [← hpre, ← hdec]
    refine .evicted (hturns.tail hevict) (hlater.trans ?_) (by rw [hdec]) ?_
    · refine ⟨rfl, fun q hq => ?_, fun q hq => ?_, hevicted.moved.numObjects⟩
      · simp only [hevicted.moved.running] at hq
        exact List.mem_of_mem_erase hq
      · simp only [hevicted.moved.running] at hq
        exact hevicted.moved.others q ((hs₁.nodup.mem_erase_iff).mp hq).1
    · rw [hevicted.moved.status_self]
      simp [evict]

/-- Whoever was granted work goes on running. -/
def Granted (st : PlanState) : Prop := ∀ r ∈ st.granted, r ∈ st.planner.running

theorem granted_start (s : BatchPlanner) : Granted { planner := s } := fun _ hr =>
  (List.not_mem_nil hr).elim

theorem granted_resume (t : BatchPlanner) (chunk : Nat) (preempted : List RequestRef)
    {q : RequestRef} : q ∈ PlanState.granted
        { planner := t, prefill := st.prefill ++ [(r, chunk)], decode := st.decode, preempted } ↔
      q ∈ st.granted ∨ q = r := by
  simp only [PlanState.granted, List.map_append, List.map_cons, List.map_nil, List.mem_append,
    List.mem_singleton]
  tauto

theorem granted_grow (t : BatchPlanner) {q : RequestRef} :
    q ∈ PlanState.granted { st with planner := t, decode := st.decode ++ [r] } ↔
      q ∈ st.granted ∨ q = r := by
  simp only [PlanState.granted, List.mem_append, List.mem_singleton]
  tauto

theorem Turn.granted_sub (h : Turn st st') : ∀ r ∈ st.granted, r ∈ st'.granted := by
  intro q hq
  cases h with
  | resume => exact (granted_resume _ _ _).mpr (.inl hq)
  | seat => exact (granted_resume _ _ _).mpr (.inl hq)
  | grow => exact (granted_grow _).mpr (.inl hq)
  | _ => exact hq

theorem Turns.granted_sub (h : Turns st st') : ∀ r ∈ st.granted, r ∈ st'.granted := by
  induction h with
  | refl => exact fun _ hr => hr
  | tail _ hlast ih => exact fun r hr => hlast.granted_sub r (ih r hr)

theorem Turn.granted_running (h : Turn st st') (hs : Roster st.planner) (hst : Granted st) :
    Granted st' := by
  intro q hq
  cases h with
  | idle hidle => exact hidle.kept.running ▸ hst q hq
  | evict hr hfree _ hevicted =>
    simp only [hevicted.moved.running]
    exact (hs.nodup.mem_erase_iff).mpr ⟨fun heq => hfree (heq ▸ hq), hst q hq⟩
  | resume hr _ _ hmoved =>
    simp only [hmoved.running]
    rcases (granted_resume _ _ _).mp hq with hq | rfl
    · exact hst q hq
    · exact hr
  | refuse _ hkept => exact hkept.running ▸ hst q hq
  | seat _ _ _ _ hmoved =>
    simp only [hmoved.running]
    rcases (granted_resume _ _ _).mp hq with hq | rfl
    · exact List.mem_append_left _ (hst q hq)
    · exact List.mem_append_right _ (List.mem_singleton_self _)
  | park _ _ hmoved => exact hmoved.running ▸ hst q hq
  | grow hr _ _ hkept =>
    simp only [hkept.running]
    rcases (granted_grow _).mp hq with hq | rfl
    · exact hst q hq
    · exact hr

theorem Turns.granted_running (h : Turns st st') (hs : Roster st.planner) (hst : Granted st) :
    Granted st' := by
  induction h with
  | refl => exact hst
  | tail hrest hlast ih => exact hlast.granted_running (Turns.roster hrest hs) ih

theorem Turn.preempted (h : Turn st st') : ∃ victims, st'.preempted = st.preempted ++ victims := by
  cases h with
  | evict => exact ⟨_, rfl⟩
  | _ => exact ⟨[], (List.append_nil _).symm⟩

/-- Nobody stops running unless somebody is preempted. -/
theorem Turn.stays (h : Turn st st') (hnone : st'.preempted = []) :
    ∀ r ∈ st.planner.running, r ∈ st'.planner.running := by
  intro q hq
  cases h with
  | idle hidle => exact hidle.kept.running ▸ hq
  | evict => exact absurd hnone (by simp)
  | resume _ _ _ hmoved => exact hmoved.running ▸ hq
  | refuse _ hkept => exact hkept.running ▸ hq
  | seat _ _ _ _ hmoved => exact hmoved.running ▸ List.mem_append_left _ hq
  | park _ _ hmoved => exact hmoved.running ▸ hq
  | grow _ _ _ hkept => exact hkept.running ▸ hq

theorem Turns.stays (h : Turns st st') (hnone : st'.preempted = []) :
    ∀ r ∈ st.planner.running, r ∈ st'.planner.running := by
  induction h with
  | refl => exact fun _ hr => hr
  | tail _ hlast ih =>
    obtain ⟨victims, hvictims⟩ := hlast.preempted
    rw [hnone] at hvictims
    exact fun r hr => hlast.stays hnone r (ih (List.append_eq_nil_iff.mp hvictims.symm).1 r hr)

/-- What stage 3 does over the rows `rows`: those that still run at its end are granted their
step. -/
structure Grew (rows : List RequestRef) (st st' : PlanState) : Prop where
  turns : Turns st st'
  later : Later st st'
  decode : st'.decode = st.decode ++ rows.filter fun r => (st'.planner.objects r).status = .running

/-- Whoever has stopped running stays so through stage 3. -/
theorem Later.stopped (h : Later st st') (hs' : Roster st'.planner) (hlt : r < st.planner.numObjects)
    (hnot : r ∉ st.planner.running) : (st'.planner.objects r).status ≠ .running := fun hstatus =>
  hnot (h.running r (hs'.seated r (h.numObjects ▸ hlt) hstatus))

theorem growRows_eff : ∀ {rows : List RequestRef} {st st' : PlanState}, Roster st.planner →
    Granted st → rows.Nodup → (∀ r ∈ rows, r < st.planner.numObjects ∧ r ∉ st.granted ∧
      (r ∈ st.planner.running → (st.planner.objects r).prefillDone)) →
    rows.foldlM growRow st = .ok st' → Grew rows st st'
  | [], st, st', _, _, _, _, h => by
      cases h
      exact ⟨.refl, .refl st, by simp⟩
  | r :: rows, st, st', hs, hst, hnodup, hrows, h => by
      rw [List.nodup_cons] at hnodup
      obtain ⟨hlt, hfree, hdone⟩ := hrows r List.mem_cons_self
      rw [List.foldlM_cons] at h
      obtain ⟨st₁, hrow, h⟩ := bind_eq_ok.mp h
      -- what the row leaves for the rest: the others are not granted, and are as they were
      have hnext : ∀ {st₁ : PlanState}, Turns st st₁ → Later st st₁ →
          (∀ q ∈ st₁.decode, q ∈ st.decode ∨ q = r) → ∀ q ∈ rows, q < st₁.planner.numObjects ∧
            q ∉ st₁.granted ∧ (q ∈ st₁.planner.running → (st₁.planner.objects q).prefillDone) := by
        intro st₁ hturns hlater hdecode q hq
        obtain ⟨hqlt, hqfree, hqdone⟩ := hrows q (List.mem_cons_of_mem _ hq)
        refine ⟨hlater.numObjects ▸ hqlt, fun hmem => ?_, fun hrun => ?_⟩
        · simp only [PlanState.granted, hlater.prefill, List.mem_append] at hmem hqfree
          rcases hmem with hmem | hmem
          · exact hqfree (.inl hmem)
          · rcases hdecode q hmem with hmem | rfl
            · exact hqfree (.inr hmem)
            · exact hnodup.1 hq
        · exact (dropPlan_done (hlater.objects q hrun)).trans (hqdone (hlater.running q hrun))
      cases growRow_eff hs hlt hfree hdone hrow with
      | gone hstatus =>
        have hgrew := growRows_eff hs hst hnodup.2 (hnext .refl (.refl st) fun q hq => .inl hq) h
        have hstop := hgrew.later.stopped (hgrew.turns.roster hs) hlt fun hr =>
          hstatus (hs.running_ok r hr)
        refine { hgrew with decode := ?_ }
        rw [hgrew.decode, List.filter_cons_of_neg (by simpa using hstop)]
      | granted hturns hlater hdecode =>
        have hs₁ := hturns.roster hs
        have hst₁ := hturns.granted_running hs hst
        have hgrew := growRows_eff hs₁ hst₁ hnodup.2 (hnext hturns hlater fun q hq => by
          rw [hdecode, List.mem_append, List.mem_singleton] at hq
          exact hq) h
        have hs' := hgrew.turns.roster hs₁
        have hgranted : r ∈ st₁.granted := by
          simp only [PlanState.granted, hdecode, List.mem_append, List.mem_singleton, or_true]
        have hstay : (st'.planner.objects r).status = .running := hs'.running_ok r
          (hgrew.turns.granted_running hs₁ hst₁ r (hgrew.turns.granted_sub r hgranted))
        refine ⟨hturns.trans hgrew.turns, hlater.trans hgrew.later, ?_⟩
        rw [hgrew.decode, hdecode, List.filter_cons_of_pos (by simpa using hstay),
          List.append_assoc, List.singleton_append]
      | evicted hturns hlater hdecode hr =>
        have hs₁ := hturns.roster hs
        have hgrew := growRows_eff hs₁ (hturns.granted_running hs hst) hnodup.2
          (hnext hturns hlater fun q hq => .inl (hdecode ▸ hq)) h
        have hstop := hgrew.later.stopped (hgrew.turns.roster hs₁) (hlater.numObjects ▸ hlt)
          fun hmem => hr (hs₁.running_ok r hmem)
        refine ⟨hturns.trans hgrew.turns, hlater.trans hgrew.later, ?_⟩
        rw [hgrew.decode, hdecode, List.filter_cons_of_neg (by simpa using hstop)]

end BatchPlanner

namespace OffloadPlanner

open BatchPlanner
open PrefixCache (SameBlocks Covers Releases Aligned)

variable {σ : Type} {s t : BatchPlanner} {r r' : RequestRef} {st st' : PlanState}
  {o o' : Promoting σ}

/-- The tier may have moved, no promotion did. -/
structure SamePromotes (o o' : Promoting σ) : Prop where
  pending : o'.pendingPromotes = o.pendingPromotes
  ready : o'.readyPromotes = o.readyPromotes
  dying : o'.dyingPromotes = o.dyingPromotes

theorem SamePromotes.refl (o : Promoting σ) : SamePromotes o o := ⟨rfl, rfl, rfl⟩

/-- A turn of `plan`, with what it does to the promotions. -/
inductive TieredTurn : Promoting σ × PlanState → Promoting σ × PlanState → Prop
  | turn {o o' : Promoting σ} {st st' : PlanState} (hsame : SamePromotes o o') (h : Turn st st') :
      TieredTurn (o, st) (o', st')
  | park {o o' : Promoting σ} {st : PlanState} {r : RequestRef} {t : BatchPlanner} {n : Nat}
      {gpuBlocks : List BlockId} (hw : r ∈ st.planner.waiting)
      (hn : n < (st.planner.objects r).promptLen)
      (hmoved : Moved st.planner (st.planner.waitingBut r) st.planner.running r id t)
      (hcovers : Covers st.planner.prefixCache (st.planner.idOf r) n t.prefixCache)
      (hpending : o'.pendingPromotes = Function.update o.pendingPromotes (st.planner.idOf r)
        (some ⟨r, gpuBlocks, n⟩))
      (hready : o'.readyPromotes = o.readyPromotes) (hdying : o'.dyingPromotes = o.dyingPromotes) :
      TieredTurn (o, st) (o', { st with planner := t })

abbrev TieredTurns : Promoting σ × PlanState → Promoting σ × PlanState → Prop :=
  Relation.ReflTransGen TieredTurn

theorem TieredTurn.turned {x y : Promoting σ × PlanState} (h : TieredTurn x y) : Turn x.2 y.2 := by
  cases h with
  | turn _ h => exact h
  | park hw hn hmoved hcovers => exact .park hw hn hmoved hcovers

theorem TieredTurns.turned {x y : Promoting σ × PlanState} (h : TieredTurns x y) :
    Turns x.2 y.2 := by
  induction h with
  | refl => exact .refl
  | tail _ hlast ih => exact ih.tail hlast.turned

/-- Turns that the tier does not see. -/
theorem TieredTurns.of_turns (o : Promoting σ) (h : Turns st st') :
    TieredTurns (o, st) (o, st') := by
  induction h with
  | refl => exact .refl
  | tail _ hlast ih => exact ih.tail (.turn (.refl o) hlast)

theorem probe_length [OffloadingManager σ] {hashes : List BlockHash} : ∀ {count index : Nat}
    {tier tier' : σ} {keys : List OffloadKey}, probe hashes count index tier = .ok (keys, tier') →
    keys.length ≤ count
  | 0, index, tier, tier', keys, h => by
      cases h
      exact Nat.le_refl _
  | count + 1, index, tier, tier', keys, h => by
      rw [probe] at h
      split at h
      · cases h
      obtain ⟨⟨result, tier₁⟩, -, h⟩ := bind_eq_ok.mp h
      simp only [ne_eq] at h
      by_cases hhit : result = .hit
      · rw [if_neg (by simpa using hhit)] at h
        obtain ⟨⟨keys', tier₂⟩, hrest, h⟩ := bind_eq_ok.mp h
        cases h
        exact Nat.succ_le_succ (probe_length hrest)
      · rw [if_pos hhit] at h
        cases h
        exact Nat.zero_le _

section

variable [OffloadingManager σ] [BlockDigest]

omit [OffloadingManager σ] in
theorem idle_retrack (s : BatchPlanner) (r : RequestRef) : Idle s (retrack s r) :=
  idle_cache (PrefixCache.track_same _ _ _)

/-- How the offer of a promotion ends: the request is parked on blocks for `n` tokens, or what it
was given for it is taken back. -/
inductive Offered (o : Promoting σ) (s : BatchPlanner) (r : RequestRef) (n : Nat) :
    Bool → Promoting σ → BatchPlanner → Prop
  | parked {o' : Promoting σ} {t : BatchPlanner} {gpuBlocks : List BlockId} (hkept : Kept s t)
      (hcovers : Covers s.prefixCache (s.idOf r) n t.prefixCache)
      (hpending : o'.pendingPromotes = Function.update o.pendingPromotes (s.idOf r)
        (some ⟨r, gpuBlocks, n⟩))
      (hready : o'.readyPromotes = o.readyPromotes) (hdying : o'.dyingPromotes = o.dyingPromotes) :
      Offered o s r n true o' t
  | declined {o' : Promoting σ} {t : BatchPlanner} (hsame : SamePromotes o o') (hidle : Idle s t) :
      Offered o s r n false o' t
  | undone {o' : Promoting σ} {t : BatchPlanner} (hsame : SamePromotes o o') (hkept : Kept s t)
      (hreleased : Releases s.prefixCache (s.idOf r) t.prefixCache)
      (hback : s.prefixCache.blocksUnder (s.idOf r) = [] → s.prefixCache.NullHeld →
        SameBlocks s.prefixCache t.prefixCache) :
      Offered o s r n false o' t

theorem startPromotion_eff {tier : σ} {keys : List OffloadKey} {hit : PrefixMatch} {started : Bool}
    (haligned : Aligned hit) (h : startPromotion o tier s r keys hit = .ok (started, o', t)) :
    Offered o s r ((hit.numTokens / prefixCacheBlockSize + keys.length) * prefixCacheBlockSize)
      started o' t := by
  unfold startPromotion at h
  obtain ⟨⟨granted, cache⟩, halloc, h⟩ := bind_eq_ok.mp h
  rcases PrefixCache.allocate_admit_eff haligned halloc with ⟨rfl, hcovers, -⟩ | ⟨rfl, hsame⟩
  · simp only [Bool.not_true, Bool.false_eq_true, if_false] at h
    obtain ⟨⟨spec, tier'⟩, -, h⟩ := bind_eq_ok.mp h
    split at h
    · -- the pin failed: the blocks go back and the chain is tracked again
      obtain ⟨u, hfree, h⟩ := bind_eq_ok.mp h
      cases h
      obtain ⟨hkept, hcache⟩ := freeBlocks_eff hfree
      have hretrack := idle_retrack u r
      have hreleased := PrefixCache.free_releases hcache
      refine .undone ⟨rfl, rfl, rfl⟩
        (Kept.trans ⟨hkept.config, hkept.maxNumSeqs, hkept.numObjects, hkept.requests, hkept.waiting,
          hkept.running, hkept.objects⟩ hretrack.kept)
        (Releases.trans_same ⟨fun rid' hne => ?_, hreleased.none, fun hn =>
          hreleased.null (hcovers.null hn)⟩ hretrack.same) fun hnil hnull => ?_
      · exact (hreleased.others rid' hne).trans (hcovers.others rid' hne)
      · rcases PrefixCache.allocate_admit_cases haligned hnil halloc with
          ⟨-, pool, fresh, hdrawn⟩ | ⟨hfalse, -⟩
        · exact (hdrawn.undone hnil hnull hcache).trans hretrack.same
        · cases hfalse
    · cases h
      exact .parked ⟨rfl, rfl, rfl, rfl, rfl, rfl, fun _ => rfl⟩ hcovers rfl rfl rfl
  · simp only [Bool.not_false, if_true] at h
    cases h
    exact .declined ⟨rfl, rfl, rfl⟩ (idle_cache hsame)

/-- An offer that is taken promotes less than the whole prompt. -/
theorem tryStartPromotion_eff {hashes : List BlockHash} {hit : PrefixMatch} {started : Bool}
    (haligned : Aligned hit)
    (h : tryStartPromotion o s r hashes hit = .ok (started, o', t)) :
    ∃ n, Offered o s r n started o' t ∧ (started = true → n < (s.objects r).promptLen) := by
  unfold tryStartPromotion at h
  split at h
  · cases h
    exact ⟨0, .declined (.refl o) (.refl s), fun hf => by cases hf⟩
  · obtain ⟨⟨keys, tier'⟩, hprobe, h⟩ := bind_eq_ok.mp h
    simp only at h
    split at h
    · cases h
      exact ⟨0, .declined ⟨rfl, rfl, rfl⟩ (.refl s), fun hf => by cases hf⟩
    · rename_i hkeys
      refine ⟨_, startPromotion_eff haligned h, fun _ => ?_⟩
      have hlen := probe_length hprobe
      have hpos : 0 < keys.length := by
        rw [List.length_pos_iff]
        simpa using hkeys
      have h16 : prefixCacheBlockSize = 16 := rfl
      rw [h16] at hlen ⊢
      omega

omit [BlockDigest] in
theorem touchHit_eff {hashes : List BlockHash} {hit : PrefixMatch}
    (h : touchHit o hashes hit = .ok o') : SamePromotes o o' := by
  unfold touchHit at h
  split at h
  · cases h
    exact .refl o
  split at h
  · cases h
    exact .refl o
  · obtain ⟨tier, -, h⟩ := bind_eq_ok.mp h
    cases h
    exact ⟨rfl, rfl, rfl⟩

omit [OffloadingManager σ] [BlockDigest] in
/-- The gates of a round, for the widest chunk so far. -/
theorem admitGated_eff {hit : PrefixMatch} {next : Option Nat} (hs : Roster st.planner)
    (hw : r ∈ st.planner.waiting) (haligned : Aligned hit)
    (hshort : hit.numTokens ≤ (st.planner.objects r).promptLen - 1) (hnodecode : st.decode = [])
    (h : admitGated st r hit st.widest = .ok (st', next)) :
    Turns st st' ∧ st'.decode = [] ∧ ∀ longest, next = some longest → longest = st'.widest := by
  have hstop : ∀ longest : Nat, none = some longest → longest = st.widest := fun _ hf => by cases hf
  unfold admitGated at h
  simp only at h
  split at h
  · cases h
    exact ⟨.refl, hnodecode, hstop⟩
  split at h
  · cases h
    exact ⟨.refl, hnodecode, hstop⟩
  rename_i hgate
  have hbudget : st.prefill = [] ∨ max st.widest (st.planner.chunkOf (st.planner.objects r) 0) *
      (st.prefill.length + 1) ≤ st.planner.config.maxNumBatchedTokens := by
    by_cases hnil : st.prefill = []
    · exact .inl hnil
    · refine .inr ?_
      simp only [List.isEmpty_eq_false_iff.mpr hnil, Bool.not_false, Bool.true_and,
        decide_eq_true_eq] at hgate
      omega
  split at h
  · obtain ⟨⟨victim, u⟩, hpreempt, h⟩ := bind_eq_ok.mp h
    rcases maybePreempt_eff hpreempt with ⟨rfl, rfl⟩ | ⟨v, rfl, helig, hevicted⟩
    · cases h
      exact ⟨.refl, hnodecode, hstop⟩
    · -- the victim's slot is the one the candidate takes
      have hgranted : st.granted = st.prefill.map Prod.fst := by
        rw [PlanState.granted, hnodecode, List.append_nil]
      have hne : r ≠ v := fun hrv => hs.not_running hw (hrv ▸ helig.running)
      have hobj := hevicted.moved.others r hne
      have hlen := dropPlan_promptLen hobj
      let st₁ : PlanState := { st with planner := u, preempted := st.preempted ++ [v] }
      have hevict : Turn st st₁ :=
        .evict helig.running (fun hmem => helig.free (hgranted ▸ hmem)) helig.done hevicted
      have hgates : PastGates st₁ r hit := by
        refine ⟨hevicted.mem_waiting hs helig.running hw, haligned, hlen ▸ hshort, hnodecode, ?_⟩
        simp only [st₁, hevicted.moved.config]
        have hchunk : u.chunkOf (u.objects r) 0 =
            st.planner.chunkOf (st.planner.objects r) 0 := by
          simp only [chunkOf, hlen, hevicted.moved.config]
        rw [hchunk]
        exact hbudget
      obtain ⟨hturns, hnodecode', hnext⟩ := admitInto_eff hgates h
      exact ⟨.head hevict hturns, hnodecode', hnext⟩
  · exact admitInto_eff ⟨hw, haligned, hshort, hnodecode, hbudget⟩ h

/-- One round of `_admit`. -/
theorem admitCandidate_eff {next : Option Nat} (hs : Roster st.planner)
    (hw : r ∈ st.planner.waiting) (hnodecode : st.decode = [])
    (h : admitCandidate o st r st.widest = .ok (o', st', next)) :
    TieredTurns (o, st) (o', st') ∧ st'.decode = [] ∧
      ∀ longest, next = some longest → longest = st'.widest := by
  unfold admitCandidate at h
  obtain ⟨o₁, htouch, h⟩ := bind_eq_ok.mp h
  obtain ⟨⟨started, o₂, t⟩, hoffer, h⟩ := bind_eq_ok.mp h
  obtain ⟨haligned, hshort⟩ := PrefixCache.lookup_aligned
    (st.planner.prefixCache.track (st.planner.objects r).requestId
      (st.planner.objects r).promptTokenIds).2
    (st.planner.prefixCache.track (st.planner.objects r).requestId
      (st.planner.objects r).promptTokenIds).1 (st.planner.objects r).promptLen
  have htouched := touchHit_eff htouch
  let st₀ : PlanState := { st with planner := retrack st.planner r }
  have htrack : TieredTurn (o, st) (o₁, st₀) := .turn htouched (.idle (idle_retrack st.planner r))
  have hs₀ : Roster st₀.planner := hs.kept (idle_retrack st.planner r).kept
  obtain ⟨n, hoffered, hn⟩ := tryStartPromotion_eff haligned hoffer
  cases hoffered with
  | parked hkept hcovers hpending hready hdying =>
    cases h
    refine ⟨(Relation.ReflTransGen.single htrack).tail (.park (r := r) hw (hn rfl)
      ⟨hkept.config, hkept.maxNumSeqs, hkept.numObjects, hkept.requests, ?_, hkept.running,
        hkept.objects r, fun q _ => hkept.objects q⟩ hcovers hpending hready hdying), hnodecode,
      fun longest hlongest => ?_⟩
    · -- popping the id drops whoever carries it
      have hwaiting := hkept.waiting
      simp only [popWaiting, waitingBut, hwaiting]
      refine List.filter_congr fun q _ => ?_
      have hid := hkept.idOf q
      simp only [BatchPlanner.idOf] at hid ⊢
      rw [hid]
      rfl
    · split at hlongest
      · exact (Option.some.inj hlongest).symm
      · cases hlongest
  | declined hsame hidle =>
    simp only [Bool.false_eq_true, if_false] at h
    obtain ⟨⟨st₂, next'⟩, hgated, h⟩ := bind_eq_ok.mp h
    cases h
    let st₁ : PlanState := { st₀ with planner := t }
    have hturn : TieredTurn (o₁, st₀) (o', st₁) := .turn hsame (.idle hidle)
    have hs₁ : Roster st₁.planner := hs₀.kept hidle.kept
    obtain ⟨hturns, hrest⟩ := admitGated_eff hs₁ (by rw [hidle.kept.waiting]; exact hw) haligned
      (hshort.trans_eq (by rw [← dropPlan_promptLen (hidle.kept.objects r)])) hnodecode hgated
    exact ⟨((Relation.ReflTransGen.single htrack).tail hturn).trans
      (TieredTurns.of_turns o' hturns), hrest⟩
  | undone hsame hkept hreleased hback =>
    simp only [Bool.false_eq_true, if_false] at h
    obtain ⟨⟨st₂, next'⟩, hgated, h⟩ := bind_eq_ok.mp h
    cases h
    let st₁ : PlanState := { st₀ with planner := t }
    have hw₀ : r ∈ st₀.planner.waiting := hw
    have hturn : TieredTurn (o₁, st₀) (o', st₁) :=
      .turn hsame (.refuse hw₀ hkept hreleased hback)
    have hs₁ : Roster st₁.planner := hs₀.kept hkept
    obtain ⟨hturns, hrest⟩ := admitGated_eff hs₁ (by rw [hkept.waiting]; exact hw) haligned
      (hshort.trans_eq (by rw [← dropPlan_promptLen (hkept.objects r)])) hnodecode hgated
    exact ⟨((Relation.ReflTransGen.single htrack).tail hturn).trans
      (TieredTurns.of_turns o' hturns), hrest⟩

/-- The loop of `_admit`. -/
theorem admitLoop_eff : ∀ (bound : Nat) {o o' : Promoting σ} {st st' : PlanState},
    Roster st.planner → st.decode = [] → admitLoop bound o st st.widest = .ok (o', st') →
    TieredTurns (o, st) (o', st') ∧ st'.decode = []
  | 0, o, o', st, st', _, _, h => by cases h
  | bound + 1, o, o', st, st', hs, hnodecode, h => by
      rw [admitLoop] at h
      split at h
      · cases h
        exact ⟨.refl, hnodecode⟩
      · rename_i r rest hwaiting
        have hw : r ∈ st.planner.waiting := by rw [hwaiting]; exact List.mem_cons_self
        obtain ⟨⟨o₁, st₁, next⟩, hround, h⟩ := bind_eq_ok.mp h
        obtain ⟨hturns, hnodecode₁, hnext⟩ := admitCandidate_eff hs hw hnodecode hround
        cases next with
        | none =>
          cases h
          exact ⟨hturns, hnodecode₁⟩
        | some longest =>
          obtain rfl := hnext longest rfl
          obtain ⟨hrest, hdecode⟩ :=
            admitLoop_eff bound (hturns.turned.roster hs) hnodecode₁ h
          exact ⟨hturns.trans hrest, hdecode⟩

/-- Stage 2. -/
theorem admitWaiting_eff (hs : Roster st.planner) (hnodecode : st.decode = [])
    (h : admitWaiting o st = .ok (o', st')) : TieredTurns (o, st) (o', st') ∧ st'.decode = [] := by
  have hcount : ∀ n, Turn st { st with planner := { st.planner with deferredSteps := n } } :=
    fun n => .idle ⟨⟨rfl, rfl, rfl, rfl, rfl, rfl, fun _ => rfl⟩, .refl _⟩
  unfold admitWaiting at h
  split at h
  · cases h
    exact ⟨.single (.turn (.refl o) (hcount _)), hnodecode⟩
  · let st₀ : PlanState := { st with planner := { st.planner with deferredSteps := 0 } }
    have hs₀ : Roster st₀.planner := (hcount 0).roster hs
    obtain ⟨hturns, hdecode⟩ := admitLoop_eff _ hs₀ hnodecode h
    exact ⟨.head (.turn (.refl o) (hcount 0)) hturns, hdecode⟩

/-! ### A whole call -/

/-- How a call of `plan` got from the planner `q` that its stages start from to what it returned. -/
structure PlanEnds (q : OffloadPlanner σ) (st₁ st₂ st : PlanState) (plan : StepPlan)
    (p' : OffloadPlanner σ) : Prop where
  stage1 : resumeUpTo q.toBatchPlanner q.running.length = .ok st₁
  stage2 : TieredTurns (q.toPromoting, st₁) (p'.toPromoting, st₂)
  nodecode : st₂.decode = []
  stage3 : Turns st₂ st
  later : Later st₂ st
  prefill : plan.prefill = st.prefill
  decode : plan.decode = st.decode
  preempted : plan.preempted = st.preempted
  planner : p'.toBatchPlanner = st.planner

namespace PlanEnds

variable {q p' : OffloadPlanner σ} {st₁ st₂ : PlanState} {plan : StepPlan}

omit [OffloadingManager σ] [BlockDigest] in
theorem turns (h : PlanEnds q st₁ st₂ st plan p') (hq : Roster q.toBatchPlanner) :
    TieredTurns (q.toPromoting, { planner := q.toBatchPlanner }) (p'.toPromoting, st) :=
  ((TieredTurns.of_turns _ (walked hq h.stage1).turns).trans h.stage2).trans
    (TieredTurns.of_turns _ h.stage3)

end PlanEnds

/-- What `plan` returned, and the planner it left. -/
theorem plan_eff {p p' : OffloadPlanner σ} {plan : StepPlan} (h : p.plan = .ok (plan, p')) :
    ∃ q, p.beforeStages = .ok q ∧ (Roster q.toBatchPlanner →
      ∃ st₁ st₂ st, PlanEnds q st₁ st₂ st plan p') := by
  unfold OffloadPlanner.plan at h
  obtain ⟨q, hbefore, h⟩ := bind_eq_ok.mp h
  obtain ⟨st₁, hresume, h⟩ := bind_eq_ok.mp h
  obtain ⟨⟨o, st₂⟩, hadmit, h⟩ := bind_eq_ok.mp h
  obtain ⟨st, hgrow, h⟩ := bind_eq_ok.mp h
  cases h
  refine ⟨q, hbefore, fun hq => ⟨st₁, st₂, st, ?_⟩⟩
  have hwalked := walked hq hresume
  have hs₁ := hwalked.turns.roster hq
  obtain ⟨hstage2, hnodecode⟩ := admitWaiting_eff hs₁ hwalked.decode hadmit
  have hs₂ := hstage2.turned.roster hs₁
  have hst₂ : Granted st₂ := hstage2.turned.granted_running hs₁
    (hwalked.turns.granted_running hq (granted_start _))
  have hgrew : Grew (decodeRows st₂) st₂ st := by
    refine growRows_eff hs₂ hst₂ (hs₂.nodup.filter _) (fun r hr => ?_) hgrow
    simp only [decodeRows, List.mem_filter, Bool.and_eq_true, Bool.not_eq_true',
      List.contains_eq_mem, decide_eq_false_iff_not, List.mem_filter, not_and] at hr
    refine ⟨hs₂.known r (.inr hr.1), fun hmem => ?_, fun _ => hr.2.1⟩
    rw [PlanState.granted, hnodecode, List.append_nil] at hmem
    exact hr.2.2 hmem hr.2.1
  refine ⟨hresume, hstage2, hnodecode, hgrew.turns, hgrew.later, rfl, ?_, rfl, rfl⟩
  have hdecode := hgrew.decode
  rw [hnodecode, List.nil_append] at hdecode
  simp only
  split
  · -- nobody was preempted, so every row was granted
    rename_i hnone
    rw [hdecode]
    refine (List.filter_eq_self.mpr fun r hr => ?_).symm
    have hr₂ : r ∈ st₂.planner.running := (List.mem_filter.mp hr).1
    have hr' := hgrew.turns.stays (List.isEmpty_iff.mp hnone) r hr₂
    exact decide_eq_true ((hgrew.turns.roster hs₂).running_ok r hr')
  · exact hdecode.symm

end

end OffloadPlanner

end RapidLlm
