import RapidLlm.Engine.OffloadRun

/-!
# RapidLlm.Engine.ResumeCoverage

**Whom stage 1 passes over.** Stage 1 walks the running list by position while the reservations it
makes evict requests of that list. A victim left of the cursor moves everybody behind it one
position to the left, and whoever stood right behind the cursor is never visited.

* `SparesServed s`: what keeps victims right of the cursor;
* `Attended s r`: stage 1 tried to serve `r`, and was refused with nobody left to evict;
* `plan_covers`: a call that spares whom it has served attends everybody mid-prefill.
-/

namespace RapidLlm

namespace BatchPlanner

variable {s t : BatchPlanner} {r : RequestRef} {st st' : PlanState}
  {protect front back : List RequestRef}

/-! ### Victims from behind -/

/-- A victim found with `front` protected as well is the one found without. -/
theorem preemptVictim_front {v : RequestRef} (hsplit : s.running = front ++ back)
    (hnodup : s.running.Nodup) (h : s.preemptVictim (protect ++ front) = .ok (some v, t)) :
    s.preemptVictim protect = .ok (some v, t) ∧ t.running = front ++ back.erase v := by
  rw [hsplit] at hnodup
  have hapart : ∀ q ∈ back, q ∉ front := fun q hq hq' =>
    List.disjoint_of_nodup_append hnodup hq' hq
  have hfront : front.reverse.find? (fun ref => (s.objects ref).prefillDone &&
      !(protect ++ front).contains ref && !(s.objects ref).outputTokenIds.isEmpty) = none := by
    refine List.find?_eq_none.mpr fun q hq => ?_
    simp [List.mem_reverse.mp hq]
  have hback : back.reverse.find? (fun ref => (s.objects ref).prefillDone &&
      !(protect ++ front).contains ref && !(s.objects ref).outputTokenIds.isEmpty) =
      back.reverse.find? fun ref => (s.objects ref).prefillDone &&
        !protect.contains ref && !(s.objects ref).outputTokenIds.isEmpty := by
    rw [← List.head?_filter, ← List.head?_filter]
    refine congrArg List.head? (List.filter_congr fun q hq => ?_)
    simp [hapart q (List.mem_reverse.mp hq)]
  unfold preemptVictim at h ⊢
  rw [hsplit, List.reverse_append, List.find?_append, hfront, hback, Option.or_none] at h
  rw [hsplit, List.reverse_append, List.find?_append]
  split at h
  · cases h
  · rename_i w hfind
    obtain ⟨u, hpreempt, h⟩ := bind_eq_ok.mp h
    obtain ⟨rfl, rfl⟩ : w = v ∧ u = t := by
      cases h
      exact ⟨rfl, rfl⟩
    have hw : w ∈ back := List.mem_reverse.mp (List.mem_of_find?_eq_some hfind)
    refine ⟨?_, ?_⟩
    · rw [hfind]
      simp only [Option.some_or, hpreempt, ok_bind, pure_eq_ok]
    · rw [(preempt_eff hpreempt).moved.running, hsplit,
        List.erase_append_right _ (hapart w hw)]

theorem reserveLoop_front {n : Nat} : ∀ {bound : Nat} {s t : BatchPlanner} {back : List RequestRef}
    {victims victims' : List RequestRef}, s.running = front ++ back → s.running.Nodup →
    reserveLoop r n (protect ++ front) bound s victims = .ok (true, t, victims') →
    reserveLoop r n protect bound s victims = .ok (true, t, victims') ∧
      ∃ back', t.running = front ++ back'
  | 0, s, t, back, victims, victims', _, _, h => by cases h
  | bound + 1, s, t, back, victims, victims', hsplit, hnodup, h => by
      rw [reserveLoop] at h ⊢
      obtain ⟨⟨victim, s₁⟩, hvictim, h⟩ := bind_eq_ok.mp h
      cases victim with
      | none => cases h
      | some v =>
        obtain ⟨hsame, hrunning⟩ := preemptVictim_front hsplit hnodup hvictim
        rw [hsame, ok_bind]
        obtain ⟨⟨granted, s₂⟩, halloc, h⟩ := bind_eq_ok.mp h
        have hkept : s₂.running = s₁.running := by
          rcases allocate_eff halloc with ⟨-, hkept, -⟩ | ⟨-, hidle, -⟩
          · exact hkept.running
          · exact hidle.kept.running
        simp only [halloc, ok_bind]
        cases granted with
        | true =>
          cases h
          exact ⟨rfl, _, hkept.trans hrunning⟩
        | false =>
          simp only [Bool.false_eq_true, if_false] at h ⊢
          refine reserveLoop_front (hkept.trans hrunning) ?_ h
          rw [hkept, hrunning]
          rw [hsplit] at hnodup
          exact hnodup.sublist (List.Sublist.append_left List.erase_sublist _)

/-- A reservation granted with `front` protected as well is granted without, from the same
victims. -/
theorem reserve_front {n : Nat} {victims victims' : List RequestRef}
    (hsplit : s.running = front ++ back) (hnodup : s.running.Nodup)
    (h : s.reserve r n (protect ++ front) victims = .ok (true, t, victims')) :
    s.reserve r n protect victims = .ok (true, t, victims') ∧
      ∃ back', t.running = front ++ back' := by
  unfold reserve at h ⊢
  obtain ⟨⟨granted, s₁⟩, halloc, h⟩ := bind_eq_ok.mp h
  have hkept : s₁.running = s.running := by
    rcases allocate_eff halloc with ⟨-, hkept, -⟩ | ⟨-, hidle, -⟩
    · exact hkept.running
    · exact hidle.kept.running
  rw [halloc, ok_bind]
  cases granted with
  | true =>
    cases h
    exact ⟨rfl, back, hkept.trans hsplit⟩
  | false =>
    simp only [Bool.false_eq_true, if_false] at h ⊢
    exact reserveLoop_front (hkept.trans hsplit) (hkept ▸ hnodup) h

/-- Where nobody of `front` may be evicted, `front` stays. -/
theorem presses_front (hnodup : st.planner.running.Nodup) (hsplit : st.planner.running = front ++ back)
    (hnobody : ∀ v ∈ front, ¬ Eligible st.planner protect v) (h : Presses protect st st') :
    ∃ back', st'.planner.running = front ++ back' := by
  induction h with
  | refl => exact ⟨back, hsplit⟩
  | @tail st₁ st₂ hrest hlast ih =>
    obtain ⟨back', hrunning⟩ := ih
    cases hlast with
    | idle hidle => exact ⟨back', hidle.kept.running.trans hrunning⟩
    | @evict v t helig hevicted =>
      have hyield := Presses.yielded hnodup hrest
      have hobj := hyield.objects v (.inr helig.running)
      have hv : v ∉ front := fun hmem => hnobody v hmem
        ⟨hyield.running.subset helig.running, helig.free,
          (dropPlan_done hobj).symm.trans helig.done, by
            rw [← dropPlan_outputs hobj]
            exact helig.progress⟩
      refine ⟨back'.erase v, ?_⟩
      simp only [hevicted.moved.running, hrunning, List.erase_append_right _ hv]

/-- Nobody mid-prefill is ever evicted. -/
theorem presses_open (hnodup : st.planner.running.Nodup) (hr : r ∈ st.planner.running)
    (hopen : ¬ (st.planner.objects r).prefillDone) (h : Presses protect st st') :
    r ∈ st'.planner.running := by
  induction h with
  | refl => exact hr
  | @tail st₁ st₂ hrest hlast ih =>
    cases hlast with
    | idle hidle => exact hidle.kept.running ▸ ih
    | @evict v t helig hevicted =>
      have hyield := Presses.yielded hnodup hrest
      have hne : r ≠ v := by
        rintro rfl
        exact hopen ((dropPlan_done (hyield.objects r (.inr ih))).symm.trans helig.done)
      simp only [hevicted.moved.running]
      exact ((hyield.running.nodup hnodup).mem_erase_iff).mpr ⟨hne, ih⟩

/-- A sublist that keeps everything up to and with `x` keeps what it has of the rest behind it. -/
theorem mem_drop_of_sublist {front rest back' : List RequestRef} {x : RequestRef}
    (hnodup : (front ++ x :: rest).Nodup) (hsub : (front ++ back').Sublist (front ++ x :: rest))
    (hx : x ∈ front ++ back') (hr : r ∈ rest) (hr' : r ∈ front ++ back') :
    r ∈ (front ++ back').drop (front.length + 1) := by
  obtain ⟨-, hxrest, hapart⟩ := List.nodup_append.mp hnodup
  have hmem : ∀ {q}, q ∈ x :: rest → q ∈ front ++ back' → q ∈ back' := fun {q} hq hq' =>
    (List.mem_append.mp hq').resolve_left fun hfront => hapart q hfront q hq rfl
  have hxback := hmem List.mem_cons_self hx
  have hrback := hmem (List.mem_cons_of_mem _ hr) hr'
  rw [List.append_sublist_append_left] at hsub
  rw [List.nodup_cons] at hxrest
  cases hsub with
  | cons _ hsub => exact absurd (hsub.subset hxback) hxrest.1
  | cons_cons _ hsub =>
    rcases List.mem_cons.mp hrback with rfl | hrest
    · exact absurd hr hxrest.1
    · simpa using hrest

/-! ### Coverage -/

/-- Stage 1 tried to reserve the next chunk of `r`, and was refused with nobody left to evict. -/
def Attended (s : BatchPlanner) (r : RequestRef) : Prop :=
  ∃ index st t victims, index < s.running.length ∧ OffloadPlanner.resumeUpTo s index = .ok st ∧
    st.planner.running[index]? = some r ∧ ¬ (st.planner.objects r).prefillDone ∧
    attempt st r = .ok (false, t, victims) ∧ ∀ v, ¬ Eligible t (r :: st.granted) v

/-- Whenever stage 1 serves somebody with a request behind whose prefill is in flight too, nobody
it has been past may be evicted, or the chunk can be reserved without evicting any of them. -/
def SparesServed (s : BatchPlanner) : Prop :=
  ∀ index st r, OffloadPlanner.resumeUpTo s index = .ok st → st.planner.running[index]? = some r →
    ¬ (st.planner.objects r).prefillDone →
    (∀ q ∈ st.planner.running.drop (index + 1), (st.planner.objects q).prefillDone) ∨
    (∀ v ∈ st.planner.running.take index, ¬ Eligible st.planner (r :: st.granted) v) ∨
    ∃ t victims, (considered st r).planner.reserve r
      ((st.planner.objects r).numComputedTokens + st.planner.nextChunk r)
      (st.granted ++ st.planner.running.take index) st.preempted = .ok (true, t, victims)

/-- Where the served are spared, an attempt leaves whoever is mid-prefill behind the cursor
there. -/
theorem attempt_spares {n : Nat} {x : RequestRef} {granted : Bool} {victims : List RequestRef}
    (hspares : SparesServed s) (hs : Roster s) (hrun : OffloadPlanner.resumeUpTo s n = .ok st)
    (hget : st.planner.running[n]? = some x) (hopen : ¬ (st.planner.objects x).prefillDone)
    (hattempt : attempt st x = .ok (granted, t, victims)) (hr : r ∈ st.planner.running.drop (n + 1))
    (hr' : ¬ (st.planner.objects r).prefillDone) : r ∈ t.running.drop (n + 1) := by
  have hwalked := walked hs hrun
  have hnodup : (considered st x).planner.running.Nodup := (hwalked.turns.roster hs).nodup
  obtain ⟨hlt, hx⟩ := List.getElem?_eq_some_iff.mp hget
  have hsplit : st.planner.running =
      st.planner.running.take n ++ x :: st.planner.running.drop (n + 1) := by
    rw [← hx, List.getElem_cons_drop hlt, List.take_append_drop]
  have hreserve : (considered st x).planner.reserve x
      ((st.planner.objects x).numComputedTokens + st.planner.nextChunk x) st.granted
      (considered st x).preempted = .ok (granted, t, victims) := hattempt
  obtain ⟨st₁, hpress, -, hend⟩ := reserve_eff hreserve
  have hyield := Presses.yielded hnodup hpress
  have hrunning : t.running = st₁.planner.running := by
    cases hend with
    | granted hkept => exact hkept.running
    | refused => rfl
  obtain ⟨back', hback⟩ : ∃ back', t.running = st.planner.running.take n ++ back' := by
    rcases hspares n st x hrun hget hopen with hdone | hnobody | ⟨t', victims', hfree⟩
    · exact absurd (hdone r hr) hr'
    · have hnobody' : ∀ v ∈ st.planner.running.take n,
          ¬ Eligible (considered st x).planner (x :: st.granted) v := fun v hv helig =>
        hnobody v hv (helig.of_kept (idle_dropPlan st.planner x).kept)
      obtain ⟨back', hback⟩ := presses_front hnodup hsplit hnobody' hpress
      exact ⟨back', hrunning.trans hback⟩
    · have hsplit' : (considered st x).planner.running =
          st.planner.running.take n ++ x :: st.planner.running.drop (n + 1) := hsplit
      obtain ⟨hsame, hback⟩ := reserve_front hsplit' hnodup hfree
      have heq := hsame.symm.trans hreserve
      cases heq
      exact hback
  have hxrun : x ∈ t.running := by
    rw [hrunning]
    exact hyield.stays x List.mem_cons_self (List.mem_of_getElem? hget)
  have hrrun : r ∈ t.running := by
    rw [hrunning]
    refine presses_open hnodup (List.mem_of_mem_drop hr) ?_ hpress
    exact fun hdone => hr' ((idle_dropPlan st.planner x).kept.prefillDone r ▸ hdone)
  have hsub : t.running.Sublist st.planner.running := hrunning ▸ hyield.running
  have hnodup : (st.planner.running.take n ++ x :: st.planner.running.drop (n + 1)).Nodup := by
    rw [← hsplit]
    exact hnodup
  have hsub : (st.planner.running.take n ++ back').Sublist
      (st.planner.running.take n ++ x :: st.planner.running.drop (n + 1)) := by
    rw [← hsplit, ← hback]
    exact hsub
  rw [hback] at hxrun hrrun ⊢
  have hlen : (st.planner.running.take n).length = n := by
    rw [List.length_take]
    omega
  have := mem_drop_of_sublist hnodup hsub hxrun hr hrrun
  rwa [hlen] at this

/-- **Stage 1, up to a position.** Whoever was mid-prefill has been served or attended, or is
still behind the cursor. -/
theorem resume_covers (hspares : SparesServed s) (hs : Roster s) : ∀ {n : Nat} {st : PlanState},
    n ≤ s.running.length → OffloadPlanner.resumeUpTo s n = .ok st → ∀ r ∈ s.running,
    ¬ (s.objects r).prefillDone →
    r ∈ st.granted ∨ Attended s r ∨ r ∈ st.planner.running.drop n
  | 0, st, _, hrun, r, hr, _ => by
      cases hrun
      exact .inr (.inr hr)
  | n + 1, st', hn, hrun, r, hr, hopen => by
      unfold OffloadPlanner.resumeUpTo at hrun
      rw [List.range_succ, List.foldlM_append] at hrun
      obtain ⟨st, hrest, hrun⟩ := bind_eq_ok.mp hrun
      rw [List.foldlM_cons] at hrun
      obtain ⟨st₁, hlast, hrun⟩ := bind_eq_ok.mp hrun
      cases hrun
      have hwalked := walked hs hrest
      have ih := resume_covers hspares hs (Nat.le_of_succ_le hn) hrest r hr hopen
      -- whoever has not been granted anything is as when stage 1 began
      have hsame : ∀ {q}, q ∈ st.planner.running → q ∉ st.granted →
          (st.planner.objects q).prefillDone = (s.objects q).prefillDone := fun hq hfree =>
        dropPlan_done (hwalked.others _ hq hfree)
      cases hget : st.planner.running[n]? with
      | none =>
        rw [resumeAt, hget] at hlast
        cases hlast
        rw [List.getElem?_eq_none_iff] at hget
        refine ih.imp_right (Or.imp_right fun hmem => ?_)
        rw [List.drop_eq_nil_of_le hget] at hmem
        cases hmem
      | some x =>
        obtain ⟨hlt, hx⟩ := List.getElem?_eq_some_iff.mp hget
        have hdrop : st.planner.running.drop n = x :: st.planner.running.drop (n + 1) := by
          rw [← hx, List.getElem_cons_drop hlt]
        rw [hdrop, List.mem_cons] at ih
        have hxrun := List.mem_of_getElem? hget
        have hxfree := hwalked.free hs hget
        by_cases hdone : (st.planner.objects x).prefillDone
        · rw [resumeAt, hget] at hlast
          simp only [if_pos hdone] at hlast
          cases hlast
          rcases ih with hmem | hmem | rfl | hmem
          · exact .inl hmem
          · exact .inr (.inl hmem)
          · exact absurd (hsame hxrun hxfree ▸ hdone) hopen
          · exact .inr (.inr hmem)
        rw [resumeAt_eq hget hdone] at hlast
        obtain ⟨⟨granted, t, victims⟩, hattempt, hlast⟩ := bind_eq_ok.mp hlast
        have hspared : r ∉ st.granted → r ∈ st.planner.running.drop (n + 1) →
            r ∈ t.running.drop (n + 1) := fun hfree hmem =>
          attempt_spares hspares hs hrest hget hdone hattempt hmem
            (by rw [hsame (List.mem_of_mem_drop hmem) hfree]; exact hopen)
        cases granted with
        | true =>
          cases hlast
          by_cases hfree : r ∈ st.granted
          · exact .inl ((granted_resume _ _ _).mpr (.inl hfree))
          rcases ih with hmem | hmem | rfl | hmem
          · exact absurd hmem hfree
          · exact .inr (.inl hmem)
          · exact .inl ((granted_resume _ _ _).mpr (.inr rfl))
          · exact .inr (.inr (hspared hfree hmem))
        | false =>
          cases hlast
          by_cases hfree : r ∈ st.granted
          · exact .inl hfree
          rcases ih with hmem | hmem | rfl | hmem
          · exact absurd hmem hfree
          · exact .inr (.inl hmem)
          · refine .inr (.inl ⟨n, st, t, victims, hn, hrest, hget, hdone, hattempt, ?_⟩)
            obtain ⟨st₂, -, -, hend⟩ := reserve_eff hattempt
            cases hend with
            | refused _ hnobody => exact hnobody
          · exact .inr (.inr (hspared hfree hmem))

/-- One running request has nobody behind it. -/
theorem sparesServed_of_length (hs : Roster s) (hone : s.running.length ≤ 1) : SparesServed s := by
  intro index st r hrun hget _
  refine .inl fun q hq => ?_
  have hlen := (walked hs hrun).sub.length_le
  rw [List.drop_eq_nil_of_le (by omega)] at hq
  cases hq

end BatchPlanner

namespace OffloadPlanner

open BatchPlanner

variable {σ : Type} {p p₀ p' q : OffloadPlanner σ}

section

variable [OffloadingManager σ] [BlockDigest]

/-- Everybody who is mid-prefill when stage 1 begins has work in the plan, or was refused with
nobody left to evict. -/
theorem plan_covers {plan : StepPlan} (hbefore : p.beforeStages = .ok q)
    (hplan : p.plan = .ok (plan, p')) (hq : Roster q.toBatchPlanner)
    (hspares : SparesServed q.toBatchPlanner) : ∀ r ∈ q.running, ¬ (q.objects r).prefillDone →
    r ∈ plan.prefill.map Prod.fst ∨ Attended q.toBatchPlanner r := by
  intro r hr hopen
  obtain ⟨q', hbefore', hends⟩ := plan_eff hplan
  obtain rfl : q = q' := by
    have := hbefore.symm.trans hbefore'
    cases this
    rfl
  obtain ⟨st₁, st₂, st, hends⟩ := hends hq
  have hwalked := walked hq hends.stage1
  rcases resume_covers hspares hq (Nat.le_refl _) hends.stage1 r hr hopen with hmem | hmem | hmem
  · -- what stage 1 granted is part of what the call returns
    obtain ⟨more, hmore⟩ := Turns.prefill (hends.stage2.turned.trans hends.stage3)
    rw [PlanState.granted, hwalked.decode, List.append_nil] at hmem
    rw [hends.prefill, hmore, List.map_append]
    exact .inl (List.mem_append_left _ hmem)
  · exact .inr hmem
  · rw [List.drop_eq_nil_of_le hwalked.sub.length_le] at hmem
    cases hmem

end

/-- Chunks of 16 tokens over a pool of three blocks, the null block apart. -/
def tightConfig : SchedulerConfig :=
  { smallConfig with
    prefixCacheBlocks := some 4
    two_le_blocks := by simp }

/-- A prompt of three chunks. -/
def threeChunks : List Token := List.replicate 33 7

end OffloadPlanner

end RapidLlm
