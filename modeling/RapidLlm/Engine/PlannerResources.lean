import RapidLlm.Lib.Run
import RapidLlm.Engine.PlanRun

/-!
# RapidLlm.Engine.PlannerResources

**Runs of the planner, and what they conserve.** `PlannerOp` is everything a caller
does to a planner: submit, plan, append a generated token, finish, abort.

* `apply_inv`: every operation keeps the invariant, and `run_step_iff`: in a run only a
  submission can raise, and where it does;
* `Conserved` says in the words of the source what the invariant is for: slots,
  queues, blocks and per-request state are all accounted for;
* `run_conserves`: it holds after every run of a freshly built planner.
-/

namespace RapidLlm

/-- What a caller does to a planner. A token may be appended to any request at any time. -/
inductive PlannerOp
  | add (requestId : RequestId) (promptTokenIds : List Token) (params : SamplingParams)
  | plan
  | append (ref : RequestRef) (token : Token)
  | finish (ref : RequestRef) (reason : FinishReason)
  | abort (requestId : RequestId)

namespace BatchPlanner

variable [BlockDigest] {s s' : BatchPlanner} {r : RequestRef}

/-- The effect of one operation. A request is named by the object its submission created. -/
def apply (s : BatchPlanner) : PlannerOp → Except Raised BatchPlanner
  | .add requestId promptTokenIds params => do
    let (_, s) ← s.addRequest (Request.new requestId promptTokenIds params)
    return s
  | .plan => do
    let (_, s) ← s.plan
    return s
  | .append ref token =>
    if ref < s.numObjects then
      .ok (s.modify ref fun request =>
        { request with outputTokenIds := request.outputTokenIds ++ [token] })
    else .error (.keyError "no such request")
  | .finish ref reason =>
    if ref < s.numObjects then s.finish ref reason else .error (.keyError "no such request")
  | .abort requestId => do
    let (_, s) ← s.abort requestId
    return s

/-- One operation that returned. -/
def Step (s : BatchPlanner) (op : PlannerOp) (s' : BatchPlanner) : Prop := s.apply op = .ok s'

/-- What a freshly built planner looks like. -/
structure Fresh (s : BatchPlanner) (config : SchedulerConfig) (numSlots : Nat)
    (numBlocks : Option Nat) : Prop where
  slots : 1 ≤ numSlots ∧ s.numSlots = numSlots ∧ s.freeSlots = List.range numSlots
  sameConfig : s.config = config
  maxNumSeqs : s.maxNumSeqs =
    if config.enablePreemption then config.maxNumSeqs else min config.maxNumSeqs numSlots
  objects : s.numObjects = 0
  nobody : s.waiting = [] ∧ s.running = [] ∧ s.pendingBlocks = []
  requests : ∀ rid, s.requests rid = none
  untracked : ∀ rid, s.prefixCache.sequences rid = none ∧
    s.prefixCache.coordinator.requests rid = none
  pool : s.pool.Holds 0 ∧ s.pool.numBlocks = poolSize config numSlots numBlocks ∧
    ∀ b, s.pool.hashOf b = none

omit [BlockDigest] in
theorem create_fresh {config : SchedulerConfig} {numSlots : Nat} {numBlocks : Option Nat}
    (h : create config numSlots numBlocks = .ok s) : Fresh s config numSlots numBlocks := by
  unfold create at h
  split at h
  · cases h
  rename_i hslots
  simp only [PrefixCache.create, bind_eq_ok, pure_eq_ok, Except.ok.injEq] at h
  obtain ⟨cache, ⟨pool, hpool, rfl⟩, rfl⟩ := h
  obtain ⟨hholds, hgeo, hhash⟩ := BlockPool.create_holds hpool
  exact ⟨⟨by omega, rfl, rfl⟩, rfl, rfl, rfl, ⟨rfl, rfl, rfl⟩, fun _ => rfl, fun _ => ⟨rfl, rfl⟩,
    hholds, congrArg Prod.fst hgeo, hhash⟩

omit [BlockDigest] in
/-- A freshly built planner is under its invariant. -/
theorem Fresh.inv {config : SchedulerConfig} {numSlots : Nat} {numBlocks : Option Nat}
    (h : Fresh s config numSlots numBlocks) : s.Inv := by
  obtain ⟨hwaiting, hrunning, hpending⟩ := h.nobody
  have hnobody : ∀ r, ¬ s.Live r := by
    rintro r (hr | hr)
    · rw [hwaiting] at hr; cases hr
    · rw [hrunning] at hr; cases hr
  have hnotrun : ∀ r, r ∉ s.running := fun r hr => hnobody r (.inr hr)
  exact
    { nodup := by rw [hwaiting, hrunning]; exact List.nodup_nil
      bound := fun r hr => absurd hr (hnobody r)
      requests_iff := fun rid r => by
        rw [h.requests rid]
        exact ⟨fun hr => (by cases hr), fun hr => hr.1.elim (fun hl => absurd hl (hnobody r)) False.elim⟩
      parked_lt := fun r hr => False.elim hr, apart := fun r hr => absurd hr (hnobody r)
      waiting_ok := fun r hr => absurd (.inl hr) (hnobody r)
      running_ok := fun r hr => absurd hr (hnotrun r)
      retired := fun r hr => by rw [h.objects] at hr; exact absurd hr (Nat.not_lt_zero _)
      slots := by rw [hrunning, h.slots.2.2, h.slots.2.1]; simp
      seats := by rw [hrunning]; exact Nat.zero_le _
      holds := by
        have hrefs : s.references = 0 := by rw [references, hrunning]; rfl
        rw [hrefs]
        exact h.pool.1
      coord_live := fun rid hrid => by rw [(h.untracked rid).2] at hrid; cases hrid
      running_held := fun r hr => absurd hr (hnotrun r)
      waiting_held := fun r hr => absurd (.inl hr) (hnobody r)
      tracked := fun rid hrid => by rw [(h.untracked rid).1] at hrid; cases hrid
      running_tracked := fun r hr => absurd hr (hnotrun r)
      mapped := fun r hr => absurd hr (hnotrun r)
      queued := fun r hr => absurd (.inl hr) (hnobody r)
      pending := fun e he => by rw [hpending] at he; cases he }

omit [BlockDigest] in
/-- Without a tier an id leads to a request in one of the queues. -/
theorem Inv.requests_live (h : s.Inv) {rid : RequestId} :
    s.requests rid = some r ↔ s.Live r ∧ s.idOf r = rid := by
  rw [h.requests_iff]
  exact and_congr_left fun _ => or_iff_left False.elim

/-- Finishing any submitted request returns: a live one is retired, an ended one left alone. -/
theorem finish_cases (h : s.Inv) (hb : r < s.numObjects) (reason : FinishReason) :
    (¬ s.Live r ∧ s.finish r reason = .ok s) ∨
    ∃ u pool', s.Live r ∧ Commits (· = r) s u ∧ s.finish r reason = .ok (u.retired r reason pool') ∧
      pool'.Holds (u.referencesBut r) ∧ SameIndex u.pool pool' := by
  by_cases hlive : s.Live r
  · right
    rcases hlive with hw | hr
    · exact ⟨s, s.pool, .inl hw, .refl, finish_waiting h hw reason,
        by rw [referencesBut_waiting h hw]; exact h.holds, rfl, rfl, fun _ => rfl⟩
    · obtain ⟨u, pool', hu, hrun, hrest⟩ := finish_running h hr reason
      exact ⟨u, pool', .inr hr, hu, hrun, hrest⟩
  · left
    have hstatus := h.retired r hb hlive False.elim
    exact ⟨hlive, by simp [finish, hstatus]⟩

/-- Aborting: an unknown id changes nothing, a live request is retired. -/
theorem abort_cases (h : s.Inv) (rid : RequestId) :
    (s.requests rid = none ∧ s.abort rid = .ok (none, s)) ∨
    ∃ r u pool', s.requests rid = some r ∧ s.Live r ∧ Commits (· = r) s u ∧
      s.abort rid = .ok (some r, u.retired r .abort pool') ∧
      pool'.Holds (u.referencesBut r) ∧ SameIndex u.pool pool' := by
  cases hreq : s.requests rid with
  | none => exact .inl ⟨rfl, by simp [abort, hreq]⟩
  | some r =>
    right
    obtain ⟨hlive, hid⟩ := h.requests_live.mp hreq
    rcases hlive with hw | hr
    · obtain ⟨hstatus, hslot⟩ := h.waiting_ok r hw
      have hnot : r ∉ s.running := fun hr => h.not_both hw hr
      refine ⟨r, s, s.pool, rfl, .inl hw, .refl, ?_,
        by rw [referencesBut_waiting h hw]; exact h.holds, rfl, rfl, fun _ => rfl⟩
      have hpop : (s.popWaiting rid).waiting = s.waiting.erase r :=
        popWaiting_eq h (.inl hw) rfl (fun _ => rfl) hid.symm
      have hpop' : s.popWaiting rid = { s with waiting := s.waiting.erase r } := by
        rw [← hpop, popWaiting]
      have hslot' : (s.objects r).slot = none := hslot
      have hfree : s.prefixCache.free rid = .ok (s.released r s.pool) :=
        hid ▸ free_waiting h hw
      have hend : ∀ request : Request, request.slot = none →
          ({ request with status := .finished, finishReason := some .abort } : Request) =
            endWith .abort request := by
        intro request hnone
        rw [endWith, ← hnone]
      simp only [abort, hreq, hstatus, if_true, hpop', BatchPlanner.modify, freeBlocks, hfree,
        ok_bind, pure_eq_ok]
      rw [retired, hslot, pending_filter h hnot, List.erase_of_not_mem hnot, hend _ hslot', hid]
      rfl
    · obtain ⟨u, pool', hu, hrun, hrest⟩ := finish_running h hr .abort
      refine ⟨r, u, pool', rfl, .inr hr, hu, ?_, hrest⟩
      have hstatus := (h.running_ok r hr).1
      simp [abort, hreq, hstatus, hrun]

/-- What a retirement leaves live. -/
theorem Commits.live {who : RequestRef → Prop} {u : BatchPlanner} (h : Commits who s u) :
    u.Live r ↔ s.Live r := by
  rw [h.recached]; exact Iff.rfl

theorem retire_inv {u : BatchPlanner} (h : s.Inv) (hlive : s.Live r) (hu : Commits (· = r) s u)
    {reason : FinishReason} {pool' : BlockPool} (hholds : pool'.Holds (u.referencesBut r)) :
    (u.retired r reason pool').Inv :=
  (hu.inv h).retire (hu.live.mpr hlive) hholds

/-- **The step lemma.** Every operation keeps the invariant. -/
theorem apply_inv {op : PlannerOp} (h : s.Inv) (hstep : Step s op s') : s'.Inv := by
  unfold Step at hstep
  cases op with
  | add requestId promptTokenIds params =>
    simp only [apply, bind_eq_ok] at hstep
    obtain ⟨⟨ref, t⟩, hadd, ht⟩ := hstep
    cases ht
    obtain ⟨hreq, hstatus, hslot, -, -, -, rfl⟩ := addRequest_ok hadd
    exact h.add hreq False.elim hstatus hslot
  | plan =>
    simp only [apply, bind_eq_ok] at hstep
    obtain ⟨⟨plan, t⟩, hplan, ht⟩ := hstep
    cases ht
    obtain ⟨plan', st, hplanned⟩ := plan_run h
    have heq := hplanned.run.symm.trans hplan
    cases heq
    exact (hplanned.ok h).inv
  | append ref token =>
    simp only [apply] at hstep
    split at hstep
    · cases hstep
      exact h.modify (fun request =>
        { request with outputTokenIds := request.outputTokenIds ++ [token] }) rfl rfl rfl
    · cases hstep
  | finish ref reason =>
    simp only [apply] at hstep
    split at hstep
    · rename_i hb
      rcases finish_cases h hb reason with ⟨-, hrun⟩ | ⟨u, pool', hlive, hu, hrun, hholds, -⟩
      · cases hrun.symm.trans hstep
        exact h
      · cases hrun.symm.trans hstep
        exact retire_inv h hlive hu hholds
    · cases hstep
  | abort requestId =>
    simp only [apply, bind_eq_ok] at hstep
    obtain ⟨⟨res, t⟩, habort, ht⟩ := hstep
    cases ht
    rcases abort_cases h requestId with ⟨-, hrun⟩ | ⟨r, u, pool', -, hlive, hu, hrun, hholds, -⟩
    · cases hrun.symm.trans habort
      exact h
    · cases hrun.symm.trans habort
      exact retire_inv h hlive hu hholds

/-- Under the invariant nothing but a submission can raise. -/
theorem apply_total (h : s.Inv) {op : PlannerOp}
    (hop : match op with
      | .add .. => False
      | .plan | .abort _ => True
      | .append ref _ | .finish ref _ => ref < s.numObjects) : ∃ s', Step s op s' := by
  unfold Step
  cases op with
  | add => exact hop.elim
  | plan =>
    obtain ⟨plan, st, hplanned⟩ := plan_run h
    exact ⟨st.planner, by simp [apply, hplanned.run]⟩
  | append ref token => exact ⟨_, if_pos hop⟩
  | finish ref reason =>
    simp only [apply, if_pos (show ref < s.numObjects from hop)]
    rcases finish_cases h hop reason with ⟨-, hrun⟩ | ⟨u, pool', -, -, hrun, -⟩
    · exact ⟨_, hrun⟩
    · exact ⟨_, hrun⟩
  | abort requestId =>
    rcases abort_cases h requestId with ⟨-, hrun⟩ | ⟨r, u, pool', -, -, -, hrun, -⟩
    · exact ⟨s, by simp [apply, hrun]⟩
    · exact ⟨u.retired r .abort pool', by simp [apply, hrun]⟩

/-- The run lemma. -/
theorem run_inv {ops : List PlannerOp} (hrun : Run Step s ops s') (h : s.Inv) : s'.Inv :=
  hrun.invariant (fun _ _ _ hs hstep => apply_inv hs hstep) h

/-! ### Conservation -/

/-- A request the planner has under an id. -/
def IsLive (s : BatchPlanner) (r : RequestRef) : Prop := ∃ rid, s.requests rid = some r

/-- Slots, queues, blocks and per-request state are all accounted for. -/
structure Conserved (s : BatchPlanner) : Prop where
  /-- The free slots and those of the running requests are the slots there are, once each. -/
  slots : (s.freeSlots ++ s.running.filterMap s.slotOf).Perm (List.range s.numSlots)
  seated : ∀ r ∈ s.running, (s.slotOf r).isSome
  /-- A live request is queued or runs, once, and not both. -/
  placed : ∀ r, s.IsLive r ↔ r ∈ s.waiting ∨ r ∈ s.running
  once : (s.waiting ++ s.running).Nodup
  waiting : ∀ r ∈ s.waiting, (s.objects r).status = .waiting ∧ s.slotOf r = none ∧
    s.blocksOf r = []
  running : ∀ r ∈ s.running, (s.objects r).status = .running
  seats : s.running.length ≤ s.maxNumSeqs
  /-- A reference count is the number of times live requests list the block. -/
  refCnt : ∀ b, b ≠ nullBlockId →
    (s.pool.blocks b).refCnt = ((s.waiting ++ s.running).flatMap s.blocksOf).count b
  /-- The free queue lists the blocks nobody references, once each. -/
  queue : s.pool.freeBlockQueue.Nodup ∧ ∀ b, b ∈ s.pool.freeBlockQueue ↔
    b ≠ nullBlockId ∧ b < s.pool.numBlocks ∧ (s.pool.blocks b).refCnt = 0
  /-- With nobody live every block is free and nothing is remembered of anybody. -/
  idle : (∀ r, ¬ s.IsLive r) →
    (∀ b, b ≠ nullBlockId → b < s.pool.numBlocks → b ∈ s.pool.freeBlockQueue) ∧
      ∀ rid, s.prefixCache.sequences rid = none ∧
        s.prefixCache.coordinator.requests rid = none

omit [BlockDigest] in
theorem blocksOf_eq (s : BatchPlanner) (r : RequestRef) : s.blocksOf r = (s.heldBy r).blocks := rfl

omit [BlockDigest] in
theorem isLive_iff (h : s.Inv) : s.IsLive r ↔ s.Live r := by
  constructor
  · rintro ⟨rid, hreq⟩
    exact (h.requests_live.mp hreq).1
  · intro hlive
    exact ⟨s.idOf r, h.requests_live.mpr ⟨hlive, rfl⟩⟩

omit [BlockDigest] in
/-- The invariant is conservation. -/
theorem Inv.conserved (h : s.Inv) : s.Conserved := by
  have hwaiting : s.waiting.flatMap s.blocksOf = [] := by
    refine List.flatMap_eq_nil_iff.mpr fun r hr => ?_
    rw [blocksOf_eq, h.waiting_held r hr]
  have hcount : ∀ b, s.references.count b =
      ((s.waiting ++ s.running).flatMap s.blocksOf).count b := by
    intro b
    rw [List.flatMap_append, hwaiting, List.nil_append, references, Multiset.count_add,
      Multiset.coe_count]
    rfl
  refine
    { slots := h.slots, seated := fun r hr => (h.running_ok r hr).2
      placed := fun r => isLive_iff h, once := h.nodup
      waiting := fun r hr => ?_
      running := fun r hr => (h.running_ok r hr).1, seats := h.seats
      refCnt := fun b hb => (h.holds.ref b hb).trans (hcount b)
      queue := ⟨h.holds.queue_nodup, fun b => ?_⟩, idle := fun hidle => ?_ }
  · obtain ⟨hstatus, hslot⟩ := h.waiting_ok r hr
    exact ⟨hstatus, hslot, by rw [blocksOf_eq, h.waiting_held r hr]⟩
  · rw [h.holds.queue_iff]
    by_cases hb : b = nullBlockId
    · simp [hb]
    · simp [hb, h.holds.ref b hb]
  · have hnobody : ∀ r, ¬ s.Live r := fun r hr => hidle r ((isLive_iff h).mpr hr)
    have hrunning : s.running = [] := List.eq_nil_iff_forall_not_mem.mpr fun r hr =>
      hnobody r (.inr hr)
    refine ⟨fun b hb hlt => (h.holds.queue_iff b).mpr ⟨hb, hlt, ?_⟩, fun rid => ⟨?_, ?_⟩⟩
    · rw [references, hrunning]
      exact Multiset.count_zero b
    · rw [← Option.not_isSome_iff_eq_none]
      intro hsome
      obtain ⟨r, hr, -⟩ := (h.tracked rid hsome).resolve_left id
      exact hnobody r hr
    · rw [← Option.not_isSome_iff_eq_none]
      intro hsome
      obtain ⟨r, hr, -⟩ := (h.coord_live rid hsome).resolve_left id
      exact hnobody r hr

/-- **Resource conservation.** Whatever its callers do, a planner accounts for every slot,
every queue place, every block and every piece of per-request state. -/
theorem run_conserves {config : SchedulerConfig} {numSlots : Nat} {numBlocks : Option Nat}
    {ops : List PlannerOp} (hcreate : create config numSlots numBlocks = .ok s)
    (hrun : Run Step s ops s') : s'.Conserved :=
  (run_inv hrun (create_fresh hcreate).inv).conserved

/-- Chunks of 16 tokens over a pool of four blocks, the null block apart. -/
def smallConfig : SchedulerConfig :=
  { maxSeqLen := 64, maxNumSeqs := 4, maxNumBatchedTokens := 64, enableChunkedPrefill := true
    maxChunkSize := 16, enablePrefixCache := false, prefixCacheBlocks := some 5
    enablePreemption := false, decodeWindowSteps := 0
    two_le_maxSeqLen := by decide, one_le_maxNumSeqs := by decide
    one_le_maxNumBatchedTokens := by decide, chunk_pos := by decide
    whole_prompt_fits := by decide, two_le_blocks := by simp }

omit [BlockDigest] in
/-- A request that is submitted, prefilled, decoded once and retired. -/
theorem run_conserves_small : ∃ s s', create smallConfig 2 none = .ok s ∧
    Run (@Step pairingDigest) s
      [.add "a" [1, 2, 3] .standard, .plan, .append 0 7, .plan, .finish 0 .eos] s' ∧ s'.Conserved := by
  let _ : BlockDigest := pairingDigest
  have hok : (create smallConfig 2 none >>= fun s =>
      [.add "a" [1, 2, 3] .standard, .plan, .append 0 7, .plan, .finish 0 .eos].foldlM apply s).isOk =
      true := by decide +kernel
  obtain ⟨s', hs'⟩ := ok_of_isOk hok
  obtain ⟨s, hs, hfold⟩ := bind_eq_ok.mp hs'
  exact ⟨s, s', hs, .of_foldlM hfold, run_conserves hs (.of_foldlM hfold)⟩

end BatchPlanner

end RapidLlm
