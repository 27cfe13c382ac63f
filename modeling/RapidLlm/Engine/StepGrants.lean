import RapidLlm.Engine.OffloadRun
import RapidLlm.Engine.SchedulerWork

/-!
# RapidLlm.Engine.StepGrants

**Where the passes of a step write.** Whoever a call of `plan` grants work holds, at the end of the
call, the blocks of every row that work writes; nobody is granted work twice.

* `Turn.still`: what `plan` does next leaves everyone who was granted work alone;
* `Backed st`: what was granted so far is backed by blocks;
* `run_backed`: the rows of the chunks and decode rows of a step lie in the blocks of their request,
  in every run and with any tier;
* `run_reserveSpeculative`: so do those of a verify pass, which is as long as the pool allows.
-/

namespace RapidLlm

namespace BatchPlanner

variable {s t : BatchPlanner} {r : RequestRef} {st st' : PlanState}

/-- The blocks of `r` cover `n` rows. -/
def HoldsRows (s : BatchPlanner) (r : RequestRef) (n : Nat) : Prop :=
  numBlocksFor n ≤ (s.prefixCache.blocksUnder (s.idOf r)).length

/-- `r` has the record and the blocks it had. -/
structure StillAs (s t : BatchPlanner) (r : RequestRef) : Prop where
  object : dropPlan (t.objects r) = dropPlan (s.objects r)
  blocks : t.prefixCache.blocksUnder (s.idOf r) = s.prefixCache.blocksUnder (s.idOf r)

theorem StillAs.holdsRows (h : StillAs s t r) {n : Nat} : t.HoldsRows r n ↔ s.HoldsRows r n := by
  have hid : t.idOf r = s.idOf r := dropPlan_id h.object
  rw [HoldsRows, HoldsRows, hid, h.blocks]

/-- A turn is somebody else's. -/
theorem Turn.still (h : Turn st st') (hs : Roster st.planner) (hst : Granted st) :
    st'.planner.config = st.planner.config ∧
      ∀ q ∈ st.granted, StillAs st.planner st'.planner q := by
  have hne : ∀ r ∉ st.granted, ∀ q ∈ st.granted, q ≠ r := fun r hfree q hq heq => hfree (heq ▸ hq)
  cases h with
  | idle hidle =>
    exact ⟨hidle.kept.config, fun q _ => ⟨hidle.kept.objects q, hidle.same.blocks _⟩⟩
  | @evict r t hr hfree _ hevicted =>
    refine ⟨hevicted.moved.config, fun q hq => ⟨hevicted.moved.others q (hne r hfree q hq),
      hevicted.released.others _ fun hid => ?_⟩⟩
    exact hne r hfree q hq (hs.running_id_inj (hst q hq) hr hid)
  | @resume r t hr hfree _ hmoved hcovers =>
    refine ⟨hmoved.config, fun q hq => ⟨hmoved.others q (hne r hfree q hq),
      hcovers.others _ fun hid => ?_⟩⟩
    exact hne r hfree q hq (hs.running_id_inj (hst q hq) hr hid)
  | refuse hw hkept hreleased =>
    exact ⟨hkept.config, fun q hq => ⟨hkept.objects q,
      hreleased.others _ fun hid => hs.id_ne hw (hst q hq) hid.symm⟩⟩
  | seat hw _ _ _ hmoved hcovers =>
    exact ⟨hmoved.config, fun q hq =>
      ⟨hmoved.others q fun heq => hs.not_running hw (heq ▸ hst q hq),
        hcovers.others _ fun hid => hs.id_ne hw (hst q hq) hid.symm⟩⟩
  | park hw _ hmoved hcovers =>
    exact ⟨hmoved.config, fun q hq =>
      ⟨hmoved.others q fun heq => hs.not_running hw (heq ▸ hst q hq),
        hcovers.others _ fun hid => hs.id_ne hw (hst q hq) hid.symm⟩⟩
  | @grow r t hr hfree _ hkept hcovers =>
    refine ⟨hkept.config, fun q hq => ⟨hkept.objects q, hcovers.others _ fun hid => ?_⟩⟩
    exact hne r hfree q hq (hs.running_id_inj (hst q hq) hr hid)

/-- What was granted so far: nobody twice, and blocks for every row it writes. -/
structure Backed (st : PlanState) : Prop where
  distinct : st.granted.Nodup
  chunks : ∀ r ∈ st.prefill.map Prod.fst,
    st.planner.HoldsRows r (st.planner.objects r).numComputedTokens
  rows : ∀ r ∈ st.decode, (st.planner.objects r).prefillDone ∧
    st.planner.HoldsRows r (st.planner.decodeReach r)

theorem backed_start (s : BatchPlanner) : Backed { planner := s } :=
  ⟨List.nodup_nil, fun _ h => absurd h List.not_mem_nil, fun _ h => absurd h List.not_mem_nil⟩

/-- A grant moves what was granted before it nowhere. -/
theorem Backed.still (hb : Backed st) (hconfig : t.config = st.planner.config)
    (hstill : ∀ q ∈ st.granted, StillAs st.planner t q) : Backed { st with planner := t } where
  distinct := hb.distinct
  chunks r hr := by
    have hq := hstill r (List.mem_append_left _ hr)
    rw [dropPlan_computed hq.object, hq.holdsRows]
    exact hb.chunks r hr
  rows r hr := by
    have hq := hstill r (List.mem_append_right _ hr)
    rw [dropPlan_done hq.object, decodeReach_congr hconfig hq.object, hq.holdsRows]
    exact hb.rows r hr

/-- One more chunk, of somebody who had none. -/
theorem Backed.chunk (hb : Backed st) (hfree : r ∉ st.granted) {chunk : Nat}
    (hcover : st.planner.HoldsRows r (st.planner.objects r).numComputedTokens) :
    Backed { st with prefill := st.prefill ++ [(r, chunk)] } where
  distinct := by
    have hperm : (r :: st.granted).Perm
        (PlanState.granted { st with prefill := st.prefill ++ [(r, chunk)] }) := by
      simp only [PlanState.granted, List.map_append, List.map_cons, List.map_nil, List.append_assoc]
      exact List.perm_middle.symm
    exact hperm.nodup_iff.mp (List.nodup_cons.mpr ⟨hfree, hb.distinct⟩)
  chunks q hq := by
    rw [List.map_append] at hq
    rcases List.mem_append.mp hq with hq | hq
    · exact hb.chunks q hq
    · obtain rfl := List.mem_singleton.mp hq
      exact hcover
  rows := hb.rows

/-- Whoever moves on to the rows it was covered for holds them. -/
theorem Moved.holdsRows {waiting running : List RequestRef} {change : Request → Request} {n : Nat}
    (h : Moved s waiting running r change t)
    (hcovers : s.prefixCache.Covers (s.idOf r) n t.prefixCache)
    (hid : (change (s.objects r)).requestId = s.idOf r)
    (hn : (change (s.objects r)).numComputedTokens = n) :
    t.HoldsRows r (t.objects r).numComputedTokens := by
  have hid : t.idOf r = s.idOf r := (dropPlan_id h.self).trans hid
  rw [HoldsRows, hid, dropPlan_computed h.self, hn]
  exact hcovers.cover

theorem Turn.backed (h : Turn st st') (hs : Roster st.planner) (hst : Granted st)
    (hb : Backed st) : Backed st' := by
  obtain ⟨hconfig, hstill⟩ := h.still hs hst
  have hold := hb.still hconfig hstill
  cases h with
  | @resume r t hr hfree _ hmoved hcovers =>
    exact hold.chunk hfree (hmoved.holdsRows hcovers rfl rfl)
  | @seat r t hit slot n hw _ _ _ hmoved hcovers =>
    have hfree : r ∉ st.granted := fun hmem => hs.not_running hw (hst r hmem)
    exact hold.chunk hfree (hmoved.holdsRows hcovers rfl rfl)
  | @grow r t hr hfree hdone hkept hcovers =>
    refine ⟨?_, hold.chunks, fun q hq => ?_⟩
    · simp only [PlanState.granted, ← List.append_assoc]
      exact List.nodup_append.mpr ⟨hb.distinct, List.nodup_singleton r, fun q hq q' hq' heq =>
        hfree (List.mem_singleton.mp hq' ▸ heq ▸ hq)⟩
    rcases List.mem_append.mp hq with hq | hq
    · exact hold.rows q hq
    · obtain rfl := List.mem_singleton.mp hq
      refine ⟨(hkept.prefillDone q).trans hdone, ?_⟩
      simp only [HoldsRows, decodeReach_congr hkept.config (hkept.objects q), hkept.idOf]
      exact hcovers.cover
  | _ => exact ⟨hold.distinct, hold.chunks, hold.rows⟩

theorem Turns.backed (h : Turns st st') (hs : Roster st.planner) (hst : Granted st)
    (hb : Backed st) : Backed st' := by
  induction h with
  | refl => exact hb
  | tail hrest hlast ih =>
    exact hlast.backed (Turns.roster hrest hs) (Turns.granted_running hrest hs hst) ih

/-! ### Passes -/

theorem chunkEntry_request {chunk : RequestRef × Nat} {entry : PassEntry}
    (h : s.chunkEntry chunk = .ok entry) :
    entry.request = chunk.1 ∧ entry.seqLen = (s.objects chunk.1).numComputedTokens := by
  unfold chunkEntry at h
  obtain ⟨slot, -, h⟩ := bind_eq_ok.mp h
  cases h
  exact ⟨rfl, rfl⟩

theorem decodeEntry_request {fromDevice : Bool} {entry : PassEntry}
    (h : s.decodeEntry fromDevice r = .ok entry) : entry.request = r ∧ entry.seqLen =
      ((s.objects r).seqLen + if fromDevice then (s.objects r).pendingTokens else 0 : Int).toNat := by
  unfold decodeEntry at h
  obtain ⟨slot, -, h⟩ := bind_eq_ok.mp h
  cases fromDevice with
  | true =>
    cases h
    exact ⟨rfl, rfl⟩
  | false =>
    dsimp only at h
    rw [if_neg Bool.false_ne_true] at h
    cases hlast : (s.objects r).outputTokenIds.getLast? with
    | none =>
      rw [hlast] at h
      cases h
    | some token =>
      rw [hlast] at h
      cases h
      exact ⟨rfl, rfl⟩

/-- The row a decode step writes is within reach, up to the end of the context. -/
theorem decodeEntry_reach {fromDevice : Bool} {entry : PassEntry}
    (h : s.decodeEntry fromDevice r = .ok entry)
    (hpending : fromDevice = false → 0 ≤ (s.objects r).pendingTokens) :
    min entry.seqLen s.config.maxSeqLen ≤ s.decodeReach r := by
  rw [(decodeEntry_request h).2, decodeReach]
  cases fromDevice with
  | false =>
    have hpending := hpending rfl
    simp only [Bool.false_eq_true, if_false]
    omega
  | true =>
    simp only [if_true]
    omega

theorem verifyEntry_seqLen {drafts : RequestRef × List Token} {entry : PassEntry}
    (h : s.verifyEntry drafts = .ok entry) :
    entry.seqLen = (s.objects drafts.1).seqLen + drafts.2.length := by
  unfold verifyEntry at h
  obtain ⟨slot, -, h⟩ := bind_eq_ok.mp h
  cases hlast : (s.objects drafts.1).outputTokenIds.getLast? with
  | none =>
    rw [hlast] at h
    cases h
  | some anchor =>
    rw [hlast] at h
    cases h
    rfl

section Verify

variable [BlockDigest] {s' : BatchPlanner}

end Verify

end BatchPlanner

namespace OffloadPlanner

open BatchPlanner

variable {σ : Type} [OffloadingManager σ] [BlockDigest] {p₀ p p' : OffloadPlanner σ}

theorem plan_backed {plan : StepPlan} (hp : Placed p) (h : p.plan = .ok (plan, p')) :
    Backed { planner := p'.toBatchPlanner, prefill := plan.prefill, decode := plan.decode } := by
  obtain ⟨q, hbefore, hends⟩ := plan_eff h
  have hq := (hp.changes (beforeStages_changes hp hbefore)).roster
  obtain ⟨st₁, st₂, st, hends⟩ := hends hq
  have hb := (hends.turns hq).turned.backed hq (granted_start _) (backed_start _)
  rw [hends.prefill, hends.decode, hends.planner]
  exact ⟨hb.distinct, hb.chunks, hb.rows⟩

/-- **A step writes into blocks its requests hold.** In every run, with any tier, a call of `plan`
grants nobody work twice, and the rows of the passes built from it lie in the blocks that the
request holds at the end of the call: all rows of a chunk, and a decode row as far as the context
goes, whether its length is read from the host or counts what the pipeline launched. -/
theorem run_backed {config : SchedulerConfig} {numSlots : Nat} {numBlocks : Option Nat}
    {offloading : Option σ} {ops : List (TieredOp σ)} {plan : StepPlan}
    (hcreate : create config numSlots numBlocks offloading = .ok p₀) (hrun : Run Step p₀ ops p)
    (hplan : p.plan = .ok (plan, p')) :
    (plan.prefill.map Prod.fst ++ plan.decode).Nodup ∧
      (∀ chunk ∈ plan.prefill, ∀ entry, p'.chunkEntry chunk = .ok entry →
        ∀ row < entry.seqLen, row / prefixCacheBlockSize <
          (p'.prefixCache.blocksUnder (p'.idOf entry.request)).length) ∧
      ∀ r ∈ plan.decode, ∀ fromDevice entry, p'.decodeEntry fromDevice r = .ok entry →
        (fromDevice = false → 0 ≤ (p'.objects r).pendingTokens) →
        ∀ row < min entry.seqLen p'.config.maxSeqLen, row / prefixCacheBlockSize <
          (p'.prefixCache.blocksUnder (p'.idOf entry.request)).length := by
  have hb := plan_backed (run_placed hrun (create_placed hcreate)) hplan
  have hinside : ∀ {r n row}, p'.HoldsRows r n → row < n →
      row / prefixCacheBlockSize < (p'.prefixCache.blocksUnder (p'.idOf r)).length := by
    intro r n row hheld hrow
    refine lt_of_lt_of_le ?_ hheld
    unfold numBlocksFor cdiv prefixCacheBlockSize
    omega
  refine ⟨hb.distinct, fun chunk hchunk entry hentry row hrow => ?_,
    fun r hr fromDevice entry hentry hpending row hrow => ?_⟩
  · obtain ⟨hrequest, hlen⟩ := chunkEntry_request hentry
    rw [hrequest]
    rw [hlen] at hrow
    exact hinside (hb.chunks _ (List.mem_map_of_mem hchunk)) hrow
  · rw [(decodeEntry_request hentry).1]
    exact hinside (hb.rows r hr).2 (hrow.trans_le (decodeEntry_reach hentry hpending))

omit [BlockDigest] in
/-- A prompt of three is prefilled and takes its first decode step. -/
theorem run_backed_small : ∃ p₀ p p' : OffloadPlanner CopyingTier, ∃ plan,
    create smallConfig 2 none none = .ok p₀ ∧
    Run (@Step _ _ pairingDigest) p₀
      [.add "a" [1, 2, 3] .standard, .plan, .harvest 0 7 false false] p ∧
    @OffloadPlanner.plan _ _ pairingDigest p = .ok (plan, p') ∧ plan.decode = [0] ∧
    ∀ entry, p'.decodeEntry true 0 = .ok entry → ∀ row < min entry.seqLen p'.config.maxSeqLen,
      row / prefixCacheBlockSize < (p'.prefixCache.blocksUnder (p'.idOf entry.request)).length := by
  let _ : BlockDigest := pairingDigest
  have hok : (create smallConfig 2 none (none : Option CopyingTier) >>= fun p =>
      [.add "a" [1, 2, 3] .standard, .plan, .harvest 0 7 false false].foldlM apply p >>= fun p =>
      p.plan >>= fun x => if x.1.decode = [0] then Except.ok x else .error .loopBound).isOk =
      true := by decide +kernel
  obtain ⟨x, hx⟩ := ok_of_isOk hok
  obtain ⟨p₀, hcreate, hx⟩ := bind_eq_ok.mp hx
  obtain ⟨p, hfold, hx⟩ := bind_eq_ok.mp hx
  obtain ⟨⟨plan, p'⟩, hplan, hx⟩ := bind_eq_ok.mp hx
  have hdecode : plan.decode = [0] := by
    by_contra hnone
    rw [if_neg hnone] at hx
    cases hx
  obtain ⟨-, -, hrows⟩ := run_backed hcreate (.of_foldlM hfold) hplan
  exact ⟨p₀, p, p', plan, hcreate, .of_foldlM hfold, hplan, hdecode, fun entry hentry =>
    hrows 0 (by rw [hdecode]; exact List.mem_singleton_self 0) true entry hentry Bool.noConfusion⟩

end OffloadPlanner

end RapidLlm
