import RapidLlm.Engine.PlanStages
import RapidLlm.Engine.PlannerResources

/-!
# RapidLlm.Engine.OffloadRun

**Runs of a planner with its tier.** `TieredOp` is what a caller does to a planner, and what the
tier's copier does behind it.

* `Change`: everything an operation does to the planner at once. `plan` is a sequence of turns
  between the events that landed and what it returns, a retirement is one change, and so on; an
  invariant of runs is then an invariant of each `Change`;
* `Placed`: who is where, promotions included. `apply_changes` takes an operation on a placed
  planner apart, and `run_changes` a whole run;
* `Fits`: what each record's counters keep to.
-/

namespace RapidLlm

/-- What a caller does to a planner with a tier. `pend` is the ledger of a pipelined step, and
`copies` whatever the tier's copier did since. -/
inductive TieredOp (σ : Type)
  | add (requestId : RequestId) (promptTokenIds : List Token) (params : SamplingParams)
  | plan
  | harvest (ref : RequestRef) (token : Token) (stop repeats : Bool)
  | finish (ref : RequestRef) (reason : FinishReason)
  | abort (requestId : RequestId)
  | reserveSpeculative (ref : RequestRef) (draftRows : Nat)
  | pend (ref : RequestRef) (pendingTokens : Int)
  | copies (tier : σ)

namespace OffloadPlanner

open BatchPlanner
open PrefixCache (SameBlocks Covers Releases)

variable {σ : Type} {p q p' : OffloadPlanner σ} {r r' : RequestRef}

/-- `request.output_token_ids.append(token)`. -/
def receive (p : OffloadPlanner σ) (ref : RequestRef) (token : Token) : OffloadPlanner σ :=
  { p with toBatchPlanner := p.modify ref fun request =>
      { request with outputTokenIds := request.outputTokenIds ++ [token] } }

theorem receive_self (p : OffloadPlanner σ) (r : RequestRef) (token : Token) :
    (p.receive r token).objects r =
      { p.objects r with outputTokenIds := (p.objects r).outputTokenIds ++ [token] } := by
  rw [receive, modify_objects_self]

theorem receive_of_ne (p : OffloadPlanner σ) (token : Token) (h : r' ≠ r) :
    (p.receive r token).objects r' = p.objects r' := by
  rw [receive, modify_objects_of_ne _ h]

section

variable [OffloadingManager σ] [BlockDigest]

/-- One round of `_harvest`: `stop` says whether the token is a stop token, `repeats` whether the
repetition check fires. -/
def harvestRow (p : OffloadPlanner σ) (ref : RequestRef) (token : Token) (stop repeats : Bool) :
    Except Raised (OffloadPlanner σ) :=
  if (p.objects ref).isFinished then .ok p
  else if stop then p.finish ref .eos
  else
    let p := p.receive ref token
    let request := p.objects ref
    if !request.hasRoom || request.seqLen ≥ p.config.maxSeqLen then p.finish ref .length
    else if repeats then p.finish ref .repeat
    else .ok p

/-- The effect of one operation. A request is named by the object its submission created. -/
def apply (p : OffloadPlanner σ) : TieredOp σ → Except Raised (OffloadPlanner σ)
  | .add requestId promptTokenIds params => do
    let (_, p) ← p.addRequest (Request.new requestId promptTokenIds params)
    return p
  | .plan => do
    let (_, p) ← p.plan
    return p
  | .harvest ref token stop repeats =>
    if ref < p.numObjects then p.harvestRow ref token stop repeats
    else .error (.keyError "no such request")
  | .finish ref reason =>
    if ref < p.numObjects then p.finish ref reason else .error (.keyError "no such request")
  | .abort requestId => do
    let (_, p) ← p.abort requestId
    return p
  | .reserveSpeculative ref draftRows =>
    if ref ∈ p.running then do
      let (_, s) ← p.toBatchPlanner.reserveSpeculative ref draftRows
      return { p with toBatchPlanner := s }
    else .error (.assertionError "not running")
  | .pend ref pendingTokens =>
    .ok { p with toBatchPlanner := p.modify ref fun request => { request with pendingTokens } }
  | .copies tier => .ok { p with offloading := p.offloading.map fun _ => tier }

/-- One operation that returned. -/
def Step (p : OffloadPlanner σ) (op : TieredOp σ) (p' : OffloadPlanner σ) : Prop :=
  p.apply op = .ok p'

end

/-! ### Changes -/

/-- `r` was handed its generated `tokens`, and owes `pendingTokens` more. -/
def noted (tokens : List Token) (pendingTokens : Int) (request : Request) : Request :=
  { request with outputTokenIds := request.outputTokenIds ++ tokens, pendingTokens }

/-- `r` ended, on its last generated `tokens`. -/
def ended (reason : FinishReason) (slot : Option Nat) (tokens : List Token) (request : Request) :
    Request :=
  { request with
    status := .finished, finishReason := some reason, slot
    outputTokenIds := request.outputTokenIds ++ tokens }

/-- `r` took a slot, its promoted prefix being readable. -/
def boarded (slot : Nat) (request : Request) : Request :=
  { request with slot := some slot, status := .running }

/-- What becomes of the promotions and blocks of a request that ends: its blocks are released, or
held back until the copy into them lands. -/
inductive Laid (p : OffloadPlanner σ) (r : RequestRef) (p' : OffloadPlanner σ) : Prop
  | released (hnone : p.pendingPromotes (p.idOf r) = none)
      (hpending : p'.pendingPromotes = p.pendingPromotes)
      (hready : p'.readyPromotes = p.readyPromotes.filter fun q => q ≠ r)
      (hdying : p'.dyingPromotes = p.dyingPromotes)
      (hreleased : Releases p.prefixCache (p.idOf r) p'.prefixCache)
  | dying {promotion : Promotion} (hsome : p.pendingPromotes (p.idOf r) = some promotion)
      (hpending : p'.pendingPromotes = Function.update p.pendingPromotes (p.idOf r) none)
      (hready : p'.readyPromotes = p.readyPromotes)
      (hdying : p'.dyingPromotes = Function.update p.dyingPromotes (p.idOf r) (some promotion))
      (hsame : SameBlocks p.prefixCache p'.prefixCache)

/-- Request `r` ended: it is in no list, its id is free again. -/
structure Retired (p : OffloadPlanner σ) (r : RequestRef) (tokens : List Token)
    (p' : OffloadPlanner σ) : Prop where
  config : p'.config = p.config
  maxNumSeqs : p'.maxNumSeqs = p.maxNumSeqs
  numObjects : p'.numObjects = p.numObjects
  requests : p'.requests = Function.update p.requests (p.idOf r) none
  waiting : p'.waiting = p.waitingBut r
  running : p'.running = p.running.erase r
  self : ∃ reason slot, dropPlan (p'.objects r) = dropPlan (ended reason slot tokens (p.objects r))
  others : ∀ q ≠ r, dropPlan (p'.objects q) = dropPlan (p.objects q)
  laid : Laid p r p'

/-- A fresh request was queued, under an id that was free. -/
structure Joined (s : BatchPlanner) (request : Request) (t : BatchPlanner) : Prop where
  free : s.requests request.requestId = none
  status : request.status = .waiting
  computed : request.numComputedTokens = 0
  outputs : request.outputTokenIds = []
  pending : request.pendingTokens = 0
  prompt : 1 ≤ request.promptLen
  cap : 1 ≤ request.maxNewTokens
  room : (request.promptLen : Int) + request.maxNewTokens ≤ s.config.maxSeqLen
  config : t.config = s.config
  maxNumSeqs : t.maxNumSeqs = s.maxNumSeqs
  numObjects : t.numObjects = s.numObjects + 1
  requests : t.requests = Function.update s.requests request.requestId (some s.numObjects)
  waiting : t.waiting = s.waiting ++ [s.numObjects]
  running : t.running = s.running
  cache : t.prefixCache = s.prefixCache
  new : t.objects s.numObjects = request
  old : ∀ q < s.numObjects, t.objects q = s.objects q

/-- One thing that happens to a planner with a tier. -/
inductive Change (p : OffloadPlanner σ) : OffloadPlanner σ → Prop
  | idle {p' : OffloadPlanner σ} (hidle : Idle p.toBatchPlanner p'.toBatchPlanner)
      (hsame : SamePromotes p.toPromoting p'.toPromoting) : Change p p'
  | turn {st st' : PlanState} {p' : OffloadPlanner σ} (hstart : st.planner = p.toBatchPlanner)
      (h : TieredTurn (p.toPromoting, st) (p'.toPromoting, st'))
      (hend : p'.toBatchPlanner = st'.planner) : Change p p'
  /-- A running request holds more blocks. -/
  | grow {r : RequestRef} {n : Nat} {p' : OffloadPlanner σ} (hr : r ∈ p.running)
      (hkept : Kept p.toBatchPlanner p'.toBatchPlanner)
      (hcovers : Covers p.prefixCache (p.idOf r) n p'.prefixCache)
      (hsame : SamePromotes p.toPromoting p'.toPromoting) : Change p p'
  | join {request : Request} {p' : OffloadPlanner σ} (h : Joined p.toBatchPlanner request p'.toBatchPlanner)
      (hsame : SamePromotes p.toPromoting p'.toPromoting) : Change p p'
  /-- A request that goes on was handed tokens, or owes some. -/
  | note {r : RequestRef} {tokens : List Token} {pendingTokens : Int} {p' : OffloadPlanner σ}
      (hmoved : Moved p.toBatchPlanner p.waiting p.running r (noted tokens pendingTokens)
        p'.toBatchPlanner)
      (hroom : tokens = [] ∨ (noted tokens pendingTokens (p.objects r)).hasRoom)
      (hcache : p'.prefixCache = p.prefixCache)
      (hsame : SamePromotes p.toPromoting p'.toPromoting) : Change p p'
  | retire {r : RequestRef} {tokens : List Token} {p' : OffloadPlanner σ} (hr : r < p.numObjects)
      (hlive : (p.objects r).status ≠ .finished) (hlast : tokens.length ≤ 1)
      (h : Retired p r tokens p') : Change p p'
  /-- A promotion landed: its request is ready, the promoted tokens computed. -/
  | land {promotion : Promotion} {rid : RequestId} {p' : OffloadPlanner σ}
      (hsome : p.pendingPromotes rid = some promotion)
      (hmoved : Moved p.toBatchPlanner p.waiting p.running promotion.request
        (markPromoted promotion.numTokens) p'.toBatchPlanner)
      (hsameBlocks : SameBlocks p.prefixCache p'.prefixCache)
      (hpending : p'.pendingPromotes = Function.update p.pendingPromotes rid none)
      (hready : p'.readyPromotes = p.readyPromotes ++ [promotion.request])
      (hdying : p'.dyingPromotes = p.dyingPromotes) : Change p p'
  /-- The promotion of an ended request landed: the blocks held back for it are released. -/
  | bury {promotion : Promotion} {rid : RequestId} {p' : OffloadPlanner σ}
      (hsome : p.dyingPromotes rid = some promotion)
      (hkept : Kept p.toBatchPlanner p'.toBatchPlanner)
      (hreleased : Releases p.prefixCache rid p'.prefixCache)
      (hpending : p'.pendingPromotes = p.pendingPromotes)
      (hready : p'.readyPromotes = p.readyPromotes)
      (hdying : p'.dyingPromotes = Function.update p.dyingPromotes rid none) : Change p p'
  /-- The oldest ready request takes a slot. -/
  | board {r : RequestRef} {rest : List RequestRef} {slot : Nat} {p' : OffloadPlanner σ}
      (hhead : p.readyPromotes = r :: rest)
      (hmoved : Moved p.toBatchPlanner p.waiting (p.running ++ [r]) r (boarded slot)
        p'.toBatchPlanner)
      (hcache : p'.prefixCache = p.prefixCache)
      (hpending : p'.pendingPromotes = p.pendingPromotes) (hready : p'.readyPromotes = rest)
      (hdying : p'.dyingPromotes = p.dyingPromotes) : Change p p'

abbrev Changes : OffloadPlanner σ → OffloadPlanner σ → Prop := Relation.ReflTransGen Change

/-! ### Who is where -/

/-- `r` waits, but not in the queue: a promotion holds it. -/
structure Away (s : BatchPlanner) (r : RequestRef) : Prop where
  lt : r < s.numObjects
  status : (s.objects r).status = .waiting
  absent : r ∉ s.waiting

/-- Who is where, promotions included: a request is in one place, the promotions of those that
go on are listed under their ids, and so are those of requests that ended meanwhile. -/
structure Placed (p : OffloadPlanner σ) : Prop where
  roster : Roster p.toBatchPlanner
  listed : ∀ rid r, p.requests rid = some r →
    r < p.numObjects ∧ p.idOf r = rid ∧ (p.objects r).status ≠ .finished
  nodup : p.readyPromotes.Nodup
  ready : ∀ r ∈ p.readyPromotes, Away p.toBatchPlanner r
  pending : ∀ rid promotion, p.pendingPromotes rid = some promotion →
    p.idOf promotion.request = rid ∧ Away p.toBatchPlanner promotion.request ∧
      promotion.request ∉ p.readyPromotes
  dying : ∀ rid promotion, p.dyingPromotes rid = some promotion →
    p.idOf promotion.request = rid ∧ promotion.request < p.numObjects ∧
      (p.objects promotion.request).status = .finished

/-- Everybody is where they were. -/
structure SamePlaces (s t : BatchPlanner) : Prop where
  numObjects : t.numObjects = s.numObjects
  requests : t.requests = s.requests
  waiting : t.waiting = s.waiting
  running : t.running = s.running
  ids : ∀ r, t.idOf r = s.idOf r
  status : ∀ r, (t.objects r).status = (s.objects r).status

theorem samePlaces_kept {s t : BatchPlanner} (h : Kept s t) : SamePlaces s t :=
  ⟨h.numObjects, h.requests, h.waiting, h.running, h.idOf, h.status⟩

/-- A change of a record that keeps its id and status. -/
theorem samePlaces_moved {s t : BatchPlanner} {change : Request → Request}
    (h : Moved s s.waiting s.running r change t)
    (hid : ∀ request, (change request).requestId = request.requestId)
    (hstatus : ∀ request, (change request).status = request.status) : SamePlaces s t := by
  refine ⟨h.numObjects, h.requests, h.waiting, h.running, h.idOf hid, fun q => ?_⟩
  by_cases hq : q = r
  · subst hq
    exact h.status_self.trans (hstatus _)
  · exact h.status_of_ne hq

namespace SamePlaces

variable {s t : BatchPlanner} (h : SamePlaces s t)

include h

theorem roster (hs : Roster s) : Roster t where
  nodup := h.running ▸ hs.nodup
  running_ok q hq := (h.status q).trans (hs.running_ok q (h.running ▸ hq))
  waiting_ok q hq := (h.status q).trans (hs.waiting_ok q (h.waiting ▸ hq))
  seated q hq hstatus := by
    rw [h.running]
    exact hs.seated q (h.numObjects ▸ hq) ((h.status q).symm.trans hstatus)
  known q hq := by
    rw [h.numObjects]
    rw [h.waiting, h.running] at hq
    exact hs.known q hq
  ids q hq hlive := by
    rw [h.requests, h.ids]
    rw [h.status] at hlive
    exact hs.ids q (h.numObjects ▸ hq) hlive

theorem away (hr : Away s r) : Away t r :=
  ⟨h.numObjects ▸ hr.lt, (h.status r).trans hr.status, h.waiting ▸ hr.absent⟩

end SamePlaces

/-- What a turn of `plan` says of everybody: nobody ends, nobody changes names, and whoever is in
neither list is as before. -/
structure Frame (s t : BatchPlanner) : Prop where
  numObjects : t.numObjects = s.numObjects
  requests : t.requests = s.requests
  ids : ∀ r, t.idOf r = s.idOf r
  ended : ∀ r, r < s.numObjects → ((t.objects r).status = .finished ↔ (s.objects r).status = .finished)
  away : ∀ r, Away s r → Away t r
  asleep : ∀ r, r ∉ s.waiting → r ∉ s.running → dropPlan (t.objects r) = dropPlan (s.objects r)

theorem frame_kept {s t : BatchPlanner} (h : Kept s t) : Frame s t where
  numObjects := h.numObjects
  requests := h.requests
  ids := h.idOf
  ended r _ := by rw [h.status]
  away r hr := ⟨h.numObjects ▸ hr.lt, (h.status r).trans hr.status, h.waiting ▸ hr.absent⟩
  asleep r _ _ := h.objects r

/-- Moving a listed request that goes on. -/
theorem frame_moved {s t : BatchPlanner} {waiting running : List RequestRef}
    {change : Request → Request} (h : Moved s waiting running r change t)
    (hid : ∀ request, (change request).requestId = request.requestId)
    (hr : r ∈ s.waiting ∨ r ∈ s.running) (hlive : (s.objects r).status ≠ .finished)
    (hlive' : (change (s.objects r)).status ≠ .finished) (haway : ∀ q, Away s q → q ≠ r)
    (hwaiting : ∀ q ∈ waiting, q ≠ r → q ∈ s.waiting) : Frame s t where
  numObjects := h.numObjects
  requests := h.requests
  ids := h.idOf hid
  ended q _ := by
    by_cases hq : q = r
    · subst hq
      rw [h.status_self]
      exact iff_of_false hlive' hlive
    · rw [h.status_of_ne hq]
  away q hq := by
    have hne := haway q hq
    refine ⟨h.numObjects ▸ hq.lt, (h.status_of_ne hne).trans hq.status, fun hmem => ?_⟩
    rw [h.waiting] at hmem
    exact hq.absent (hwaiting q hmem hne)
  asleep q hw hr' := by
    refine h.others q ?_
    rintro rfl
    exact hr.elim hw hr'

theorem frame_turn {st st' : PlanState} (h : Turn st st') (hs : Roster st.planner) :
    Frame st.planner st'.planner := by
  have hwait : ∀ r ∈ st.planner.waiting, ∀ q, Away st.planner q → q ≠ r := fun r hw q hq heq =>
    hq.absent (heq ▸ hw)
  have hrun : ∀ r ∈ st.planner.running, ∀ q, Away st.planner q → q ≠ r := by
    rintro r hr q hq rfl
    exact absurd (hs.running_ok q hr) (by rw [hq.status]; decide)
  have hlive : ∀ r, r ∈ st.planner.waiting ∨ r ∈ st.planner.running →
      (st.planner.objects r).status ≠ .finished := by
    rintro r (hr | hr)
    · rw [hs.waiting_ok r hr]; decide
    · rw [hs.running_ok r hr]; decide
  cases h with
  | idle hidle => exact frame_kept hidle.kept
  | evict hr _ _ hevicted =>
    refine frame_moved hevicted.moved (fun _ => rfl) (.inr hr) (hlive _ (.inr hr))
      (by simp [evict]) (hrun _ hr) fun q hq hne => ?_
    exact List.mem_of_mem_filter ((List.mem_cons.mp hq).resolve_left hne)
  | resume hr _ _ hmoved =>
    exact frame_moved hmoved (fun _ => rfl) (.inr hr) (hlive _ (.inr hr)) (hlive _ (.inr hr))
      (hrun _ hr) fun q hq _ => hq
  | refuse _ hkept => exact frame_kept hkept
  | seat hw _ _ _ hmoved =>
    exact frame_moved hmoved (fun _ => rfl) (.inl hw) (hlive _ (.inl hw)) (by simp [admitted])
      (hwait _ hw) fun q hq _ => List.mem_of_mem_filter hq
  | park hw _ hmoved =>
    exact frame_moved hmoved (fun _ => rfl) (.inl hw) (hlive _ (.inl hw)) (hlive _ (.inl hw))
      (hwait _ hw) fun q hq _ => List.mem_of_mem_filter hq
  | grow _ _ _ hkept => exact frame_kept hkept

/-! ### One change -/

namespace Placed

/-- Who is where looks at places and promotions alone. -/
theorem same (h : Placed p) (hplaces : SamePlaces p.toBatchPlanner p'.toBatchPlanner)
    (hpromotes : SamePromotes p.toPromoting p'.toPromoting) : Placed p' where
  roster := hplaces.roster h.roster
  listed rid q hq := by
    rw [hplaces.requests] at hq
    rw [hplaces.numObjects, hplaces.ids, hplaces.status]
    exact h.listed rid q hq
  nodup := hpromotes.ready ▸ h.nodup
  ready q hq := hplaces.away (h.ready q (hpromotes.ready ▸ hq))
  pending rid promotion hsome := by
    rw [hpromotes.pending] at hsome
    obtain ⟨hid, haway, hnot⟩ := h.pending rid promotion hsome
    exact ⟨(hplaces.ids _).trans hid, hplaces.away haway, hpromotes.ready ▸ hnot⟩
  dying rid promotion hsome := by
    rw [hpromotes.dying] at hsome
    obtain ⟨hid, hlt, hstatus⟩ := h.dying rid promotion hsome
    exact ⟨(hplaces.ids _).trans hid, hplaces.numObjects ▸ hlt, (hplaces.status _).trans hstatus⟩

/-- The request of a promotion that goes on is the one its id leads to. -/
theorem promoted (h : Placed p) {promotion : Promotion} (hr : r < p.numObjects)
    (hlive : (p.objects r).status ≠ .finished)
    (hsome : p.pendingPromotes (p.idOf r) = some promotion) : promotion.request = r := by
  obtain ⟨hid, haway, -⟩ := h.pending _ _ hsome
  exact h.roster.id_inj haway.lt hr (by rw [haway.status]; decide) hlive hid

theorem turn (h : Placed p) {st st' : PlanState} (hstart : st.planner = p.toBatchPlanner)
    (hturn : TieredTurn (p.toPromoting, st) (p'.toPromoting, st'))
    (hend : p'.toBatchPlanner = st'.planner) : Placed p' := by
  have hs : Roster st.planner := hstart ▸ h.roster
  have hframe : Frame p.toBatchPlanner p'.toBatchPlanner := by
    rw [← hstart, hend]
    exact frame_turn hturn.turned hs
  have hs' : Roster p'.toBatchPlanner := hend ▸ hturn.turned.roster hs
  have hlisted : ∀ rid q, p'.requests rid = some q → q < p'.numObjects ∧ p'.idOf q = rid ∧
      (p'.objects q).status ≠ .finished := by
    intro rid q hq
    rw [hframe.requests] at hq
    obtain ⟨hlt, hid, hlive⟩ := h.listed rid q hq
    exact ⟨hframe.numObjects ▸ hlt, (hframe.ids q).trans hid, mt (hframe.ended q hlt).mp hlive⟩
  have hdead : ∀ rid promotion, p.dyingPromotes rid = some promotion →
      p'.idOf promotion.request = rid ∧ promotion.request < p'.numObjects ∧
        (p'.objects promotion.request).status = .finished := by
    intro rid promotion hsome
    obtain ⟨hid, hlt, hstatus⟩ := h.dying rid promotion hsome
    exact ⟨(hframe.ids _).trans hid, hframe.numObjects ▸ hlt, (hframe.ended _ hlt).mpr hstatus⟩
  cases hturn with
  | turn hsame _ =>
    refine ⟨hs', hlisted, hsame.ready ▸ h.nodup, fun q hq =>
      hframe.away q (h.ready q (hsame.ready ▸ hq)), fun rid promotion hsome => ?_,
      fun rid promotion hsome => hdead rid promotion (hsame.dying ▸ hsome)⟩
    rw [hsame.pending] at hsome
    obtain ⟨hid, haway, hnot⟩ := h.pending rid promotion hsome
    exact ⟨(hframe.ids _).trans hid, hframe.away _ haway, hsame.ready ▸ hnot⟩
  | @park _ _ _ r t n gpuBlocks hw hn hmoved hcovers hpending hready hdying =>
    rw [hstart] at hw hmoved hpending
    have hr : r < p.numObjects := h.roster.known r (.inl hw)
    have hstatus : (p.objects r).status = .waiting := h.roster.waiting_ok r hw
    have hparked : Away p'.toBatchPlanner r := by
      rw [hend]
      refine ⟨hmoved.numObjects ▸ hr, (hmoved.status_self).trans hstatus, fun hmem => ?_⟩
      simp only [hmoved.waiting] at hmem
      exact ((mem_waitingBut h.roster hr (by rw [hstatus]; decide)).mp hmem).2 rfl
    refine ⟨hs', hlisted, hready ▸ h.nodup, fun q hq => hframe.away q (h.ready q (hready ▸ hq)),
      fun rid promotion hsome => ?_, fun rid promotion hsome =>
      hdead rid promotion (hdying ▸ hsome)⟩
    rw [hpending] at hsome
    by_cases hrid : rid = p.idOf r
    · subst hrid
      rw [Function.update_self] at hsome
      cases hsome
      exact ⟨hframe.ids r, hparked, fun hmem => (h.ready r (hready ▸ hmem)).absent hw⟩
    · rw [Function.update_of_ne hrid] at hsome
      obtain ⟨hid, haway, hnot⟩ := h.pending rid promotion hsome
      exact ⟨(hframe.ids _).trans hid, hframe.away _ haway, hready ▸ hnot⟩

theorem join (h : Placed p) {request : Request}
    (hjoin : Joined p.toBatchPlanner request p'.toBatchPlanner)
    (hsame : SamePromotes p.toPromoting p'.toPromoting) : Placed p' := by
  have hgrown : ∀ {q}, q < p.numObjects → q < p'.numObjects := fun hq =>
    hjoin.numObjects ▸ Nat.lt_succ_of_lt hq
  have hsplit : ∀ {q}, q < p'.numObjects → q < p.numObjects ∨ q = p.numObjects := fun hq => by
    rw [hjoin.numObjects] at hq
    exact Nat.lt_succ_iff_lt_or_eq.mp hq
  have hid : ∀ {q}, q < p.numObjects → p'.idOf q = p.idOf q := fun hq =>
    congrArg Request.requestId (hjoin.old _ hq)
  have haway : ∀ q, Away p.toBatchPlanner q → Away p'.toBatchPlanner q := fun q hq => by
    refine ⟨hgrown hq.lt, ?_, fun hmem => ?_⟩
    · rw [hjoin.old q hq.lt]
      exact hq.status
    · rw [hjoin.waiting, List.mem_append, List.mem_singleton] at hmem
      exact hmem.elim hq.absent (Nat.ne_of_lt hq.lt)
  refine ⟨⟨hjoin.running ▸ h.roster.nodup, fun q hq => ?_, fun q hq => ?_, fun q hq hrun => ?_,
    fun q hq => ?_, fun q hq hlive => ?_⟩, fun rid q hq => ?_, hsame.ready ▸ h.nodup,
    fun q hq => haway q (h.ready q (hsame.ready ▸ hq)), fun rid promotion hsome => ?_,
    fun rid promotion hsome => ?_⟩
  · rw [hjoin.running] at hq
    rw [hjoin.old q (h.roster.known q (.inr hq))]
    exact h.roster.running_ok q hq
  · rw [hjoin.waiting, List.mem_append, List.mem_singleton] at hq
    rcases hq with hq | rfl
    · rw [hjoin.old q (h.roster.known q (.inl hq))]
      exact h.roster.waiting_ok q hq
    · rw [hjoin.new]
      exact hjoin.status
  · rw [hjoin.running]
    rcases hsplit hq with hlt | rfl
    · rw [hjoin.old q hlt] at hrun
      exact h.roster.seated q hlt hrun
    · rw [hjoin.new, hjoin.status] at hrun
      cases hrun
  · rw [hjoin.waiting, hjoin.running, List.mem_append, List.mem_singleton] at hq
    rcases hq with (hq | rfl) | hq
    · exact hgrown (h.roster.known q (.inl hq))
    · rw [hjoin.numObjects]
      exact Nat.lt_succ_self _
    · exact hgrown (h.roster.known q (.inr hq))
  · rw [hjoin.requests]
    rcases hsplit hq with hlt | rfl
    · rw [hjoin.old q hlt] at hlive
      have hids := h.roster.ids q hlt hlive
      rw [hid hlt, Function.update_of_ne fun heq => ?_]
      · exact hids
      · rw [heq, hjoin.free] at hids
        cases hids
    · have hnew : p'.idOf p.numObjects = request.requestId := congrArg Request.requestId hjoin.new
      rw [hnew, Function.update_self]
  · rw [hjoin.requests] at hq
    by_cases hrid : rid = request.requestId
    · subst hrid
      rw [Function.update_self] at hq
      cases hq
      refine ⟨hjoin.numObjects ▸ Nat.lt_succ_self _, congrArg Request.requestId hjoin.new, ?_⟩
      rw [hjoin.new, hjoin.status]
      decide
    · rw [Function.update_of_ne hrid] at hq
      obtain ⟨hlt, hqid, hlive⟩ := h.listed rid q hq
      exact ⟨hgrown hlt, (hid hlt).trans hqid, by rw [hjoin.old q hlt]; exact hlive⟩
  · rw [hsame.pending] at hsome
    obtain ⟨hpid, hpaway, hnot⟩ := h.pending rid promotion hsome
    exact ⟨(hid hpaway.lt).trans hpid, haway _ hpaway, hsame.ready ▸ hnot⟩
  · rw [hsame.dying] at hsome
    obtain ⟨hpid, hlt, hfinished⟩ := h.dying rid promotion hsome
    exact ⟨(hid hlt).trans hpid, hgrown hlt, by rw [hjoin.old _ hlt]; exact hfinished⟩

theorem retire (h : Placed p) {tokens : List Token} (hr : r < p.numObjects)
    (hlive : (p.objects r).status ≠ .finished) (hret : Retired p r tokens p') : Placed p' := by
  obtain ⟨reason, slot, hself⟩ := hret.self
  have hended : (p'.objects r).status = .finished := dropPlan_status hself
  have hid : ∀ q, p'.idOf q = p.idOf q := fun q => by
    by_cases hq : q = r
    · subst hq
      have hself := dropPlan_id hself
      exact hself
    · exact dropPlan_id (hret.others q hq)
  have hstatus : ∀ q ≠ r, (p'.objects q).status = (p.objects q).status := fun q hq =>
    dropPlan_status (hret.others q hq)
  have hwaiting : ∀ q, q ∈ p'.waiting ↔ q ∈ p.waiting ∧ q ≠ r := fun q => by
    rw [hret.waiting]
    exact mem_waitingBut h.roster hr hlive
  have hrunning : ∀ q, q ∈ p'.running ↔ q ≠ r ∧ q ∈ p.running := fun q => by
    rw [hret.running]
    exact h.roster.nodup.mem_erase_iff
  have haway : ∀ q ≠ r, Away p.toBatchPlanner q → Away p'.toBatchPlanner q := fun q hne hq =>
    ⟨hret.numObjects ▸ hq.lt, (hstatus q hne).trans hq.status, fun hmem =>
      hq.absent ((hwaiting q).mp hmem).1⟩
  have hroster : Roster p'.toBatchPlanner := by
    refine ⟨hret.running ▸ h.roster.nodup.erase r, fun q hq => ?_, fun q hq => ?_,
      fun q hq hrun => ?_, fun q hq => ?_, fun q hq hlive' => ?_⟩
    · obtain ⟨hne, hq⟩ := (hrunning q).mp hq
      exact (hstatus q hne).trans (h.roster.running_ok q hq)
    · obtain ⟨hq, hne⟩ := (hwaiting q).mp hq
      exact (hstatus q hne).trans (h.roster.waiting_ok q hq)
    · have hne : q ≠ r := by
        rintro rfl
        rw [hended] at hrun
        cases hrun
      rw [hstatus q hne] at hrun
      exact (hrunning q).mpr ⟨hne, h.roster.seated q (hret.numObjects ▸ hq) hrun⟩
    · rw [hret.numObjects]
      rcases hq with hq | hq
      · exact h.roster.known q (.inl ((hwaiting q).mp hq).1)
      · exact h.roster.known q (.inr ((hrunning q).mp hq).2)
    · have hne : q ≠ r := by
        rintro rfl
        exact hlive' hended
      rw [hstatus q hne] at hlive'
      have hqlt : q < p.numObjects := hret.numObjects ▸ hq
      rw [hret.requests, hid, Function.update_of_ne fun heq => ?_]
      · exact h.roster.ids q hqlt hlive'
      · exact hne (h.roster.id_inj hqlt hr hlive' hlive heq)
  have hlisted : ∀ rid q, p'.requests rid = some q → q < p'.numObjects ∧ p'.idOf q = rid ∧
      (p'.objects q).status ≠ .finished := by
    intro rid q hq
    rw [hret.requests] at hq
    have hne : rid ≠ p.idOf r := by
      rintro rfl
      rw [Function.update_self] at hq
      cases hq
    rw [Function.update_of_ne hne] at hq
    obtain ⟨hlt, hqid, hqlive⟩ := h.listed rid q hq
    have hqr : q ≠ r := by
      rintro rfl
      exact hne hqid.symm
    exact ⟨hret.numObjects ▸ hlt, (hid q).trans hqid, by rw [hstatus q hqr]; exact hqlive⟩
  have hkeeps : ∀ {q}, q < p.numObjects → (p.objects q).status = .finished →
      q < p'.numObjects ∧ (p'.objects q).status = .finished := fun {q} hlt hfinished => by
    have hne : q ≠ r := by
      rintro rfl
      exact hlive hfinished
    exact ⟨hret.numObjects ▸ hlt, (hstatus q hne).trans hfinished⟩
  cases hret.laid with
  | released hnone hpending hready hdying =>
    refine ⟨hroster, hlisted, hready ▸ h.nodup.filter _, fun q hq => ?_,
      fun rid promotion hsome => ?_, fun rid promotion hsome => ?_⟩
    · rw [hready, List.mem_filter] at hq
      exact haway q (by simpa using hq.2) (h.ready q hq.1)
    · rw [hpending] at hsome
      obtain ⟨hpid, hpaway, hnot⟩ := h.pending rid promotion hsome
      have hne : promotion.request ≠ r := fun heq => by
        rw [heq] at hpid
        rw [hpid, hsome] at hnone
        cases hnone
      refine ⟨(hid _).trans hpid, haway _ hne hpaway, fun hmem => hnot ?_⟩
      rw [hready] at hmem
      exact List.mem_of_mem_filter hmem
    · rw [hdying] at hsome
      obtain ⟨hpid, hlt, hfinished⟩ := h.dying rid promotion hsome
      exact ⟨(hid _).trans hpid, hkeeps hlt hfinished⟩
  | @dying held hsome hpending hready hdying =>
    have hheld : held.request = r := h.promoted hr hlive hsome
    have hready' : ∀ q ∈ p.readyPromotes, q ≠ r := fun q hq heq =>
      (h.pending _ _ hsome).2.2 (hheld ▸ heq ▸ hq)
    refine ⟨hroster, hlisted, hready ▸ h.nodup, fun q hq => ?_, fun rid promotion hsome' => ?_,
      fun rid promotion hsome' => ?_⟩
    · rw [hready] at hq
      exact haway q (hready' q hq) (h.ready q hq)
    · rw [hpending] at hsome'
      have hrid : rid ≠ p.idOf r := by
        rintro rfl
        rw [Function.update_self] at hsome'
        cases hsome'
      rw [Function.update_of_ne hrid] at hsome'
      obtain ⟨hpid, hpaway, hnot⟩ := h.pending rid promotion hsome'
      have hne : promotion.request ≠ r := by
        rintro heq
        rw [heq] at hpid
        exact hrid hpid.symm
      exact ⟨(hid _).trans hpid, haway _ hne hpaway, hready ▸ hnot⟩
    · rw [hdying] at hsome'
      by_cases hrid : rid = p.idOf r
      · subst hrid
        rw [Function.update_self] at hsome'
        cases hsome'
        rw [hheld]
        exact ⟨hid r, hret.numObjects ▸ hr, hended⟩
      · rw [Function.update_of_ne hrid] at hsome'
        obtain ⟨hpid, hlt, hfinished⟩ := h.dying rid promotion hsome'
        exact ⟨(hid _).trans hpid, hkeeps hlt hfinished⟩

theorem land (h : Placed p) {promotion : Promotion} {rid : RequestId}
    (hsome : p.pendingPromotes rid = some promotion)
    (hplaces : SamePlaces p.toBatchPlanner p'.toBatchPlanner)
    (hpending : p'.pendingPromotes = Function.update p.pendingPromotes rid none)
    (hready : p'.readyPromotes = p.readyPromotes ++ [promotion.request])
    (hdying : p'.dyingPromotes = p.dyingPromotes) : Placed p' := by
  obtain ⟨hid, haway, hnot⟩ := h.pending rid promotion hsome
  refine ⟨hplaces.roster h.roster, fun rid q hq => ?_, ?_, fun q hq => ?_,
    fun rid' other hother => ?_, fun rid' other hother => ?_⟩
  · rw [hplaces.requests] at hq
    rw [hplaces.numObjects, hplaces.ids, hplaces.status]
    exact h.listed rid q hq
  · rw [hready]
    exact List.nodup_append.mpr ⟨h.nodup, List.nodup_singleton _, fun a ha b hb hab =>
      hnot (List.mem_singleton.mp hb ▸ hab ▸ ha)⟩
  · rw [hready, List.mem_append, List.mem_singleton] at hq
    rcases hq with hq | rfl
    · exact hplaces.away (h.ready q hq)
    · exact hplaces.away haway
  · rw [hpending] at hother
    have hrid : rid' ≠ rid := by
      rintro rfl
      rw [Function.update_self] at hother
      cases hother
    rw [Function.update_of_ne hrid] at hother
    obtain ⟨hoid, hoaway, honot⟩ := h.pending rid' other hother
    refine ⟨(hplaces.ids _).trans hoid, hplaces.away hoaway, fun hmem => ?_⟩
    rw [hready, List.mem_append, List.mem_singleton] at hmem
    rcases hmem with hmem | heq
    · exact honot hmem
    · rw [heq, hid] at hoid
      exact hrid hoid.symm
  · rw [hdying] at hother
    obtain ⟨hoid, hlt, hstatus⟩ := h.dying rid' other hother
    exact ⟨(hplaces.ids _).trans hoid, hplaces.numObjects ▸ hlt, (hplaces.status _).trans hstatus⟩

theorem bury (h : Placed p) {rid : RequestId}
    (hplaces : SamePlaces p.toBatchPlanner p'.toBatchPlanner)
    (hpending : p'.pendingPromotes = p.pendingPromotes)
    (hready : p'.readyPromotes = p.readyPromotes)
    (hdying : p'.dyingPromotes = Function.update p.dyingPromotes rid none) : Placed p' := by
  have hfewer : ∀ rid' other, p'.dyingPromotes rid' = some other →
      p.dyingPromotes rid' = some other := fun rid' other hother => by
    rw [hdying] at hother
    by_cases hrid : rid' = rid
    · rw [hrid, Function.update_self] at hother
      cases hother
    · rwa [Function.update_of_ne hrid] at hother
  let held : OffloadPlanner σ := { p' with dyingPromotes := p.dyingPromotes }
  have hsame : Placed held := h.same hplaces ⟨hpending, hready, rfl⟩
  exact ⟨hsame.roster, hsame.listed, hsame.nodup, hsame.ready, hsame.pending,
    fun rid' other hother => hsame.dying rid' other (hfewer rid' other hother)⟩

theorem board (h : Placed p) {rest : List RequestRef} {slot : Nat}
    (hhead : p.readyPromotes = r :: rest)
    (hmoved : Moved p.toBatchPlanner p.waiting (p.running ++ [r]) r (boarded slot)
      p'.toBatchPlanner)
    (hpending : p'.pendingPromotes = p.pendingPromotes) (hready : p'.readyPromotes = rest)
    (hdying : p'.dyingPromotes = p.dyingPromotes) : Placed p' := by
  have haway := h.ready r (hhead ▸ List.mem_cons_self)
  have hnodup := h.nodup
  rw [hhead, List.nodup_cons] at hnodup
  have hlive : (p.objects r).status ≠ .finished := by rw [haway.status]; decide
  have hnotrun : r ∉ p.running := fun hr => by
    have := haway.status.symm.trans (h.roster.running_ok r hr)
    cases this
  have hid := hmoved.idOf fun _ => rfl
  have hstays : ∀ q ≠ r, Away p.toBatchPlanner q → Away p'.toBatchPlanner q := fun q hne hq =>
    ⟨hmoved.numObjects ▸ hq.lt, (hmoved.status_of_ne hne).trans hq.status, hmoved.waiting ▸ hq.absent⟩
  refine ⟨?_, fun rid q hq => ?_, hready ▸ hnodup.2, fun q hq => ?_, fun rid promotion hsome => ?_,
    fun rid promotion hsome => ?_⟩
  · refine hmoved.roster h.roster haway.lt (fun _ => rfl) hlive ?_ (fun q hq => .inr ⟨?_, hq⟩)
      (fun q hq => ?_) (fun _ => List.mem_append_right _ (List.mem_singleton_self r))
      fun q hq _ => List.mem_append_left _ hq
    · exact List.nodup_append.mpr ⟨h.roster.nodup, List.nodup_singleton r, fun a ha b hb hab =>
        hnotrun (List.mem_singleton.mp hb ▸ hab ▸ ha)⟩
    · rintro rfl
      exact haway.absent hq
    · rcases List.mem_append.mp hq with hq | hq
      · exact .inr ⟨fun heq => hnotrun (heq ▸ hq), hq⟩
      · exact .inl ⟨List.mem_singleton.mp hq, rfl⟩
  · rw [hmoved.requests] at hq
    obtain ⟨hlt, hqid, hqlive⟩ := h.listed rid q hq
    refine ⟨hmoved.numObjects ▸ hlt, (hid q).trans hqid, ?_⟩
    by_cases hqr : q = r
    · subst hqr
      rw [hmoved.status_self]
      simp [boarded]
    · rw [hmoved.status_of_ne hqr]
      exact hqlive
  · rw [hready] at hq
    exact hstays q (fun heq => hnodup.1 (heq ▸ hq)) (h.ready q (hhead ▸ List.mem_cons_of_mem _ hq))
  · rw [hpending] at hsome
    obtain ⟨hpid, hpaway, hnot⟩ := h.pending rid promotion hsome
    have hne : promotion.request ≠ r := fun heq => hnot (heq ▸ hhead ▸ List.mem_cons_self)
    exact ⟨(hid _).trans hpid, hstays _ hne hpaway, fun hmem =>
      hnot (hhead ▸ List.mem_cons_of_mem _ (hready ▸ hmem))⟩
  · rw [hdying] at hsome
    obtain ⟨hpid, hlt, hfinished⟩ := h.dying rid promotion hsome
    have hne : promotion.request ≠ r := fun heq => hlive (heq ▸ hfinished)
    exact ⟨(hid _).trans hpid, hmoved.numObjects ▸ hlt, (hmoved.status_of_ne hne).trans hfinished⟩

/-- **The step lemma.** -/
theorem change (h : Placed p) (hchange : Change p p') : Placed p' := by
  cases hchange with
  | idle hidle hsame => exact h.same (samePlaces_kept hidle.kept) hsame
  | turn hstart hturn hend => exact h.turn hstart hturn hend
  | grow _ hkept _ hsame => exact h.same (samePlaces_kept hkept) hsame
  | join hjoin hsame => exact h.join hjoin hsame
  | note hmoved _ _ hsame =>
    exact h.same (samePlaces_moved hmoved (fun _ => rfl) fun _ => rfl) hsame
  | retire hr hlive _ hret => exact h.retire hr hlive hret
  | land hsome hmoved _ hpending hready hdying =>
    exact h.land hsome (samePlaces_moved hmoved (fun _ => rfl) fun _ => rfl) hpending hready hdying
  | bury _ hkept _ hpending hready hdying =>
    exact h.bury (samePlaces_kept hkept) hpending hready hdying
  | board hhead hmoved _ hpending hready hdying => exact h.board hhead hmoved hpending hready hdying

theorem changes (h : Placed p) (hchanges : Changes p p') : Placed p' := by
  induction hchanges with
  | refl => exact h
  | tail _ hlast ih => exact ih.change hlast

end Placed

/-! ### Operations as changes -/

theorem SamePromotes.trans {o o' o'' : Promoting σ} (h : SamePromotes o o')
    (h' : SamePromotes o' o'') : SamePromotes o o'' :=
  ⟨h'.pending.trans h.pending, h'.ready.trans h.ready, h'.dying.trans h.dying⟩

/-- Nobody moved, no block and no promotion. -/
structure Still (p p' : OffloadPlanner σ) : Prop where
  idle : Idle p.toBatchPlanner p'.toBatchPlanner
  same : SamePromotes p.toPromoting p'.toPromoting

theorem Still.refl (p : OffloadPlanner σ) : Still p p := ⟨.refl _, .refl _⟩

theorem Still.trans (h : Still p q) (h' : Still q p') : Still p p' :=
  ⟨h.idle.trans h'.idle, h.same.trans h'.same⟩

theorem Still.change (h : Still p p') : Change p p' := .idle h.idle h.same

section

variable [OffloadingManager σ] [BlockDigest]

theorem commit_still {n : Nat} (h : p.commit r n = .ok p') : Still p p' := by
  unfold commit at h
  obtain ⟨⟨fresh, cache⟩, hcommit, h⟩ := bind_eq_ok.mp h
  have hidle : Idle p.toBatchPlanner { p.toBatchPlanner with prefixCache := cache } := by
    refine idle_cache (SameBlocks.trans ?_ (PrefixCache.commit_same hcommit))
    split
    · exact PrefixCache.observe_same _ _ _
    · exact .refl _
  simp only at h
  split at h
  · cases h
    exact ⟨hidle, ⟨rfl, rfl, rfl⟩⟩
  split at h
  · cases h
    exact ⟨hidle, ⟨rfl, rfl, rfl⟩⟩
  · obtain ⟨⟨spec, tier⟩, -, h⟩ := bind_eq_ok.mp h
    cases h
    exact ⟨hidle, ⟨rfl, rfl, rfl⟩⟩

omit [OffloadingManager σ] [BlockDigest] in
theorem commits_still {f : OffloadPlanner σ → RequestRef × Nat → Except Raised (OffloadPlanner σ)}
    (hf : ∀ p e p', f p e = .ok p' → Still p p') : ∀ {entries : List (RequestRef × Nat)}
    {p p' : OffloadPlanner σ}, entries.foldlM f p = .ok p' → Still p p'
  | [], p, p', h => by
      cases h
      exact .refl p
  | e :: entries, p, p', h => by
      rw [List.foldlM_cons] at h
      obtain ⟨q, hone, hrest⟩ := bind_eq_ok.mp h
      exact (hf _ _ _ hone).trans (commits_still hf hrest)

theorem commitPendingBlocks_still (h : p.commitPendingBlocks = .ok p') : Still p p' := by
  unfold commitPendingBlocks at h
  obtain ⟨q, hq, h⟩ := bind_eq_ok.mp h
  cases h
  refine (commits_still (fun p e p' h => ?_) hq).trans ⟨⟨?_, .refl _⟩, .refl _⟩
  · unfold commitEntry at h
    split at h
    · exact commit_still h
    · cases h
      exact .refl _
  · exact ⟨rfl, rfl, rfl, rfl, rfl, rfl, fun _ => rfl⟩

theorem settlePendingBlocks_still (h : p.settlePendingBlocks r = .ok p') : Still p p' := by
  unfold settlePendingBlocks at h
  obtain ⟨q, hq, h⟩ := bind_eq_ok.mp h
  cases h
  refine (commits_still (fun p e p' h => ?_) hq).trans ⟨⟨?_, .refl _⟩, .refl _⟩
  · unfold settleEntry at h
    split at h
    · exact commit_still h
    · cases h
      exact .refl _
  · exact ⟨rfl, rfl, rfl, rfl, rfl, rfl, fun _ => rfl⟩

omit [OffloadingManager σ] [BlockDigest] in
/-- Which promotion a landed copy was for. -/
theorem takePromotion_eff {gpuBlocks : List BlockId} {taken : Option Promotion}
    (h : p.takePromotion gpuBlocks = (taken, p')) : p'.toBatchPlanner = p.toBatchPlanner ∧
      p'.readyPromotes = p.readyPromotes ∧
      ((taken = none ∧ Still p p') ∨ ∃ rid promotion, taken = some promotion ∧
        ((p.pendingPromotes rid = some promotion ∧ p'.dyingPromotes = p.dyingPromotes ∧
            p'.pendingPromotes = Function.update p.pendingPromotes rid none) ∨
          (p.dyingPromotes rid = some promotion ∧ p'.pendingPromotes = p.pendingPromotes ∧
            p'.dyingPromotes = Function.update p.dyingPromotes rid none))) := by
  unfold takePromotion at h
  split at h
  · cases h
    exact ⟨rfl, rfl, .inl ⟨rfl, .refl p⟩⟩
  split at h
  · cases h
    exact ⟨rfl, rfl, .inl ⟨rfl, .refl p⟩⟩
  · rename_i rid _
    simp only at h
    split at h
    · rename_i promotion hsome
      cases h
      exact ⟨rfl, rfl, .inr ⟨rid, promotion, rfl, .inl ⟨hsome, rfl, rfl⟩⟩⟩
    · cases h
      refine ⟨rfl, rfl, ?_⟩
      cases hdying : p.dyingPromotes rid with
      | none =>
        refine .inl ⟨rfl, .refl _, rfl, rfl, ?_⟩
        rw [← hdying]
        exact Function.update_eq_self _ _
      | some promotion => exact .inr ⟨rid, promotion, rfl, .inr ⟨hdying, rfl, rfl⟩⟩

omit [OffloadingManager σ] [BlockDigest] in
/-- One event of the copier. -/
theorem landEvent_changes {event : OffloadEvent} (hp : Placed p) (h : p.landEvent event = .ok p') :
    Changes p p' := by
  unfold landEvent at h
  split at h
  · cases h
    exact .refl
  rcases htake : p.takePromotion event.gpuBlocks with ⟨taken, q⟩
  obtain ⟨hplanner, hready, htaken⟩ := takePromotion_eff htake
  rw [htake] at h
  rcases htaken with ⟨rfl, hstill⟩ | ⟨rid, promotion, rfl, hcase⟩
  · cases h
    exact .single hstill.change
  simp only [hplanner] at h
  rcases hcase with ⟨hsome, hdying, hpending⟩ | ⟨hdead, hpending, hdying⟩
  · obtain ⟨hid, haway, -⟩ := hp.pending rid promotion hsome
    have hlive : (p.objects promotion.request).status ≠ .finished := by
      rw [haway.status]; decide
    rw [if_neg hlive] at h
    obtain ⟨⟨fresh, cache⟩, hcommit, h⟩ := bind_eq_ok.mp h
    cases h
    refine .single (.land hsome ?_ (PrefixCache.commit_same hcommit) hpending
      (by simp only [hready]) hdying)
    exact ⟨rfl, rfl, rfl, rfl, rfl, rfl, by rw [modify_objects_self],
      fun q hq => by rw [modify_objects_of_ne _ hq]⟩
  · obtain ⟨hid, hlt, hfinished⟩ := hp.dying rid promotion hdead
    rw [if_pos hfinished] at h
    obtain ⟨cache, hfree, h⟩ := bind_eq_ok.mp h
    cases h
    have hrid : (p.objects promotion.request).requestId = rid := hid
    rw [hrid] at hfree
    exact .single (.bury hdead ⟨rfl, rfl, rfl, rfl, rfl, rfl, fun _ => rfl⟩
      (PrefixCache.free_releases hfree) hpending hready hdying)

omit [OffloadingManager σ] [BlockDigest] in
theorem landEvents_changes : ∀ {events : List OffloadEvent} {p p' : OffloadPlanner σ}, Placed p →
    events.foldlM landEvent p = .ok p' → Changes p p'
  | [], p, p', _, h => by
      cases h
      exact .refl
  | event :: events, p, p', hp, h => by
      rw [List.foldlM_cons] at h
      obtain ⟨q, hone, hrest⟩ := bind_eq_ok.mp h
      have hfirst := landEvent_changes hp hone
      exact hfirst.trans (landEvents_changes (hp.changes hfirst) hrest)

omit [BlockDigest] in
theorem drainOffloadEvents_changes (hp : Placed p) (h : p.drainOffloadEvents = .ok p') :
    Changes p p' := by
  unfold drainOffloadEvents at h
  split at h
  · cases h
    exact .refl
  · obtain ⟨⟨events, tier⟩, -, h⟩ := bind_eq_ok.mp h
    have hstill : Still p { p with offloading := some tier } := ⟨.refl _, ⟨rfl, rfl, rfl⟩⟩
    exact .head hstill.change (landEvents_changes (hp.change hstill.change) h)

omit [OffloadingManager σ] [BlockDigest] in
/-- The promotions that find a slot. -/
theorem seatReady_changes : ∀ {ready : List RequestRef} {p : OffloadPlanner σ},
    p.readyPromotes = ready → Changes p { p with
      toBatchPlanner := (seatReady ready p.toBatchPlanner).2
      readyPromotes := (seatReady ready p.toBatchPlanner).1 }
  | [], p, hready => by
      rw [seatReady, ← hready]
  | r :: rest, p, hready => by
      rw [seatReady]
      split
      · rw [← hready]
      · rename_i slot freeSlots hslots
        split
        · rw [← hready]
        · let q : OffloadPlanner σ := { p with
            toBatchPlanner := { p.toBatchPlanner with
              freeSlots
              running := p.running ++ [r] }.modify r (boarded slot)
            readyPromotes := rest }
          have hmoved : Moved p.toBatchPlanner p.waiting (p.running ++ [r]) r (boarded slot)
              q.toBatchPlanner := by
            refine ⟨rfl, rfl, rfl, rfl, rfl, rfl, ?_, fun q hq => ?_⟩
            · rw [modify_objects_self]
            · rw [modify_objects_of_ne _ hq]
          have hboard : Change p q := .board hready hmoved rfl rfl rfl rfl
          have hready' : q.readyPromotes = rest := rfl
          exact .head hboard (seatReady_changes hready')

omit [OffloadingManager σ] [BlockDigest] in
theorem promoteReady_changes (p : OffloadPlanner σ) : Changes p p.promoteReady :=
  seatReady_changes rfl

/-- Everything before stage 1. -/
theorem beforeStages_changes (hp : Placed p) (h : p.beforeStages = .ok q) : Changes p q := by
  unfold beforeStages at h
  obtain ⟨u, hdrain, h⟩ := bind_eq_ok.mp h
  exact ((drainOffloadEvents_changes hp hdrain).trans (promoteReady_changes u)).tail
    (commitPendingBlocks_still h).change

omit [OffloadingManager σ] [BlockDigest] in
/-- The turns of a call are changes of the planner it is called on. -/
theorem turns_changes {x y : Promoting σ × PlanState} (h : TieredTurns x y) :
    Changes { toBatchPlanner := x.2.planner, toPromoting := x.1 }
      { toBatchPlanner := y.2.planner, toPromoting := y.1 } := by
  induction h with
  | refl => exact .refl
  | tail _ hlast ih => exact ih.tail (.turn rfl hlast rfl)

omit [OffloadingManager σ] [BlockDigest] in
/-- The end of a retirement. -/
theorem releaseRetired_eff (h : p.releaseRetired r = .ok p') :
    Kept p.toBatchPlanner p'.toBatchPlanner ∧ Laid p r p' := by
  unfold releaseRetired retirePromotion at h
  cases hsome : p.pendingPromotes (p.objects r).requestId with
  | some promotion =>
    simp only [hsome] at h
    cases h
    exact ⟨.refl _, .dying hsome rfl rfl rfl (.refl _)⟩
  | none =>
    simp only [hsome] at h
    obtain ⟨s, hfree, h⟩ := bind_eq_ok.mp h
    cases h
    obtain ⟨hkept, hcache⟩ := freeBlocks_eff hfree
    exact ⟨hkept, .released hsome rfl rfl rfl (PrefixCache.free_releases hcache)⟩

/-- Finishing a request that has not ended retires it. -/
theorem finish_eff {reason : FinishReason} (hp : Placed p) (hr : r < p.numObjects)
    (h : p.finish r reason = .ok p') :
    ((p.objects r).status = .finished ∧ p' = p) ∨
      (p.objects r).status ≠ .finished ∧ Retired p r [] p' := by
  unfold finish at h
  by_cases hlive : (p.objects r).status = .finished
  · simp only [if_pos hlive] at h
    cases h
    exact .inl ⟨hlive, rfl⟩
  refine .inr ⟨hlive, ?_⟩
  simp only [if_neg hlive] at h
  obtain ⟨u, hleft, h⟩ := bind_eq_ok.mp h
  obtain ⟨v, hrelease, h⟩ := bind_eq_ok.mp h
  obtain ⟨hkept, hlaid⟩ := releaseRetired_eff hrelease
  have hchange : (fun request : Request => { request with
      status := .finished, finishReason := some reason, slot := none }) =
      ended reason none [] := by
    funext request
    simp only [ended, List.append_nil]
  rw [hchange] at hleft
  -- out of its list, whichever it is in, and nothing else
  have hleft : Moved p.toBatchPlanner (p.waitingBut r) (p.running.erase r) r
      (ended reason none []) u.toBatchPlanner ∧ SamePromotes p.toPromoting u.toPromoting ∧
      SameBlocks p.prefixCache u.prefixCache := by
    split at hleft
    · rename_i hrun
      have hmem := hp.roster.seated r hr hrun
      have hstill := settlePendingBlocks_still hleft
      have hkept := hstill.idle.kept
      refine ⟨⟨hkept.config, hkept.maxNumSeqs, hkept.numObjects, hkept.requests, ?_, hkept.running,
        ?_, fun q hq => ?_⟩, hstill.same, hstill.idle.same⟩
      · refine hkept.waiting.trans (List.filter_eq_self.mpr fun q hq => ?_).symm
        exact decide_eq_true (hp.roster.id_ne hq hmem)
      · exact (hkept.objects r).trans (congrArg dropPlan (modify_objects_self _))
      · exact (hkept.objects q).trans (congrArg dropPlan (modify_objects_of_ne _ hq))
    · rename_i hrun
      cases hleft
      refine ⟨⟨rfl, rfl, rfl, rfl, ?_, ?_, ?_, fun q hq => ?_⟩, ⟨rfl, rfl, rfl⟩, .refl _⟩
      · refine List.filter_congr fun q _ => ?_
        by_cases hq : q = r
        · subst hq
          simp only [modify_objects_self]
          rfl
        · simp only [modify_objects_of_ne _ hq]
          rfl
      · exact (List.erase_of_not_mem fun hmem => hrun (hp.roster.running_ok r hmem)).symm
      · exact congrArg dropPlan (modify_objects_self _)
      · exact congrArg dropPlan (modify_objects_of_ne _ hq)
  obtain ⟨hmoved, hpromotes, hblocks⟩ := hleft
  have hid : u.idOf r = p.idOf r := hmoved.idOf (fun _ => rfl) r
  have hlaid : Laid p r v := by
    cases hlaid with
    | released hnone hpending hready hdying hreleased =>
      rw [hid, hpromotes.pending] at hnone
      rw [hid] at hreleased
      exact .released hnone (hpending.trans hpromotes.pending) (hready.trans (by rw [hpromotes.ready]))
        (hdying.trans hpromotes.dying) (hblocks.trans_releases hreleased)
    | dying hsome hpending hready hdying hsame =>
      rw [hid, hpromotes.pending] at hsome
      rw [hid, hpromotes.pending] at hpending
      rw [hid, hpromotes.dying] at hdying
      exact .dying hsome hpending (hready.trans hpromotes.ready) hdying (hblocks.trans hsame)
  have hmoved := hmoved.trans_kept hkept
  have hmap : v.requests (p.objects r).requestId = some r := by
    rw [hmoved.requests]
    exact hp.roster.ids r hr hlive
  rw [if_pos hmap] at h
  cases h
  refine ⟨hmoved.config, hmoved.maxNumSeqs, hmoved.numObjects, ?_, hmoved.waiting, hmoved.running,
    ⟨reason, none, hmoved.self⟩, hmoved.others, ?_⟩
  · simp only [hmoved.requests]
    rfl
  · cases hlaid with
    | released hnone hpending hready hdying hreleased =>
      exact .released hnone hpending hready hdying hreleased
    | dying hsome hpending hready hdying hsame => exact .dying hsome hpending hready hdying hsame

/-- `abort` retires the request its id leads to. -/
theorem abort_eff {rid : RequestId} {aborted : Option RequestRef} (hp : Placed p)
    (h : p.abort rid = .ok (aborted, p')) :
    p' = p ∨ ∃ r, r < p.numObjects ∧ (p.objects r).status ≠ .finished ∧ Retired p r [] p' := by
  unfold abort at h
  cases hrid : p.requests rid with
  | none =>
    simp only [hrid] at h
    cases h
    exact .inl rfl
  | some r =>
    obtain ⟨hr, hid, hlive⟩ := hp.listed rid r hrid
    simp only [hrid] at h
    by_cases hwait : (p.objects r).status = .waiting
    · rw [if_pos hwait] at h
      obtain ⟨u, hrelease, h⟩ := bind_eq_ok.mp h
      cases h
      obtain ⟨hkept, hlaid⟩ := releaseRetired_eff hrelease
      let s : BatchPlanner := (p.popWaiting rid).modify r fun request =>
        { request with status := .finished, finishReason := some .abort }
      have hself : s.objects r = ended .abort (p.objects r).slot [] (p.objects r) := by
        refine (modify_objects_self _).trans ?_
        simp only [ended, List.append_nil]
        rfl
      have hothers : ∀ q ≠ r, s.objects q = p.objects q := fun q hq => modify_objects_of_ne _ hq
      have hids : s.idOf r = p.idOf r := by simp only [BatchPlanner.idOf, hself, ended]
      have hnotrun : r ∉ p.running := fun hmem => by
        have := hwait.symm.trans (hp.roster.running_ok r hmem)
        cases this
      refine .inr ⟨r, hr, hlive, hkept.config, hkept.maxNumSeqs, hkept.numObjects, ?_,
        hkept.waiting.trans ?_, hkept.running.trans (List.erase_of_not_mem hnotrun).symm,
        ⟨.abort, (p.objects r).slot, (hkept.objects r).trans (congrArg dropPlan hself)⟩,
        fun q hq => (hkept.objects q).trans (congrArg dropPlan (hothers q hq)), ?_⟩
      · simp only [hkept.requests, hid]
        rfl
      · rw [← hid]
        rfl
      · have hlaid : Laid { p with toBatchPlanner := s } r u := hlaid
        cases hlaid with
        | released hnone hpending hready hdying hreleased =>
          simp only [hids] at hnone hreleased
          exact .released hnone hpending hready hdying hreleased
        | dying hsome hpending hready hdying hsame =>
          simp only [hids] at hsome hpending hdying
          exact .dying hsome hpending hready hdying hsame
    · rw [if_neg hwait] at h
      obtain ⟨u, hfinish, h⟩ := bind_eq_ok.mp h
      cases h
      rcases finish_eff hp hr hfinish with ⟨hended, -⟩ | ⟨-, hretired⟩
      · exact absurd hended hlive
      · exact .inr ⟨r, hr, hlive, hretired⟩

omit [OffloadingManager σ] [BlockDigest] in
/-- Retiring a request on a token it was just handed. -/
theorem Retired.after_token {token : Token} (h : Retired (p.receive r token) r [] p') :
    Retired p r [token] p' := by
  have hself := receive_self p r token
  have hids : ∀ q, (p.receive r token).idOf q = p.idOf q := fun q => by
    by_cases hq : q = r
    · subst hq
      simp only [BatchPlanner.idOf, hself]
    · exact congrArg Request.requestId (receive_of_ne p token hq)
  have hrequests := h.requests
  obtain ⟨reason, slot, hlast⟩ := h.self
  simp only [hids r] at hrequests
  refine ⟨h.config, h.maxNumSeqs, h.numObjects, hrequests, h.waiting.trans ?_, h.running,
    ⟨reason, slot, hlast.trans ?_⟩, fun q hq =>
    (h.others q hq).trans (congrArg dropPlan (receive_of_ne p token hq)), ?_⟩
  · exact List.filter_congr fun q _ => by rw [hids, hids]
  · rw [hself]
    simp only [ended, List.append_nil]
  · cases h.laid with
    | released hnone hpending hready hdying hreleased =>
      simp only [hids r] at hnone hreleased
      exact .released hnone hpending hready hdying hreleased
    | dying hsome hpending hready hdying hsame =>
      simp only [hids r] at hsome hpending hdying
      exact .dying hsome hpending hready hdying hsame

/-- One harvested token: it is dropped, it ends the request, or the request goes on with it. -/
theorem harvestRow_eff {token : Token} {stop repeats : Bool} (hp : Placed p) (hr : r < p.numObjects)
    (h : p.harvestRow r token stop repeats = .ok p') :
    ((p.objects r).status = .finished ∧ p' = p) ∨ (p.objects r).status ≠ .finished ∧
      ((∃ tokens : List Token, tokens.length ≤ 1 ∧ Retired p r tokens p') ∨
        p'.toPromoting = p.toPromoting ∧ p'.prefixCache = p.prefixCache ∧
          Moved p.toBatchPlanner p.waiting p.running r
            (noted [token] (p.objects r).pendingTokens) p'.toBatchPlanner ∧
          (noted [token] (p.objects r).pendingTokens (p.objects r)).hasRoom) := by
  unfold harvestRow at h
  by_cases hlive : (p.objects r).status = .finished
  · rw [if_pos (by simpa [Request.isFinished] using hlive)] at h
    cases h
    exact .inl ⟨hlive, rfl⟩
  refine .inr ⟨hlive, ?_⟩
  rw [if_neg (by simpa [Request.isFinished] using hlive)] at h
  split at h
  · rcases finish_eff hp hr h with ⟨hended, -⟩ | ⟨-, hretired⟩
    · exact absurd hended hlive
    · exact .inl ⟨[], by simp, hretired⟩
  -- the token is appended first
  have hself := receive_self p r token
  have hmoved : Moved p.toBatchPlanner p.waiting p.running r
      (noted [token] (p.objects r).pendingTokens) (p.receive r token).toBatchPlanner :=
    ⟨rfl, rfl, rfl, rfl, rfl, rfl, congrArg dropPlan hself,
      fun q hq => congrArg dropPlan (receive_of_ne p token hq)⟩
  have hu : Placed (p.receive r token) :=
    hp.same (samePlaces_moved hmoved (fun _ => rfl) fun _ => rfl) (.refl _)
  have hend : ∀ {reason}, (p.receive r token).finish r reason = .ok p' →
      ∃ tokens : List Token, tokens.length ≤ 1 ∧ Retired p r tokens p' := fun hfinish => by
    rcases finish_eff hu hr hfinish with ⟨hended, -⟩ | ⟨-, hretired⟩
    · rw [hself] at hended
      exact absurd hended hlive
    · exact ⟨[token], by simp, hretired.after_token⟩
  simp only at h
  split at h
  · exact .inl (hend h)
  rename_i hroom
  split at h
  · exact .inl (hend h)
  · cases h
    refine .inr ⟨rfl, rfl, hmoved, ?_⟩
    simp only [hself, Bool.or_eq_true, Bool.not_eq_true', not_or, Bool.not_eq_false] at hroom
    exact hroom.1

/-- What a submission queues: a fresh request, its cap resolved against the context window. -/
def submitted (s : BatchPlanner) (rid : RequestId) (tokens : List Token) (params : SamplingParams) :
    Request :=
  { Request.new rid tokens params with maxNewTokens := s.cap (Request.new rid tokens params) }

omit [OffloadingManager σ] [BlockDigest] in
theorem addRequest_eff {rid : RequestId} {tokens : List Token} {params : SamplingParams}
    (h : p.addRequest (Request.new rid tokens params) = .ok (r, p')) :
    Joined p.toBatchPlanner (submitted p.toBatchPlanner rid tokens params) p'.toBatchPlanner ∧
      SamePromotes p.toPromoting p'.toPromoting := by
  unfold addRequest at h
  obtain ⟨⟨ref, s⟩, hadd, h⟩ := bind_eq_ok.mp h
  cases h
  obtain ⟨hfree, hstatus, -, hprompt, hlimit, rfl, rfl⟩ := addRequest_ok hadd
  obtain ⟨hcap, hroom⟩ := cap_bounds hlimit
  have hcap : (1 : Int) ≤ (p.cap (Request.new rid tokens params) : Int) := by exact_mod_cast hcap
  have hroom : ((Request.new rid tokens params).promptLen : Int) +
      (p.cap (Request.new rid tokens params) : Int) ≤ p.config.maxSeqLen := by exact_mod_cast hroom
  exact ⟨⟨hfree, hstatus, rfl, rfl, rfl, Nat.one_le_iff_ne_zero.mpr hprompt, hcap, hroom, rfl, rfl,
    rfl, rfl, rfl, rfl, rfl, Function.update_self _ _ _,
    fun q hq => Function.update_of_ne (Nat.ne_of_lt hq) _ _⟩, ⟨rfl, rfl, rfl⟩⟩

omit [OffloadingManager σ] [BlockDigest] in
theorem reserveFit_eff : ∀ {fit : Nat} {s t : BatchPlanner} {n : Nat},
    s.reserveFit r fit = .ok (n, t) →
    Idle s t ∨ ∃ m, Kept s t ∧ Covers s.prefixCache (s.idOf r) m t.prefixCache
  | 0, s, t, n, h => by
      cases h
      exact .inl (.refl s)
  | fit + 1, s, t, n, h => by
      rw [reserveFit] at h
      obtain ⟨⟨granted, u⟩, halloc, h⟩ := bind_eq_ok.mp h
      rcases allocate_eff halloc with ⟨rfl, hkept, hcovers⟩ | ⟨rfl, hidle, -⟩
      · cases h
        -- the mappings are appended to those of the decode plan
        let taken := u.prefixCache.takeTableWrites (u.objects r).requestId
        let v : BatchPlanner := { u with prefixCache := taken.2 }
        have hv : Kept u v := ⟨rfl, rfl, rfl, rfl, rfl, rfl, fun _ => rfl⟩
        have hmapped : Kept v (v.modify r fun request =>
            { request with blockPlan := request.blockPlan ++ taken.1 }) := .of_modify v r fun _ => rfl
        have hsame := PrefixCache.takeTableWrites_same u.prefixCache (u.objects r).requestId
        exact .inr ⟨_, (hkept.trans hv).trans hmapped, hcovers.trans_same hsame⟩
      · rcases reserveFit_eff h with hrest | ⟨m, hkept, hcovers⟩
        · exact .inl (hidle.trans hrest)
        · rw [hidle.kept.idOf] at hcovers
          exact .inr ⟨m, hidle.kept.trans hkept, hidle.same.trans_covers hcovers⟩

/-- What `plan` returns is reached by changes. -/
theorem plan_changes {plan : StepPlan} (hp : Placed p) (h : p.plan = .ok (plan, p')) :
    Changes p p' := by
  obtain ⟨q, hbefore, hends⟩ := plan_eff h
  have hfirst := beforeStages_changes hp hbefore
  have hq := hp.changes hfirst
  obtain ⟨st₁, st₂, st, hends⟩ := hends hq.roster
  have hrest := turns_changes (hends.turns hq.roster)
  have hp' : ({ toBatchPlanner := st.planner, toPromoting := p'.toPromoting } : OffloadPlanner σ) =
      p' := by rw [← hends.planner]
  exact hfirst.trans (hp' ▸ hrest)

/-- **Every operation is a sequence of changes.** -/
theorem apply_changes {op : TieredOp σ} (hp : Placed p) (h : p.apply op = .ok p') :
    Changes p p' := by
  cases op with
  | add rid tokens params =>
    obtain ⟨⟨r, u⟩, hadd, h⟩ := bind_eq_ok.mp h
    cases h
    obtain ⟨hjoin, hsame⟩ := addRequest_eff hadd
    exact .single (.join hjoin hsame)
  | plan =>
    obtain ⟨⟨plan, u⟩, hplan, h⟩ := bind_eq_ok.mp h
    cases h
    exact plan_changes hp hplan
  | harvest r token stop repeats =>
    rw [apply] at h
    split at h
    · rename_i hr
      rcases harvestRow_eff hp hr h with ⟨-, rfl⟩ | ⟨hlive, ⟨tokens, hlast, hretired⟩ |
        ⟨hsame, hcache, hmoved, hroom⟩⟩
      · exact .refl
      · exact .single (.retire hr hlive hlast hretired)
      · exact .single (.note hmoved (.inr hroom) hcache (hsame ▸ .refl _))
    · cases h
  | finish r reason =>
    rw [apply] at h
    split at h
    · rename_i hr
      rcases finish_eff hp hr h with ⟨-, rfl⟩ | ⟨hlive, hretired⟩
      · exact .refl
      · exact .single (.retire hr hlive (by simp) hretired)
    · cases h
  | abort rid =>
    obtain ⟨⟨aborted, u⟩, habort, h⟩ := bind_eq_ok.mp h
    cases h
    rcases abort_eff hp habort with rfl | ⟨r, hr, hlive, hretired⟩
    · exact .refl
    · exact .single (.retire hr hlive (by simp) hretired)
  | reserveSpeculative r rows =>
    rw [apply] at h
    split at h
    · rename_i hr
      obtain ⟨⟨n, s⟩, hreserve, h⟩ := bind_eq_ok.mp h
      cases h
      rcases reserveFit_eff hreserve with hidle | ⟨m, hkept, hcovers⟩
      · exact .single (.idle hidle ⟨rfl, rfl, rfl⟩)
      · exact .single (.grow hr hkept hcovers ⟨rfl, rfl, rfl⟩)
    · cases h
  | pend r k =>
    cases h
    have hmoved : Moved p.toBatchPlanner p.waiting p.running r (noted [] k)
        (p.modify r fun request => { request with pendingTokens := k }) := by
      refine ⟨rfl, rfl, rfl, rfl, rfl, rfl, ?_, fun q hq => ?_⟩
      · rw [modify_objects_self]
        simp only [noted, List.append_nil]
      · rw [modify_objects_of_ne _ hq]
    exact .single (.note hmoved (.inl rfl) rfl ⟨rfl, rfl, rfl⟩)
  | copies tier =>
    cases h
    exact .single (Still.change ⟨.refl _, ⟨rfl, rfl, rfl⟩⟩)

omit [OffloadingManager σ] [BlockDigest] in
/-- A freshly built planner. -/
theorem create_eff {config : SchedulerConfig} {numSlots : Nat} {numBlocks : Option Nat}
    {offloading : Option σ} (h : create config numSlots numBlocks offloading = .ok p) :
    Fresh p.toBatchPlanner config numSlots numBlocks ∧ (p.pendingPromotes = fun _ => none) ∧
      p.readyPromotes = [] ∧ p.dyingPromotes = fun _ => none := by
  unfold create at h
  obtain ⟨s, hs, h⟩ := bind_eq_ok.mp h
  split at h
  · cases h
  · cases h
    exact ⟨create_fresh hs, rfl, rfl, rfl⟩

omit [OffloadingManager σ] [BlockDigest] in
theorem create_placed {config : SchedulerConfig} {numSlots : Nat} {numBlocks : Option Nat}
    {offloading : Option σ} (h : create config numSlots numBlocks offloading = .ok p) : Placed p := by
  obtain ⟨hfresh, hpending, hready, hdying⟩ := create_eff h
  obtain ⟨hwaiting, hrunning, -⟩ := hfresh.nobody
  have hnobody : ∀ r, ¬ r < p.numObjects := fun r hr => by
    rw [hfresh.objects] at hr
    exact Nat.not_lt_zero _ hr
  refine ⟨⟨hrunning ▸ List.nodup_nil, fun r hr => ?_, fun r hr => ?_, fun r hr =>
    absurd hr (hnobody r), fun r hr => ?_, fun r hr => absurd hr (hnobody r)⟩, fun rid r hr => ?_,
    hready ▸ List.nodup_nil, fun r hr => ?_, fun rid promotion hsome => ?_,
    fun rid promotion hsome => ?_⟩
  · rw [hrunning] at hr
    cases hr
  · rw [hwaiting] at hr
    cases hr
  · rw [hwaiting, hrunning] at hr
    rcases hr with hr | hr <;> cases hr
  · rw [hfresh.requests] at hr
    cases hr
  · rw [hready] at hr
    cases hr
  · rw [hpending] at hsome
    cases hsome
  · rw [hdying] at hsome
    cases hsome

/-- **The run lemma.** In every run, an invariant of changes holds. -/
theorem run_placed {ops : List (TieredOp σ)} (hrun : Run Step p ops p') (hp : Placed p) :
    Placed p' :=
  hrun.invariant (fun _ _ _ hs hstep => hs.changes (apply_changes hs hstep)) hp

end

/-! ### What each record keeps to -/

/-- The counters of a request, against the context window: its prompt and its cap fit, it has not
computed more than its prompt, and one that goes on has room for a token. -/
structure Fits (config : SchedulerConfig) (request : Request) : Prop where
  prompt : 1 ≤ request.promptLen
  computed : request.numComputedTokens ≤ request.promptLen
  room : (request.promptLen : Int) + request.maxNewTokens ≤ config.maxSeqLen
  outputs : (request.outputTokenIds.length : Int) ≤ request.maxNewTokens
  live : request.status ≠ .finished → request.hasRoom

namespace Fits

variable {config : SchedulerConfig} {request request' : Request}

theorem congr (h : Fits config request) (heq : dropPlan request' = dropPlan request) :
    Fits config request' := by
  have hlive : request'.hasRoom = request.hasRoom := by
    simp only [Request.hasRoom, dropPlan_outputs heq, dropPlan_cap heq]
  refine ⟨?_, ?_, ?_, ?_, fun hstatus => ?_⟩
  · rw [dropPlan_promptLen heq]; exact h.prompt
  · rw [dropPlan_computed heq, dropPlan_promptLen heq]; exact h.computed
  · rw [dropPlan_promptLen heq, dropPlan_cap heq]; exact h.room
  · rw [dropPlan_outputs heq, dropPlan_cap heq]; exact h.outputs
  · rw [hlive]
    exact h.live (by rw [← dropPlan_status heq]; exact hstatus)

theorem lt (h : Fits config request) (hlive : request.status ≠ .finished) :
    (request.outputTokenIds.length : Int) < request.maxNewTokens := by
  have := h.live hlive
  simpa [Request.hasRoom] using this

/-- A prompt is shorter than the context window while its request goes on. -/
theorem promptLen_lt (h : Fits config request) (hlive : request.status ≠ .finished) :
    request.promptLen < config.maxSeqLen := by
  have := h.lt hlive
  have := h.room
  omega

theorem advance (h : Fits config request) {n : Nat} (hn : n ≤ request.promptLen) :
    Fits config (advance n request) := ⟨h.prompt, hn, h.room, h.outputs, h.live⟩

theorem admitted (h : Fits config request) (hlive : request.status ≠ .finished)
    {slot cached chunk : Nat} (hn : cached + chunk ≤ request.promptLen) :
    Fits config (admitted slot cached chunk request) :=
  ⟨h.prompt, hn, h.room, h.outputs, fun _ => h.live hlive⟩

theorem evict (h : Fits config request) (hlive : request.status ≠ .finished) :
    Fits config (evict request) := by
  have hlt := h.lt hlive
  have hroom := h.room
  have hprompt := h.prompt
  have hlen : (BatchPlanner.evict request).promptLen =
      request.promptLen + request.outputTokenIds.length := by
    simp [BatchPlanner.evict, Request.promptLen]
  refine ⟨?_, Nat.zero_le _, ?_, ?_, fun _ => ?_⟩
  · rw [hlen]; omega
  · rw [hlen]
    simp only [BatchPlanner.evict]
    omega
  · simp only [BatchPlanner.evict, List.length_nil]
    omega
  · simpa [Request.hasRoom, BatchPlanner.evict] using hlt

theorem noted (h : Fits config request) {tokens : List Token} {pending : Int}
    (hroom : tokens = [] ∨ (noted tokens pending request).hasRoom) :
    Fits config (noted tokens pending request) := by
  rcases hroom with rfl | hroom
  · refine ⟨h.prompt, h.computed, h.room, ?_, fun hlive => ?_⟩
    · simp only [OffloadPlanner.noted, List.append_nil]
      exact h.outputs
    · simp only [Request.hasRoom, OffloadPlanner.noted, List.append_nil]
      exact h.live hlive
  · refine ⟨h.prompt, h.computed, h.room, ?_, fun _ => hroom⟩
    simp only [Request.hasRoom, decide_eq_true_eq] at hroom
    exact hroom.le

theorem ended (h : Fits config request) (hlive : request.status ≠ .finished) {tokens : List Token}
    (hlast : tokens.length ≤ 1) {reason : FinishReason} {slot : Option Nat} :
    Fits config (ended reason slot tokens request) := by
  have hlt := h.lt hlive
  refine ⟨h.prompt, h.computed, h.room, ?_, fun hstatus => absurd rfl hstatus⟩
  simp only [OffloadPlanner.ended, List.length_append]
  omega

end Fits

/-- Every record keeps to its counters, and promotions are of less than a prompt. -/
structure Sized (p : OffloadPlanner σ) : Prop where
  fits : ∀ r < p.numObjects, Fits p.config (p.objects r)
  promoted : ∀ rid promotion, p.pendingPromotes rid = some promotion →
    promotion.numTokens < (p.objects promotion.request).promptLen

/-- Changing one record. -/
theorem fits_moved {s t : BatchPlanner} {waiting running : List RequestRef}
    {change : Request → Request} (h : Moved s waiting running r change t)
    (hfits : ∀ q < s.numObjects, Fits s.config (s.objects q))
    (hself : Fits s.config (s.objects r) → Fits s.config (change (s.objects r))) :
    ∀ q < t.numObjects, Fits t.config (t.objects q) := by
  intro q hq
  rw [h.numObjects] at hq
  rw [h.config]
  by_cases hqr : q = r
  · subst hqr
    exact (hself (hfits q hq)).congr h.self
  · exact (hfits q hq).congr (h.others q hqr)

theorem promptLen_moved {s t : BatchPlanner} {waiting running : List RequestRef}
    {change : Request → Request} (h : Moved s waiting running r change t)
    (hlen : ∀ request, (change request).promptLen = request.promptLen) (q : RequestRef) :
    (t.objects q).promptLen = (s.objects q).promptLen := by
  by_cases hq : q = r
  · subst hq
    exact (dropPlan_promptLen h.self).trans (hlen _)
  · exact dropPlan_promptLen (h.others q hq)

theorem fits_kept {s t : BatchPlanner} (h : Kept s t)
    (hfits : ∀ q < s.numObjects, Fits s.config (s.objects q)) :
    ∀ q < t.numObjects, Fits t.config (t.objects q) := by
  intro q hq
  rw [h.numObjects] at hq
  rw [h.config]
  exact (hfits q hq).congr (h.objects q)

theorem fits_turn {st st' : PlanState} (h : Turn st st') (hs : Roster st.planner)
    (hfits : ∀ r < st.planner.numObjects, Fits st.planner.config (st.planner.objects r)) :
    ∀ r < st'.planner.numObjects, Fits st'.planner.config (st'.planner.objects r) := by
  have hchunk : ∀ r n, st.planner.chunkOf (st.planner.objects r) n ≤
      (st.planner.objects r).promptLen - n := fun r n => by
    unfold chunkOf
    simp only
    split
    · exact Nat.min_le_left _ _
    · exact Nat.le_refl _
  cases h with
  | idle hidle => exact fits_kept hidle.kept hfits
  | @evict r t hr _ _ hevicted =>
    exact fits_moved hevicted.moved hfits fun h => h.evict (by rw [hs.running_ok r hr]; decide)
  | @resume r t hr _ _ hmoved =>
    refine fits_moved hmoved hfits fun h => h.advance ?_
    have := hchunk r (st.planner.objects r).numComputedTokens
    have := h.computed
    simp only [nextChunk]
    omega
  | refuse _ hkept => exact fits_kept hkept hfits
  | @seat r t hit slot chunk hw _ hshort hchunk' hmoved =>
    refine fits_moved hmoved hfits fun h => h.admitted (by rw [hs.waiting_ok r hw]; decide) ?_
    have := hchunk r hit.numTokens
    rw [hchunk']
    omega
  | park _ _ hmoved => exact fits_moved hmoved hfits id
  | grow _ _ _ hkept => exact fits_kept hkept hfits

namespace Sized

/-- The prompt of a request that is parked. -/
theorem still_promoted (h : Sized p)
    (hpending : ∀ rid promotion, p'.pendingPromotes rid = some promotion →
      p.pendingPromotes rid = some promotion ∧
        (p'.objects promotion.request).promptLen = (p.objects promotion.request).promptLen) :
    ∀ rid promotion, p'.pendingPromotes rid = some promotion →
      promotion.numTokens < (p'.objects promotion.request).promptLen := by
  intro rid promotion hsome
  obtain ⟨hsome, hlen⟩ := hpending rid promotion hsome
  rw [hlen]
  exact h.promoted rid promotion hsome

/-- **The step lemma.** -/
theorem change (h : Sized p) (hp : Placed p) (hchange : Change p p') : Sized p' := by
  cases hchange with
  | idle hidle hsame =>
    exact ⟨fits_kept hidle.kept h.fits, h.still_promoted fun rid promotion hsome =>
      ⟨hsame.pending ▸ hsome, dropPlan_promptLen (hidle.kept.objects _)⟩⟩
  | turn hstart hturn hend =>
    have hs : Roster _ := hstart ▸ hp.roster
    have hfits : ∀ r < p'.numObjects, Fits p'.config (p'.objects r) := by
      rw [hend]
      exact fits_turn hturn.turned hs (hstart ▸ h.fits)
    have hasleep : ∀ r, Away p.toBatchPlanner r →
        (p'.objects r).promptLen = (p.objects r).promptLen := fun r hr => by
      have hframe := frame_turn hturn.turned hs
      rw [hstart, ← hend] at hframe
      refine dropPlan_promptLen (hframe.asleep r hr.absent fun hmem => ?_)
      have := hr.status.symm.trans (hp.roster.running_ok r hmem)
      cases this
    refine ⟨hfits, ?_⟩
    cases hturn with
    | turn hsame _ =>
      refine h.still_promoted fun rid promotion hsome => ?_
      rw [hsame.pending] at hsome
      exact ⟨hsome, hasleep _ (hp.pending rid promotion hsome).2.1⟩
    | @park _ _ st r t n gpuBlocks hw hn hmoved _ hpending =>
      intro rid promotion hsome
      rw [hstart] at hw hn hmoved hpending
      rw [hpending] at hsome
      by_cases hrid : rid = p.idOf r
      · subst hrid
        rw [Function.update_self] at hsome
        cases hsome
        rw [hend, dropPlan_promptLen hmoved.self]
        exact hn
      · rw [Function.update_of_ne hrid] at hsome
        rw [hasleep _ (hp.pending rid promotion hsome).2.1]
        exact h.promoted rid promotion hsome
  | grow _ hkept _ hsame =>
    exact ⟨fits_kept hkept h.fits, h.still_promoted fun rid promotion hsome =>
      ⟨hsame.pending ▸ hsome, dropPlan_promptLen (hkept.objects _)⟩⟩
  | @join request _ hjoin hsame =>
    refine ⟨fun q hq => ?_, h.still_promoted fun rid promotion hsome => ?_⟩
    · rw [hjoin.numObjects] at hq
      rw [hjoin.config]
      rcases Nat.lt_succ_iff_lt_or_eq.mp hq with hlt | rfl
      · rw [hjoin.old q hlt]
        exact h.fits q hlt
      · rw [hjoin.new]
        have hcap := hjoin.cap
        refine ⟨hjoin.prompt, ?_, hjoin.room, ?_, fun _ => ?_⟩
        · rw [hjoin.computed]
          exact Nat.zero_le _
        · rw [hjoin.outputs, List.length_nil]
          omega
        · simp only [Request.hasRoom, hjoin.outputs, List.length_nil, decide_eq_true_eq]
          omega
    · rw [hsame.pending] at hsome
      exact ⟨hsome, by rw [hjoin.old _ (hp.pending rid promotion hsome).2.1.lt]⟩
  | note hmoved hroom _ hsame =>
    exact ⟨fits_moved hmoved h.fits fun hfits => hfits.noted hroom,
      h.still_promoted fun rid promotion hsome =>
        ⟨hsame.pending ▸ hsome, promptLen_moved hmoved (fun _ => rfl) _⟩⟩
  | @retire r tokens _ hr hlive hlast hret =>
    obtain ⟨reason, slot, hself⟩ := hret.self
    have hlen : ∀ q, (p'.objects q).promptLen = (p.objects q).promptLen := fun q => by
      by_cases hq : q = r
      · subst hq
        have hself := dropPlan_promptLen hself
        exact hself
      · exact dropPlan_promptLen (hret.others q hq)
    refine ⟨fun q hq => ?_, h.still_promoted fun rid promotion hsome => ⟨?_, hlen _⟩⟩
    · rw [hret.numObjects] at hq
      rw [hret.config]
      by_cases hqr : q = r
      · subst hqr
        exact ((h.fits q hq).ended hlive hlast).congr hself
      · exact (h.fits q hq).congr (hret.others q hqr)
    · cases hret.laid with
      | released _ hpending => exact hpending ▸ hsome
      | dying _ hpending =>
        rw [hpending] at hsome
        by_cases hrid : rid = p.idOf r
        · subst hrid
          rw [Function.update_self] at hsome
          cases hsome
        · rwa [Function.update_of_ne hrid] at hsome
  | @land promotion rid _ hsome hmoved _ hpending =>
    have hn := h.promoted rid promotion hsome
    refine ⟨fits_moved hmoved h.fits fun hfits =>
      ⟨hfits.prompt, hn.le, hfits.room, hfits.outputs, hfits.live⟩,
      h.still_promoted fun rid' other hother => ⟨?_, promptLen_moved hmoved (fun _ => rfl) _⟩⟩
    rw [hpending] at hother
    by_cases hrid : rid' = rid
    · rw [hrid, Function.update_self] at hother
      cases hother
    · rwa [Function.update_of_ne hrid] at hother
  | bury _ hkept _ hpending =>
    exact ⟨fits_kept hkept h.fits, h.still_promoted fun rid promotion hsome =>
      ⟨hpending ▸ hsome, dropPlan_promptLen (hkept.objects _)⟩⟩
  | @board r rest slot _ hhead hmoved _ hpending =>
    have haway := hp.ready r (hhead ▸ List.mem_cons_self)
    refine ⟨fits_moved hmoved h.fits fun hfits => ⟨hfits.prompt, hfits.computed, hfits.room,
      hfits.outputs, fun _ => hfits.live (by rw [haway.status]; decide)⟩,
      h.still_promoted fun rid promotion hsome =>
        ⟨hpending ▸ hsome, promptLen_moved hmoved (fun _ => rfl) _⟩⟩

theorem changes (h : Sized p) (hp : Placed p) (hchanges : Changes p p') : Sized p' := by
  induction hchanges with
  | refl => exact h
  | tail hrest hlast ih => exact ih.change (hp.changes hrest) hlast

end Sized

theorem create_sized {config : SchedulerConfig} {numSlots : Nat} {numBlocks : Option Nat}
    {offloading : Option σ} (h : create config numSlots numBlocks offloading = .ok p) : Sized p := by
  obtain ⟨hfresh, hpending, -⟩ := create_eff h
  refine ⟨fun r hr => ?_, fun rid promotion hsome => ?_⟩
  · rw [hfresh.objects] at hr
    exact absurd hr (Nat.not_lt_zero _)
  · rw [hpending] at hsome
    cases hsome

theorem run_sized [OffloadingManager σ] [BlockDigest] {ops : List (TieredOp σ)}
    (hrun : Run Step p ops p') (hp : Placed p) (hsized : Sized p) : Placed p' ∧ Sized p' :=
  hrun.invariant (I := fun p => Placed p ∧ Sized p) (fun _ _ _ h hstep =>
    have hchanges := apply_changes h.1 hstep
    ⟨h.1.changes hchanges, h.2.changes h.1 hchanges⟩) ⟨hp, hsized⟩

end OffloadPlanner

end RapidLlm
