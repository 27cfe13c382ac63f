import Mathlib.Algebra.BigOperators.Group.Finset.Basic
import Mathlib.Algebra.Module.Basic
import Mathlib.Data.List.GetD
import Mathlib.Data.Rat.Floor
import RapidLlm.Lib.Grouping
import RapidLlm.Lib.Outcome
import RapidLlm.Lib.Segments
import RapidLlm.Engine.BlockPool

/-!
# RapidLlm.Moe.AllToAll

**The expert-parallel token exchange** (`modules/moe/token_dispatcher/all_to_all.py` and the
kernels of `kernels/ops/moe/ep_dispatch.py`).

A rank places its routing slots in a buffer of one segment for each rank of the group, the
buffers are exchanged in equal splits, every rank runs its own experts on what it received,
and the results travel back to the slots they came from. Slots are placed by a stable sort,
or by tickets in whatever order these are granted.

`exchange_iff` says when the exchange is dense routing without the slots past the capacity
and runs no pad row: the sort path leaves the ids of its pad rows at `0`, which is an expert
of the first rank, so that rank's segment must be full.

A hidden state is an element of a module, and an expert a function on it.
-/

namespace RapidLlm

open Finset (range)
open Segments

/-- One row of an exchange buffer: a hidden state and the expert id after it. -/
structure PayloadRow (V : Type) where
  x : V
  id : Int

/-- One rank's side of a dispatch. -/
structure DispatchCall (R V : Type) where
  x : Nat → V
  topkIds : Nat → Nat → Nat
  topkWeights : Nat → Nat → R
  isCuda : Bool
  /-- `x.stride(1) == 1`. -/
  unitStride : Bool
  /-- The order in which the slots take their tickets. -/
  grants : List Nat
  /-- What uninitialised memory holds. -/
  stale : Nat → V

/-- What `dispatch_a` learned that the later phases need, with the buffer it sent. -/
structure DispatchHandle (R V : Type) where
  rows : Nat
  topK : Nat
  cap : Nat
  epSize : Nat
  /-- Flat slot of each sorted row; `none` after ticket placement. -/
  order : Option (List Nat)
  sendPos : Nat → Nat
  flatWeights : Nat → R
  sent : Nat → PayloadRow V

structure AllToAllDispatcher where
  numExperts : Nat
  numLocalExperts : Nat
  expertOffset : Nat
  capacityFactor : Option ℚ
  capacitySlack : Int
  fused : Bool

variable {R V : Type}

namespace DispatchCall

variable (call : DispatchCall R V) (topK : Nat)

/-- `topk_ids.reshape(-1)`. -/
def flatIds (slot : Nat) : Nat := call.topkIds (slot / topK) (slot % topK)

def flatWeights (slot : Nat) : R := call.topkWeights (slot / topK) (slot % topK)

end DispatchCall

namespace AllToAllDispatcher

variable (d : AllToAllDispatcher)

/-- Rows of the buffer for one destination rank. -/
def capacity (epSize n : Nat) : Int :=
  match d.capacityFactor with
  | none => n
  | some factor => min n (⌈(n : ℚ) / epSize * factor⌉ + d.capacitySlack)

/-- Whether a call places its slots by tickets. -/
def usesTickets (epSize : Nat) (call : DispatchCall R V) : Bool :=
  d.fused && d.capacityFactor.isNone && epSize ≤ 32 && call.isCuda && call.unitStride

/-- The rank a slot's expert lives on. -/
def dest (topK : Nat) (call : DispatchCall R V) (slot : Nat) : Nat :=
  call.flatIds topK slot / d.numLocalExperts

/-- What a slot puts into the buffer. -/
def slotRow (topK : Nat) (call : DispatchCall R V) (slot : Nat) : PayloadRow V where
  x := call.x (slot / topK)
  id := call.flatIds topK slot

/-- Placement by stable sort; slots past the capacity go to the trash row. -/
def sortDispatch [Zero V] (epSize cap rows topK : Nat) (call : DispatchCall R V) :
    DispatchHandle R V :=
  let n := rows * topK
  let order := stableOrder (d.dest topK call) n
  let sortedDest := order.map (d.dest topK call)
  let sendPos := fun i =>
    let dest := sortedDest.getD i 0
    let pos := i - searchsortedLeft sortedDest dest
    if pos < cap then dest * cap + pos else epSize * cap
  { rows
    topK
    cap
    epSize
    order := some order
    sendPos
    flatWeights := call.flatWeights topK
    -- the buffer starts out as zeros, its column of ids included
    sent := scatter n sendPos (fun i => slotRow topK call (order.getD i 0)) fun _ => ⟨0, 0⟩ }

/-- The counters and the buffer the placement kernel writes to. -/
structure TicketState (V : Type) where
  counters : Nat → Nat
  sendPos : Nat → Nat
  payload : Nat → PayloadRow V

/-- `_ep_prep_kernel`. -/
def prep (call : DispatchCall R V) : TicketState V where
  counters := fun _ => 0
  sendPos := fun _ => 0
  payload := fun row => ⟨call.stale row, -1⟩

/-- `_ep_place_scatter_kernel`, the program of one slot. -/
def placeScatter (cap topK : Nat) (call : DispatchCall R V) (state : TicketState V) (slot : Nat) :
    TicketState V :=
  let dest := d.dest topK call slot
  let pos := state.counters dest
  let sp := dest * cap + pos
  { counters := Function.update state.counters dest (pos + 1)
    sendPos := Function.update state.sendPos slot sp
    payload := Function.update state.payload sp (slotRow topK call slot) }

/-- Placement by tickets. -/
def ticketDispatch (epSize rows topK : Nat) (call : DispatchCall R V) : DispatchHandle R V :=
  let cap := rows * topK
  let placed := call.grants.foldl (d.placeScatter cap topK call) (prep call)
  { rows
    topK
    cap
    epSize
    order := none
    sendPos := placed.sendPos
    flatWeights := call.flatWeights topK
    sent := placed.payload }

/-- `dispatch_a`: permute the routing slots by destination rank and post the exchange. -/
def dispatchA [Zero V] (epSize rows topK : Nat) (call : DispatchCall R V) :
    Except Raised (DispatchHandle R V) :=
  let n := rows * topK
  let cap := d.capacity epSize n
  if !call.isCuda && (List.range n).any fun slot => d.numExperts ≤ call.flatIds topK slot then
    .error (.valueError s!"expert ids must be in [0, {d.numExperts})")
  else if epSize * d.numLocalExperts ≠ d.numExperts then
    .error (.valueError (s!"EP group of {epSize} cannot host {d.numExperts} experts in " ++
      s!"groups of {d.numLocalExperts}"))
  else if d.usesTickets epSize call then
    -- the row width is the size of the buffer over the number of its rows
    if epSize * n = 0 then .error (.zeroDivisionError "integer division or modulo by zero")
    else .ok (d.ticketDispatch epSize rows topK call)
  else if epSize * cap + 1 < 0 then
    .error (.runtimeError "Trying to create tensor with negative dimension")
  else if cap < 0 ∧ 0 < n then
    .error (.indexError "index -1 is out of bounds for dimension 0 with size 0")
  else .ok (d.sortDispatch epSize cap.toNat rows topK call)

/-- `dispatch_b`: global ids to local ones, `-1` for anything outside the window. -/
def localIds (recvIds : Nat → Int) (row : Nat) : Int :=
  let localId := recvIds row - d.expertOffset
  if 0 ≤ localId ∧ localId < d.numLocalExperts then localId else -1

end AllToAllDispatcher

/-- The grouped GEMM over a batch of rows: every routed expert of a row, its weight applied;
a slot with id `-1` is skipped. -/
def runExperts [SMul R V] [AddCommMonoid V] (expert : Nat → V → V) (topK : Nat) (x : Nat → V)
    (localIds : Nat → Nat → Int) (weights : Nat → Nat → R) (row : Nat) : V :=
  ∑ j ∈ range topK,
    if localIds row j = -1 then 0 else weights row j • expert (localIds row j).toNat (x row)

namespace DispatchHandle

variable [SMul R V] [AddCommMonoid V] (handle : DispatchHandle R V)

/-- `combine_b`: un-permute the results, weigh them, sum the slots of each token. -/
def combineB (recvOut : Nat → V) : Except Raised (Nat → V) :=
  match handle.order with
  | none =>
    -- `_ep_combine_kernel`
    .ok fun t => ∑ j ∈ range handle.topK,
      handle.flatWeights (t * handle.topK + j) • recvOut (handle.sendPos (t * handle.topK + j))
  | some order =>
    let n := handle.rows * handle.topK
    let recvOut := fun row => if row < handle.epSize * handle.cap then recvOut row else 0
    let resultsSorted := fun i => recvOut (handle.sendPos i)
    let resultsFlat := scatter n (fun i => order.getD i 0) resultsSorted fun _ => 0
    let weighted := fun slot => handle.flatWeights slot • resultsFlat slot
    if n = 0 then
      .error (.runtimeError (s!"cannot reshape tensor of 0 elements into shape " ++
        s!"[{handle.rows}, {handle.topK}, -1] because the unspecified dimension size -1 can be " ++
        "any value and is ambiguous"))
    else .ok fun t => ∑ j ∈ range handle.topK, weighted (t * handle.topK + j)

/-- The results of the sorted rows go back to the slots of these rows. -/
theorem combineB_sorted {order : List Nat} (horder : handle.order = some order)
    (hn : 0 < handle.rows * handle.topK) (recvOut : Nat → V) :
    handle.combineB recvOut = .ok fun t => ∑ j ∈ range handle.topK,
      handle.flatWeights (t * handle.topK + j) •
        scatter (handle.rows * handle.topK) (fun i => order.getD i 0)
          (fun i => if handle.sendPos i < handle.epSize * handle.cap
            then recvOut (handle.sendPos i) else 0) (fun _ => 0) (t * handle.topK + j) := by
  simp only [combineB, horder, if_neg hn.ne']

/-- Without slots the shape of the results is ambiguous. -/
theorem combineB_empty {order : List Nat} (horder : handle.order = some order)
    (hn : handle.rows * handle.topK = 0) (recvOut out : Nat → V) :
    handle.combineB recvOut ≠ .ok out := by
  simp only [combineB, horder, if_pos hn]
  exact nofun

end DispatchHandle

/-! ### The group -/

/-- An expert-parallel group: the experts tile its ranks. -/
structure EpGroup where
  epSize : Nat
  numLocalExperts : Nat
  capacityFactor : Option ℚ
  capacitySlack : Int
  fused : Bool
  epSize_pos : 0 < epSize
  numLocalExperts_pos : 0 < numLocalExperts

namespace EpGroup

variable (group : EpGroup)

def numExperts : Nat := group.epSize * group.numLocalExperts

/-- The dispatcher `rank` builds. -/
def dispatcher (rank : Nat) : AllToAllDispatcher where
  numExperts := group.numExperts
  numLocalExperts := group.numLocalExperts
  expertOffset := rank * group.numLocalExperts
  capacityFactor := group.capacityFactor.filter fun factor => 0 < factor
  capacitySlack := group.capacitySlack
  fused := group.fused

/-- The receive capacity, the same on every rank. -/
def capacity (n : Nat) : Int := (group.dispatcher 0).capacity group.epSize n

/-- The rank a slot's expert lives on. -/
def dest (topK : Nat) (call : DispatchCall R V) (slot : Nat) : Nat :=
  call.flatIds topK slot / group.numLocalExperts

end EpGroup

/-- The equal-split exchange: chunk `j` of rank `i`'s buffer lands on rank `j` as chunk `i`. -/
def allToAll {A : Type} (chunk : Nat) (send : Nat → Nat → A) (rank row : Nat) : A :=
  send (row / chunk) (rank * chunk + row % chunk)

/-! ### Placement -/

/-- What both ways of placing the slots come to: slot `s` is at `slotPos s` in the segment of
its destination unless it was dropped, and the other rows of the buffer are pads. -/
structure Placed (handle : DispatchHandle R V) (n : Nat) (dest slotPos : Nat → Nat)
    (row : Nat → PayloadRow V) (kept : Nat → Prop) (padId : Int) : Prop where
  kept_pos : ∀ s < n, kept s → ∃ pos < handle.cap, slotPos s = dest s * handle.cap + pos
  dropped_pos : ∀ s < n, ¬ kept s → slotPos s = handle.epSize * handle.cap
  sent_kept : ∀ s < n, kept s → handle.sent (slotPos s) = row s
  sent_pad : ∀ p < handle.epSize * handle.cap, (∀ s < n, slotPos s ≠ p) →
    (handle.sent p).id = padId

/-- A place in the segment of a rank of the group lies in the buffer. -/
theorem segment_lt {rank ranks cap pos : Nat} (hrank : rank < ranks) (hpos : pos < cap) :
    rank * cap + pos < ranks * cap :=
  calc rank * cap + pos < rank * cap + cap := Nat.add_lt_add_left hpos _
    _ = (rank + 1) * cap := (Nat.succ_mul rank cap).symm
    _ ≤ ranks * cap := Nat.mul_le_mul_right cap hrank

/-- Segment and place of a buffer row. -/
theorem segment_div (rank : Nat) {cap pos : Nat} (hpos : pos < cap) :
    (rank * cap + pos) / cap = rank ∧ (rank * cap + pos) % cap = pos :=
  div_mod_of_lt hpos

section StableSort

variable [Zero V] (d : AllToAllDispatcher) (epSize cap rows topK : Nat) (call : DispatchCall R V)

/-- Where the sort path puts a slot. -/
def sortPos (slot : Nat) : Nat :=
  let place := earlier (d.dest topK call) slot
  if place < cap then d.dest topK call slot * cap + place else epSize * cap

/-- The positions of the sorted rows are those of their slots. -/
theorem sortDispatch_sendPos {i : Nat} (hi : i < rows * topK) :
    (d.sortDispatch epSize cap rows topK call).sendPos i =
      sortPos d epSize cap topK call
        ((stableOrder (d.dest topK call) (rows * topK)).getD i 0) := by
  have hplace := place_stableOrder (d.dest topK call) hi
  have hlen : i < ((stableOrder (d.dest topK call) (rows * topK)).map (d.dest topK call)).length := by
    rwa [List.length_map, stableOrder_length]
  have hkey : ((stableOrder (d.dest topK call) (rows * topK)).map (d.dest topK call)).getD i 0 =
      d.dest topK call ((stableOrder (d.dest topK call) (rows * topK)).getD i 0) := by
    rw [List.getD_eq_getElem _ _ hlen, List.getElem_map, List.getD_eq_getElem]
  simp only [AllToAllDispatcher.sortDispatch, sortPos, hkey, hplace]

variable {d epSize cap rows topK call}

omit [Zero V] in
theorem sortPos_inj {s t : Nat} (hs : d.dest topK call s < epSize)
    (hkept : earlier (d.dest topK call) s < cap)
    (h : sortPos d epSize cap topK call s = sortPos d epSize cap topK call t) : s = t := by
  have hlt := segment_lt hs hkept
  by_cases hkept' : earlier (d.dest topK call) t < cap
  · simp only [sortPos, if_pos hkept, if_pos hkept'] at h
    obtain ⟨hdiv, hmod⟩ := segment_div (d.dest topK call s) hkept
    obtain ⟨hdiv', hmod'⟩ := segment_div (d.dest topK call t) hkept'
    have hkey : d.dest topK call s = d.dest topK call t := by rw [← hdiv, h, hdiv']
    exact earlier_inj hkey (by rw [← hmod, h, hmod'])
  · simp only [sortPos, if_pos hkept, if_neg hkept'] at h
    omega

/-- The sort path drops the slots past the capacity and leaves `0` in the column of ids. -/
theorem sortDispatch_placed (hdest : ∀ s < rows * topK, d.dest topK call s < epSize) :
    Placed (d.sortDispatch epSize cap rows topK call) (rows * topK) (d.dest topK call)
      (sortPos d epSize cap topK call) (AllToAllDispatcher.slotRow topK call)
      (fun s => earlier (d.dest topK call) s < cap) 0 where
  kept_pos s _ hkept := ⟨_, hkept, if_pos hkept⟩
  dropped_pos s _ hdropped := if_neg hdropped
  sent_kept s hs hkept := by
    obtain ⟨i, hi, hget⟩ := exists_getD_stableOrder (d.dest topK call) hs
    refine scatter_eq ⟨i, hi, ?_⟩ fun j hj hpos => ?_
    · exact (sortDispatch_sendPos d epSize cap rows topK call hi).trans (congrArg _ hget)
    · -- no other slot is put where `s` is
      have hpos := (sortDispatch_sendPos d epSize cap rows topK call hj).symm.trans hpos
      exact congrArg _ (sortPos_inj (hdest s hs) hkept hpos.symm).symm
  sent_pad p hp hpad := by
    refine congrArg PayloadRow.id (scatter_of_ne fun i hi hpos => ?_)
    have hpos := (sortDispatch_sendPos d epSize cap rows topK call hi).symm.trans hpos
    exact hpad _ (getD_stableOrder_lt _ hi) hpos

end StableSort

section Tickets

variable {d : AllToAllDispatcher} {epSize cap rows topK : Nat} {call : DispatchCall R V}

/-- What holds when the slots of `granted` have taken their tickets. -/
structure Ticketed (d : AllToAllDispatcher) (cap topK : Nat) (call : DispatchCall R V)
    (granted : List Nat) (state : AllToAllDispatcher.TicketState V) : Prop where
  counters_le : ∀ dest, state.counters dest ≤ granted.length
  placed : ∀ s ∈ granted, ∃ pos < state.counters (d.dest topK call s),
    state.sendPos s = d.dest topK call s * cap + pos
  written : ∀ s ∈ granted,
    state.payload (state.sendPos s) = AllToAllDispatcher.slotRow topK call s
  pads : ∀ p, (∀ s ∈ granted, state.sendPos s ≠ p) → (state.payload p).id = -1

theorem ticketed_prep : Ticketed d cap topK call [] (AllToAllDispatcher.prep call) where
  counters_le _ := le_rfl
  placed _ h := absurd h List.not_mem_nil
  written _ h := absurd h List.not_mem_nil
  pads _ _ := rfl

/-- One more slot takes the next place of its segment, where nobody is yet. -/
theorem Ticketed.step {granted : List Nat} {state : AllToAllDispatcher.TicketState V} {slot : Nat}
    (h : Ticketed d cap topK call granted state) (hnew : slot ∉ granted)
    (hcap : granted.length < cap) :
    Ticketed d cap topK call (granted ++ [slot]) (d.placeScatter cap topK call state slot) := by
  let dest := d.dest topK call slot
  let sp := dest * cap + state.counters dest
  have hfree : ∀ s ∈ granted, state.sendPos s ≠ sp := by
    intro s hs heq
    obtain ⟨pos, hpos, hsend⟩ := h.placed s hs
    have hcount := h.counters_le (d.dest topK call s)
    have hcount' := h.counters_le dest
    obtain ⟨hdiv, hmod⟩ := segment_div (d.dest topK call s) (show pos < cap by omega)
    obtain ⟨hdiv', hmod'⟩ := segment_div dest (show state.counters dest < cap by omega)
    have hsame : d.dest topK call s * cap + pos = sp := hsend.symm.trans heq
    have hkey : d.dest topK call s = dest := by rw [← hdiv, hsame, hdiv']
    have hplace : pos = state.counters dest := by rw [← hmod, hsame, hmod']
    rw [hkey] at hpos
    omega
  have hcounters : (d.placeScatter cap topK call state slot).counters =
      Function.update state.counters dest (state.counters dest + 1) := rfl
  have hsendPos : (d.placeScatter cap topK call state slot).sendPos =
      Function.update state.sendPos slot sp := rfl
  have hpayload : (d.placeScatter cap topK call state slot).payload =
      Function.update state.payload sp (AllToAllDispatcher.slotRow topK call slot) := rfl
  have hold : ∀ s ∈ granted, (d.placeScatter cap topK call state slot).sendPos s =
      state.sendPos s := by
    intro s hs
    have hne : s ≠ slot := fun heq => hnew (heq ▸ hs)
    rw [hsendPos, Function.update_of_ne hne]
  have hself : (d.placeScatter cap topK call state slot).sendPos slot = sp := by
    rw [hsendPos, Function.update_self]
  have hgrows : ∀ other, state.counters other ≤
      (d.placeScatter cap topK call state slot).counters other := by
    intro other
    rw [hcounters]
    by_cases hother : other = dest
    · rw [hother, Function.update_self]
      exact Nat.le_succ _
    · rw [Function.update_of_ne hother]
  refine ⟨fun other => ?_, fun s hs => ?_, fun s hs => ?_, fun p hp => ?_⟩
  · rw [List.length_append, List.length_singleton, hcounters]
    have hcount := h.counters_le other
    by_cases hother : other = dest
    · rw [hother] at hcount ⊢
      rw [Function.update_self]
      exact Nat.succ_le_succ hcount
    · rw [Function.update_of_ne hother]
      exact Nat.le_succ_of_le hcount
  · rcases List.mem_append.mp hs with hs | hs
    · obtain ⟨pos, hpos, hsend⟩ := h.placed s hs
      exact ⟨pos, Nat.lt_of_lt_of_le hpos (hgrows _), (hold s hs).trans hsend⟩
    · rw [List.mem_singleton.mp hs]
      refine ⟨state.counters dest, ?_, hself⟩
      rw [hcounters, Function.update_self]
      exact Nat.lt_succ_self _
  · rcases List.mem_append.mp hs with hs | hs
    · rw [hold s hs, hpayload, Function.update_of_ne (hfree s hs)]
      exact h.written s hs
    · rw [List.mem_singleton.mp hs, hself, hpayload, Function.update_self]
  · have hne : p ≠ sp := fun heq =>
      hp slot (List.mem_append_right _ (List.mem_singleton_self slot)) (hself.trans heq.symm)
    rw [hpayload, Function.update_of_ne hne]
    refine h.pads p fun s hs heq => ?_
    exact hp s (List.mem_append_left _ hs) ((hold s hs).trans heq)

theorem Ticketed.run {granted : List Nat} {state : AllToAllDispatcher.TicketState V}
    (h : Ticketed d cap topK call granted state) (rest : List Nat)
    (hnodup : (granted ++ rest).Nodup) (hcap : (granted ++ rest).length ≤ cap) :
    Ticketed d cap topK call (granted ++ rest)
      (rest.foldl (d.placeScatter cap topK call) state) := by
  induction rest generalizing granted state with
  | nil => rwa [List.append_nil]
  | cons slot rest ih =>
    have hsplit : granted ++ slot :: rest = (granted ++ [slot]) ++ rest :=
      (List.append_cons granted slot rest)
    rw [hsplit] at hnodup hcap ⊢
    have hnew : slot ∉ granted := fun hmem =>
      (List.nodup_append.mp (List.nodup_append.mp hnodup).1).2.2 slot hmem slot
        (List.mem_singleton_self slot) rfl
    have hlen : granted.length < cap := by
      simp only [List.length_append, List.length_singleton] at hcap
      omega
    exact ih (h.step hnew hlen) hnodup hcap

/-- The ticket path keeps every slot, in whatever order the tickets are granted, and the ids of
its pad rows are `-1`. -/
theorem ticketDispatch_placed (hgrants : call.grants.Perm (List.range (rows * topK))) :
    Placed (d.ticketDispatch epSize rows topK call) (rows * topK) (d.dest topK call)
      (d.ticketDispatch epSize rows topK call).sendPos (AllToAllDispatcher.slotRow topK call)
      (fun s => earlier (d.dest topK call) s < rows * topK) (-1) := by
  have hlen : call.grants.length = rows * topK := by rw [hgrants.length_eq, List.length_range]
  have hmem : ∀ s < rows * topK, s ∈ call.grants := fun s hs =>
    hgrants.mem_iff.mpr (List.mem_range.mpr hs)
  have hrun : Ticketed d (rows * topK) topK call call.grants
      (call.grants.foldl (d.placeScatter (rows * topK) topK call)
        (AllToAllDispatcher.prep call)) :=
    ticketed_prep.run call.grants (hgrants.nodup_iff.mpr List.nodup_range) hlen.le
  refine ⟨fun s hs _ => ?_, fun s hs hdropped => ?_, fun s hs _ => hrun.written s (hmem s hs),
    fun p _ hpad => hrun.pads p fun s hs => ?_⟩
  · obtain ⟨pos, hpos, hsend⟩ := hrun.placed s (hmem s hs)
    have hcount := hrun.counters_le (d.dest topK call s)
    exact ⟨pos, by rw [hlen] at hcount; exact Nat.lt_of_lt_of_le hpos hcount, hsend⟩
  · exact absurd (Nat.lt_of_le_of_lt held_le hs) hdropped
  · exact hpad s (List.mem_range.mp (hgrants.mem_iff.mp hs))

end Tickets

/-! ### Every rank's dispatch -/

section Dispatch

/-- The calls of a group agree on the shape of the routing, their ids are experts, and every
slot takes one ticket. -/
structure Routed (group : EpGroup) (rows topK : Nat) (calls : Nat → DispatchCall R V) : Prop where
  ids_lt : ∀ rank < group.epSize, ∀ t < rows, ∀ j < topK,
    (calls rank).topkIds t j < group.numExperts
  grants_perm : ∀ rank < group.epSize, (calls rank).grants.Perm (List.range (rows * topK))

variable {group : EpGroup} {rows topK rank : Nat} {calls : Nat → DispatchCall R V}
  {handle : DispatchHandle R V}

theorem Routed.slot_lt (h : Routed group rows topK calls) (hrank : rank < group.epSize) {slot : Nat}
    (hslot : slot < rows * topK) : (calls rank).flatIds topK slot < group.numExperts := by
  have htopK : 0 < topK := Nat.pos_of_ne_zero fun h0 => by
    rw [h0, Nat.mul_zero] at hslot
    exact Nat.not_lt_zero _ hslot
  exact h.ids_lt rank hrank _ ((Nat.div_lt_iff_lt_mul htopK).mpr hslot) _ (Nat.mod_lt slot htopK)

/-- Every slot goes to a rank of the group. -/
theorem Routed.dest_lt (h : Routed group rows topK calls) (hrank : rank < group.epSize) {slot : Nat}
    (hslot : slot < rows * topK) : group.dest topK (calls rank) slot < group.epSize :=
  (Nat.div_lt_iff_lt_mul group.numLocalExperts_pos).mpr (h.slot_lt hrank hslot)

/-- What the ticket path asks for leaves the capacity unbounded. -/
theorem capacity_of_tickets {call : DispatchCall R V}
    (h : (group.dispatcher rank).usesTickets group.epSize call = true) (n : Nat) :
    group.capacity n = n := by
  unfold AllToAllDispatcher.usesTickets at h
  simp only [Bool.and_eq_true] at h
  have hnone : (group.dispatcher 0).capacityFactor = none := Option.isNone_iff_eq_none.mp h.1.1.1.2
  rw [EpGroup.capacity, AllToAllDispatcher.capacity, hnone]

variable [Zero V]

/-- A dispatch that returns placed its slots in one of the two ways. -/
theorem dispatchA_inv
    (h : (group.dispatcher rank).dispatchA group.epSize rows topK (calls rank) = .ok handle) :
    ((group.dispatcher rank).usesTickets group.epSize (calls rank) = true ∧ 0 < rows * topK ∧
      handle = (group.dispatcher rank).ticketDispatch group.epSize rows topK (calls rank)) ∨
    ((group.dispatcher rank).usesTickets group.epSize (calls rank) = false ∧
      (0 ≤ group.capacity (rows * topK) ∨ rows * topK = 0) ∧
      handle = (group.dispatcher rank).sortDispatch group.epSize
        (group.capacity (rows * topK)).toNat rows topK (calls rank)) := by
  simp only [AllToAllDispatcher.dispatchA] at h
  split at h
  · cases h
  split at h
  · cases h
  split at h
  · rename_i htickets
    split at h
    · cases h
    · rename_i hn
      cases h
      exact .inl ⟨htickets, Nat.pos_of_ne_zero fun h0 => hn (by rw [h0, Nat.mul_zero]), rfl⟩
  · rename_i htickets
    split at h
    · cases h
    split at h
    · cases h
    · rename_i hcap
      cases h
      have hcap : 0 ≤ group.capacity (rows * topK) ∨ rows * topK = 0 := by
        change ¬ (group.capacity (rows * topK) < 0 ∧ 0 < rows * topK) at hcap
        omega
      exact .inr ⟨Bool.eq_false_iff.mpr htickets, hcap, rfl⟩

/-- A dispatch over slots, with a capacity that is not negative, returns. -/
theorem dispatchA_ok (hrouted : Routed group rows topK calls) (hrank : rank < group.epSize)
    (hn : 0 < rows * topK) (hcap : 0 ≤ group.capacity (rows * topK)) :
    (group.dispatcher rank).dispatchA group.epSize rows topK (calls rank) =
      .ok (if (group.dispatcher rank).usesTickets group.epSize (calls rank) = true then
        (group.dispatcher rank).ticketDispatch group.epSize rows topK (calls rank)
      else (group.dispatcher rank).sortDispatch group.epSize
        (group.capacity (rows * topK)).toNat rows topK (calls rank)) := by
  have hids : ¬ (!(calls rank).isCuda && (List.range (rows * topK)).any fun slot =>
      decide ((group.dispatcher rank).numExperts ≤ (calls rank).flatIds topK slot)) = true := by
    rw [Bool.and_eq_true, List.any_eq_true]
    rintro ⟨-, slot, hslot, hge⟩
    have hlt := hrouted.slot_lt hrank (List.mem_range.mp hslot)
    exact absurd (of_decide_eq_true hge) (Nat.not_le_of_lt hlt)
  have htile : ¬ group.epSize * (group.dispatcher rank).numLocalExperts ≠
      (group.dispatcher rank).numExperts := fun h => h rfl
  have hbuf : group.epSize * (rows * topK) ≠ 0 := (Nat.mul_pos group.epSize_pos hn).ne'
  have hcap' : 0 ≤ (group.dispatcher rank).capacity group.epSize (rows * topK) := hcap
  have hsize : ¬ (group.epSize : Int) *
      (group.dispatcher rank).capacity group.epSize (rows * topK) + 1 < 0 := by
    have := Int.mul_nonneg (Int.natCast_nonneg group.epSize) hcap'
    omega
  have hneg : ¬ ((group.dispatcher rank).capacity group.epSize (rows * topK) < 0 ∧
      0 < rows * topK) := by omega
  simp only [AllToAllDispatcher.dispatchA, if_neg hids, if_neg htile, if_neg hbuf, if_neg hsize,
    if_neg hneg]
  split <;> rfl

end Dispatch

/-! ### One exchange of the group -/

section Exchange

variable [Semiring R] [AddCommMonoid V] [Module R V]

namespace EpGroup

variable (group : EpGroup) (handle : Nat → DispatchHandle R V) (expert : Nat → V → V)

/-- What a rank receives. -/
def recv (rank row : Nat) : PayloadRow V :=
  allToAll (handle rank).cap (fun sender => (handle sender).sent) rank row

/-- The ids of the experts a rank runs on what it received. -/
def rankIds (rank row : Nat) : Int :=
  (group.dispatcher rank).localIds (fun row => (recv handle rank row).id) row

/-- Its experts' results, with unit weights. -/
def localOut (rank row : Nat) : V :=
  runExperts (fun localId => expert (rank * group.numLocalExperts + localId)) 1
    (fun row => (recv handle rank row).x) (fun row _ => group.rankIds handle rank row)
    (fun _ _ => (1 : R)) row

/-- The results that come back to a rank. -/
def recvOut (rank row : Nat) : V :=
  allToAll (handle rank).cap (group.localOut handle expert) rank row

end EpGroup

/-- An exchange in which every rank of the group returns. -/
structure ExchangeRun (group : EpGroup) (rows topK : Nat) (calls : Nat → DispatchCall R V)
    (expert : Nat → V → V) where
  handle : Nat → DispatchHandle R V
  out : Nat → Nat → V
  dispatched : ∀ rank < group.epSize,
    (group.dispatcher rank).dispatchA group.epSize rows topK (calls rank) = .ok (handle rank)
  combined : ∀ rank < group.epSize,
    (handle rank).combineB (group.recvOut handle expert rank) = .ok (out rank)

/-- The routed experts of a token, weighted. -/
def routedSum (expert : Nat → V → V) (topK : Nat) (call : DispatchCall R V) (t : Nat) : V :=
  ∑ j ∈ range topK, call.topkWeights t j • expert (call.topkIds t j) (call.x t)

/-- The same without the slots that have `cap` earlier slots of their destination. -/
def cappedSum (group : EpGroup) (expert : Nat → V → V) (cap topK : Nat) (call : DispatchCall R V)
    (t : Nat) : V :=
  ∑ j ∈ range topK,
    if cap ≤ earlier (group.dest topK call) (t * topK + j) then 0
    else call.topkWeights t j • expert (call.topkIds t j) (call.x t)

namespace ExchangeRun

variable {group : EpGroup} {rows topK : Nat} {calls : Nat → DispatchCall R V}
  {expert : Nat → V → V}

/-- A row of a rank's batch that no slot was sent to. -/
def IsPad (run : ExchangeRun group rows topK calls expert) (rank row : Nat) : Prop :=
  ∀ slot < rows * topK, (run.handle (row / (run.handle rank).cap)).sendPos slot ≠
    rank * (run.handle rank).cap + row % (run.handle rank).cap

/-- No rank runs an expert on a pad row. -/
def SkipsPads (run : ExchangeRun group rows topK calls expert) : Prop :=
  ∀ rank < group.epSize, ∀ row < group.epSize * (run.handle rank).cap,
    run.IsPad rank row → group.rankIds run.handle rank row = -1

end ExchangeRun

/-- The exchange is dense routing without the slots past the capacity, and runs no pad row. -/
def ExchangeRight (group : EpGroup) (rows topK : Nat) (calls : Nat → DispatchCall R V)
    (expert : Nat → V → V) : Prop :=
  ∃ run : ExchangeRun group rows topK calls expert,
    (∀ rank < group.epSize, ∀ t < rows, run.out rank t =
      cappedSum group expert (group.capacity (rows * topK)).toNat topK (calls rank) t) ∧
    ((group.dispatcher 0).capacityFactor = none → ∀ rank < group.epSize, ∀ t < rows,
      run.out rank t = routedSum expert topK (calls rank) t) ∧
    run.SkipsPads

/-! ### What a rank sends, and what it makes of the answers -/

/-- What a dispatch amounts to for the exchange, whichever way the slots were placed. -/
structure Sends (group : EpGroup) (rows topK cap : Nat) (call : DispatchCall R V)
    (handle : DispatchHandle R V) (slotPos : Nat → Nat) (padId : Int) : Prop
    extends Placed handle (rows * topK) (group.dest topK call) slotPos
      (AllToAllDispatcher.slotRow topK call)
      (fun s => earlier (group.dest topK call) s < cap) padId where
  cap_eq : handle.cap = cap
  epSize_eq : handle.epSize = group.epSize
  unsent_iff : ∀ p, (∀ s < rows * topK, handle.sendPos s ≠ p) ↔ ∀ s < rows * topK, slotPos s ≠ p
  combine_eq : ∀ recvOut out, handle.combineB recvOut = .ok out → ∀ t < rows, out t =
    ∑ j ∈ range topK, call.topkWeights t j •
      if earlier (group.dest topK call) (t * topK + j) < cap
      then recvOut (slotPos (t * topK + j)) else 0

section Rank

variable {group : EpGroup} {rows topK cap rank : Nat} {call : DispatchCall R V}
  {calls : Nat → DispatchCall R V} {handle : DispatchHandle R V}

/-- Row and column of a slot. -/
theorem slot_lt {t j : Nat} (ht : t < rows) (hj : j < topK) : t * topK + j < rows * topK :=
  segment_lt ht hj

omit [Semiring R] [AddCommMonoid V] [Module R V] in
theorem flatIds_slot {t j : Nat} (hj : j < topK) :
    call.flatIds topK (t * topK + j) = call.topkIds t j := by
  obtain ⟨hdiv, hmod⟩ := segment_div t hj
  rw [DispatchCall.flatIds, hdiv, hmod]

omit [Semiring R] [AddCommMonoid V] [Module R V] in
theorem flatWeights_slot {t j : Nat} (hj : j < topK) :
    call.flatWeights topK (t * topK + j) = call.topkWeights t j := by
  obtain ⟨hdiv, hmod⟩ := segment_div t hj
  rw [DispatchCall.flatWeights, hdiv, hmod]

theorem ticketDispatch_sends (hgrants : call.grants.Perm (List.range (rows * topK))) :
    Sends group rows topK (rows * topK) call
      ((group.dispatcher rank).ticketDispatch group.epSize rows topK call)
      ((group.dispatcher rank).ticketDispatch group.epSize rows topK call).sendPos (-1) where
  toPlaced := ticketDispatch_placed hgrants
  cap_eq := rfl
  epSize_eq := rfl
  unsent_iff _ := Iff.rfl
  combine_eq recvOut out h t ht := by
    cases h
    refine Finset.sum_congr rfl fun j hj => ?_
    have hj := Finset.mem_range.mp hj
    have hkept : earlier (group.dest topK call) (t * topK + j) < rows * topK :=
      Nat.lt_of_le_of_lt held_le (slot_lt ht hj)
    rw [if_pos hkept]
    exact congrArg (· • _) (flatWeights_slot hj)

variable (group cap rank call) in
theorem sortDispatch_sends (hdest : ∀ s < rows * topK, group.dest topK call s < group.epSize) :
    Sends group rows topK cap call
      ((group.dispatcher rank).sortDispatch group.epSize cap rows topK call)
      (sortPos (group.dispatcher rank) group.epSize cap topK call) 0 where
  toPlaced := sortDispatch_placed hdest
  cap_eq := rfl
  epSize_eq := rfl
  unsent_iff p := by
    constructor
    · intro h s hs heq
      obtain ⟨i, hi, hget⟩ := exists_getD_stableOrder
        ((group.dispatcher rank).dest topK call) hs
      refine h i hi ((sortDispatch_sendPos _ _ _ _ _ _ hi).trans ?_)
      rw [hget, heq]
    · intro h i hi heq
      exact h _ (getD_stableOrder_lt _ hi) ((sortDispatch_sendPos _ _ _ _ _ _ hi).symm.trans heq)
  combine_eq recvOut out h t ht := by
    rcases Nat.eq_zero_or_pos (rows * topK) with hn | hn
    · exact absurd h (DispatchHandle.combineB_empty _ rfl hn _ _)
    rw [DispatchHandle.combineB_sorted _ rfl hn] at h
    cases h
    refine Finset.sum_congr rfl fun j hj => ?_
    have hj := Finset.mem_range.mp hj
    have hslot := slot_lt ht hj
    refine congrArg₂ (· • ·) (flatWeights_slot hj) ?_
    obtain ⟨i, hi, hget⟩ := exists_getD_stableOrder
      ((group.dispatcher rank).dest topK call) hslot
    refine scatter_eq ⟨i, hi, hget⟩ fun k hk hslot' => ?_
    -- a row that goes back to this slot was sent from this slot
    have hpos := sortDispatch_sendPos (group.dispatcher rank) group.epSize cap rows topK call hk
    rw [show (stableOrder ((group.dispatcher rank).dest topK call) (rows * topK)).getD k 0 =
      t * topK + j from hslot'] at hpos
    rw [hpos]
    by_cases hkept : earlier (group.dest topK call) (t * topK + j) < cap
    · have hlt := segment_lt (hdest _ hslot) hkept
      have hplace : sortPos (group.dispatcher rank) group.epSize cap topK call (t * topK + j) =
        group.dest topK call (t * topK + j) * cap +
          earlier (group.dest topK call) (t * topK + j) := if_pos hkept
      rw [if_pos hkept, hplace]
      exact if_pos hlt
    · have hplace : sortPos (group.dispatcher rank) group.epSize cap topK call (t * topK + j) =
        group.epSize * cap := if_neg hkept
      rw [if_neg hkept, hplace]
      exact if_neg (lt_irrefl _)

/-- A dispatch that returns sends its slots, and pads with the id its path leaves. -/
theorem sends_of_dispatchA (hrouted : Routed group rows topK calls) (hrank : rank < group.epSize)
    (h : (group.dispatcher rank).dispatchA group.epSize rows topK (calls rank) = .ok handle) :
    ∃ slotPos, Sends group rows topK (group.capacity (rows * topK)).toNat (calls rank) handle
      slotPos (if (group.dispatcher rank).usesTickets group.epSize (calls rank) = true then -1
        else 0) := by
  rcases dispatchA_inv h with ⟨htickets, -, rfl⟩ | ⟨htickets, -, rfl⟩
  · have hcap : (group.capacity (rows * topK)).toNat = rows * topK := by
      rw [capacity_of_tickets htickets, Int.toNat_natCast]
    rw [if_pos htickets, hcap]
    exact ⟨_, ticketDispatch_sends (hrouted.grants_perm rank hrank)⟩
  · rw [if_neg (by rw [htickets]; exact Bool.false_ne_true)]
    exact ⟨_, sortDispatch_sends _ _ _ _ fun s hs => hrouted.dest_lt hrank hs⟩

end Rank

/-! ### The exchange is dense routing -/

namespace ExchangeRun

variable {group : EpGroup} {rows topK rank : Nat} {calls : Nat → DispatchCall R V}
  {expert : Nat → V → V} (run : ExchangeRun group rows topK calls expert)

/-- Every rank sends its slots, in segments of one capacity. -/
theorem sends (hrouted : Routed group rows topK calls) (hrank : rank < group.epSize) :
    ∃ slotPos, Sends group rows topK (group.capacity (rows * topK)).toNat (calls rank)
      (run.handle rank) slotPos
      (if (group.dispatcher rank).usesTickets group.epSize (calls rank) = true then -1 else 0) :=
  sends_of_dispatchA hrouted hrank (run.dispatched rank hrank)

theorem cap_eq (hrouted : Routed group rows topK calls) (hrank : rank < group.epSize) :
    (run.handle rank).cap = (group.capacity (rows * topK)).toNat := by
  obtain ⟨slotPos, hsends⟩ := run.sends hrouted hrank
  exact hsends.cap_eq

/-- Where a row of a rank's batch was sent from. -/
theorem recv_eq (hrouted : Routed group rows topK calls) (sender : Nat) {pos : Nat}
    (hrank : rank < group.epSize) (hpos : pos < (group.capacity (rows * topK)).toNat) :
    EpGroup.recv run.handle rank (sender * (group.capacity (rows * topK)).toNat + pos) =
      (run.handle sender).sent (rank * (group.capacity (rows * topK)).toNat + pos) := by
  obtain ⟨hdiv, hmod⟩ := segment_div sender hpos
  rw [EpGroup.recv, allToAll, run.cap_eq hrouted hrank, hdiv, hmod]

/-- A slot that is sent comes back with the result of its expert. -/
theorem recvOut_slot (hrouted : Routed group rows topK calls) {slot : Nat} {slotPos : Nat → Nat}
    {padId : Int} (hrank : rank < group.epSize)
    (hsends : Sends group rows topK (group.capacity (rows * topK)).toNat (calls rank)
      (run.handle rank) slotPos padId)
    (hslot : slot < rows * topK)
    (hkept : earlier (group.dest topK (calls rank)) slot <
      (group.capacity (rows * topK)).toNat) :
    group.recvOut run.handle expert rank (slotPos slot) =
      expert ((calls rank).flatIds topK slot) ((calls rank).x (slot / topK)) := by
  let dest := group.dest topK (calls rank) slot
  have hdest : dest < group.epSize := hrouted.dest_lt hrank hslot
  obtain ⟨pos, hpos, hplace⟩ := hsends.kept_pos slot hslot hkept
  rw [hsends.cap_eq] at hpos hplace
  have hrow : EpGroup.recv run.handle dest
      (rank * (group.capacity (rows * topK)).toNat + pos) =
        AllToAllDispatcher.slotRow topK (calls rank) slot := by
    rw [run.recv_eq hrouted rank hdest hpos, ← hplace]
    exact hsends.sent_kept slot hslot hkept
  -- the destination's window holds the slot's expert
  have hlow : dest * group.numLocalExperts ≤ (calls rank).flatIds topK slot :=
    Nat.div_mul_le_self _ _
  have hhigh : (calls rank).flatIds topK slot < dest * group.numLocalExperts +
      group.numLocalExperts := by
    rw [← Nat.succ_mul]
    exact Nat.lt_mul_of_div_lt (Nat.lt_succ_self _) group.numLocalExperts_pos
  have hid : group.rankIds run.handle dest
      (rank * (group.capacity (rows * topK)).toNat + pos) =
        ((calls rank).flatIds topK slot : Int) - (dest * group.numLocalExperts : Nat) := by
    rw [EpGroup.rankIds, AllToAllDispatcher.localIds, hrow]
    refine if_pos ?_
    simp only [AllToAllDispatcher.slotRow, EpGroup.dispatcher]
    omega
  have hne : ((calls rank).flatIds topK slot : Int) - (dest * group.numLocalExperts : Nat) ≠
      -1 := by omega
  have hlocal : dest * group.numLocalExperts +
      (((calls rank).flatIds topK slot : Int) - (dest * group.numLocalExperts : Nat)).toNat =
        (calls rank).flatIds topK slot := by omega
  obtain ⟨hdiv, hmod⟩ := segment_div dest hpos
  rw [EpGroup.recvOut, allToAll, run.cap_eq hrouted hrank, hplace]
  change group.localOut run.handle expert ((dest * _ + pos) / _) (rank * _ + (dest * _ + pos) % _) = _
  rw [hdiv, hmod, EpGroup.localOut, runExperts, Finset.sum_range_one, hid, if_neg hne, one_smul,
    hlocal, hrow]
  rfl

/-- Every rank gets the routed sum of its tokens without the slots past the capacity. -/
theorem out_eq (hrouted : Routed group rows topK calls) (hrank : rank < group.epSize) {t : Nat}
    (ht : t < rows) :
    run.out rank t = cappedSum group expert (group.capacity (rows * topK)).toNat topK
      (calls rank) t := by
  obtain ⟨slotPos, hsends⟩ := run.sends hrouted hrank
  rw [hsends.combine_eq _ _ (run.combined rank hrank) t ht, cappedSum]
  refine Finset.sum_congr rfl fun j hj => ?_
  have hj := Finset.mem_range.mp hj
  have hslot := slot_lt ht hj
  by_cases hkept : earlier (group.dest topK (calls rank)) (t * topK + j) <
      (group.capacity (rows * topK)).toNat
  · obtain ⟨hdiv, -⟩ := segment_div t hj
    rw [if_pos hkept, if_neg (Nat.not_le_of_lt hkept),
      run.recvOut_slot hrouted hrank hsends hslot hkept, flatIds_slot hj, hdiv]
  · rw [if_neg hkept, if_pos (Nat.le_of_not_lt hkept), smul_zero]

/-- With the capacity unbounded no slot is dropped. -/
theorem out_eq_of_unbounded (hrouted : Routed group rows topK calls)
    (hfactor : (group.dispatcher 0).capacityFactor = none) (hrank : rank < group.epSize) {t : Nat}
    (ht : t < rows) : run.out rank t = routedSum expert topK (calls rank) t := by
  have hcap : (group.capacity (rows * topK)).toNat = rows * topK := by
    rw [EpGroup.capacity, AllToAllDispatcher.capacity, hfactor, Int.toNat_natCast]
  rw [run.out_eq hrouted hrank ht, cappedSum, routedSum, hcap]
  refine Finset.sum_congr rfl fun j hj => if_neg ?_
  have hslot := slot_lt ht (Finset.mem_range.mp hj)
  exact Nat.not_le_of_lt (Nat.lt_of_le_of_lt held_le hslot)

/-- The first rank's segment of a sender that sorts is full, or its first free row is a pad
that rank runs an expert on. -/
theorem full_of_skipsPads (hrouted : Routed group rows topK calls) (hskips : run.SkipsPads)
    (hrank : rank < group.epSize)
    (hsort : (group.dispatcher rank).usesTickets group.epSize (calls rank) = false) :
    (group.capacity (rows * topK)).toNat ≤ held (group.dest topK (calls rank)) (rows * topK) 0 := by
  by_contra hfree
  have hfree := Nat.lt_of_not_le hfree
  obtain ⟨htickets, -, -⟩ | ⟨-, -, hhandle⟩ := dispatchA_inv (run.dispatched rank hrank)
  · rw [hsort] at htickets
    cases htickets
  have hsends := sortDispatch_sends group (group.capacity (rows * topK)).toNat rank (calls rank)
    fun s hs => hrouted.dest_lt hrank hs
  rw [← hhandle] at hsends
  have hunsent : ∀ slot < rows * topK, (run.handle rank).sendPos slot ≠
      held (group.dest topK (calls rank)) (rows * topK) 0 := by
    refine (hsends.unsent_iff _).mpr fun slot hslot heq => ?_
    by_cases hkept : earlier (group.dest topK (calls rank)) slot <
        (group.capacity (rows * topK)).toNat
    · have hplace : group.dest topK (calls rank) slot * (group.capacity (rows * topK)).toNat +
          earlier (group.dest topK (calls rank)) slot =
            held (group.dest topK (calls rank)) (rows * topK) 0 := (if_pos hkept).symm.trans heq
      have hdest : group.dest topK (calls rank) slot = 0 := by
        have hdiv := (segment_div (group.dest topK (calls rank) slot) hkept).1
        rwa [hplace, Nat.div_eq_of_lt hfree, eq_comm] at hdiv
      have hbefore := earlier_lt_held (group.dest topK (calls rank)) hslot
      rw [hdest] at hplace hbefore
      omega
    · have hplace : group.epSize * (group.capacity (rows * topK)).toNat =
          held (group.dest topK (calls rank)) (rows * topK) 0 := (if_neg hkept).symm.trans heq
      have hle := Nat.le_mul_of_pos_left (group.capacity (rows * topK)).toNat group.epSize_pos
      omega
  have hcap := run.cap_eq hrouted group.epSize_pos
  obtain ⟨hdiv, hmod⟩ := segment_div rank hfree
  have hpad : run.IsPad 0 (rank * (group.capacity (rows * topK)).toNat +
      held (group.dest topK (calls rank)) (rows * topK) 0) := by
    intro slot hslot
    rw [hcap, hdiv, hmod, Nat.zero_mul, Nat.zero_add]
    exact hunsent slot hslot
  have hskip := hskips 0 group.epSize_pos _ (by rw [hcap]; exact segment_lt hrank hfree) hpad
  rw [EpGroup.rankIds, AllToAllDispatcher.localIds, run.recv_eq hrouted rank group.epSize_pos hfree,
    Nat.zero_mul, Nat.zero_add, hsends.sent_pad _ _ ((hsends.unsent_iff _).mp hunsent)] at hskip
  · have hlocal := group.numLocalExperts_pos
    simp [EpGroup.dispatcher, hlocal] at hskip
  · rw [hsends.cap_eq, hsends.epSize_eq]
    exact Nat.lt_of_lt_of_le hfree (Nat.le_mul_of_pos_left _ group.epSize_pos)

/-- With tickets, or with the first rank's segment full, every pad row is skipped. -/
theorem skipsPads_of_full (hrouted : Routed group rows topK calls)
    (hfull : ∀ rank < group.epSize,
      (group.dispatcher rank).usesTickets group.epSize (calls rank) = true ∨
        (group.capacity (rows * topK)).toNat ≤
          held (group.dest topK (calls rank)) (rows * topK) 0) : run.SkipsPads := by
  intro rank hrank row hrow hpad
  have hcap := run.cap_eq hrouted hrank
  let cap := (group.capacity (rows * topK)).toNat
  have hpos : 0 < cap := Nat.pos_of_ne_zero fun h0 => by
    rw [hcap, show (group.capacity (rows * topK)).toNat = 0 from h0, Nat.mul_zero] at hrow
    exact Nat.not_lt_zero _ hrow
  rw [hcap] at hrow
  rw [IsPad, hcap] at hpad
  have hsender : row / cap < group.epSize := (Nat.div_lt_iff_lt_mul hpos).mpr hrow
  have hplace : row % cap < cap := Nat.mod_lt row hpos
  have hsplit : row / cap * cap + row % cap = row := by
    rw [Nat.mul_comm]
    exact Nat.div_add_mod row cap
  have hrecv := run.recv_eq hrouted (row / cap) hrank hplace
  rw [hsplit] at hrecv
  rw [EpGroup.rankIds, AllToAllDispatcher.localIds, hrecv]
  obtain ⟨slotPos, hsends⟩ := run.sends hrouted hsender
  have hunsent := (hsends.unsent_iff _).mp hpad
  have hid := hsends.sent_pad (rank * cap + row % cap)
    (by rw [hsends.cap_eq, hsends.epSize_eq]; exact segment_lt hrank hplace) hunsent
  rw [hid]
  refine if_neg ?_
  by_cases htickets :
      (group.dispatcher (row / cap)).usesTickets group.epSize (calls (row / cap)) = true
  · rw [if_pos htickets]
    simp only [EpGroup.dispatcher]
    omega
  · rw [if_neg htickets]
    have hheld := (hfull _ hsender).resolve_left htickets
    rcases Nat.eq_zero_or_pos rank with rfl | hrank'
    · -- every place of the first rank's segment is taken
      obtain ⟨slot, hslot, hdest, hearlier⟩ := exists_of_lt_held (Nat.lt_of_lt_of_le hplace hheld)
      obtain ⟨htickets', -, -⟩ | ⟨-, -, hhandle⟩ := dispatchA_inv (run.dispatched _ hsender)
      · exact absurd htickets' htickets
      have hsends' := sortDispatch_sends group cap (row / cap) (calls (row / cap)) fun s hs =>
        hrouted.dest_lt hsender hs
      rw [← hhandle] at hsends'
      refine absurd ?_ ((hsends'.unsent_iff _).mp hpad slot hslot)
      have hkept : earlier (group.dest topK (calls (row / cap))) slot < cap := by
        rwa [hearlier]
      refine (if_pos hkept).trans ?_
      change group.dest topK (calls (row / cap)) slot * cap +
        earlier (group.dest topK (calls (row / cap))) slot = _
      rw [hdest, hearlier]
    · have hoffset : 1 ≤ rank * group.numLocalExperts :=
        Nat.mul_pos hrank' group.numLocalExperts_pos
      simp only [EpGroup.dispatcher]
      omega

end ExchangeRun

section Main

variable {group : EpGroup} {rows topK : Nat} {calls : Nat → DispatchCall R V}

/-- An exchange that returns has a slot. -/
theorem ExchangeRun.slots_pos {expert : Nat → V → V}
    (run : ExchangeRun group rows topK calls expert) : 0 < rows * topK := by
  rcases dispatchA_inv (run.dispatched 0 group.epSize_pos) with ⟨-, hn, -⟩ | ⟨-, -, hhandle⟩
  · exact hn
  · refine Nat.pos_of_ne_zero fun h0 => ?_
    have hempty : (run.handle 0).rows * (run.handle 0).topK = 0 := by
      rw [hhandle]
      exact h0
    exact DispatchHandle.combineB_empty _ (by rw [hhandle]; rfl) hempty _ _
      (run.combined 0 group.epSize_pos)

/-- A group whose dispatches return gets to the end of the exchange. -/
theorem exchangeRun_exists (hrouted : Routed group rows topK calls) (hn : 0 < rows * topK)
    (hcap : 0 ≤ group.capacity (rows * topK)) (expert : Nat → V → V) :
    Nonempty (ExchangeRun group rows topK calls expert) := by
  let handle : Nat → DispatchHandle R V := fun rank =>
    if (group.dispatcher rank).usesTickets group.epSize (calls rank) = true then
      (group.dispatcher rank).ticketDispatch group.epSize rows topK (calls rank)
    else (group.dispatcher rank).sortDispatch group.epSize
      (group.capacity (rows * topK)).toNat rows topK (calls rank)
  have hcombine : ∀ rank, ∃ out,
      (handle rank).combineB (group.recvOut handle expert rank) = .ok out := by
    intro rank
    by_cases htickets :
        (group.dispatcher rank).usesTickets group.epSize (calls rank) = true
    · have hhandle : handle rank =
          (group.dispatcher rank).ticketDispatch group.epSize rows topK (calls rank) :=
        if_pos htickets
      rw [hhandle]
      exact ⟨_, rfl⟩
    · have hhandle : handle rank = (group.dispatcher rank).sortDispatch group.epSize
          (group.capacity (rows * topK)).toNat rows topK (calls rank) := if_neg htickets
      rw [hhandle]
      exact ⟨_, DispatchHandle.combineB_sorted _ rfl hn _⟩
  choose out hout using hcombine
  exact ⟨handle, out, fun rank hrank => dispatchA_ok hrouted hrank hn hcap, fun rank _ => hout rank⟩

/-- The exchange is dense routing without the slots past the capacity and runs no pad row
exactly when there is a slot, the capacity is not negative, and every rank places by tickets
or fills its segment for the first rank. -/
theorem exchange_iff (hrouted : Routed group rows topK calls) (expert : Nat → V → V) :
    ExchangeRight group rows topK calls expert ↔
      0 < rows * topK ∧ 0 ≤ group.capacity (rows * topK) ∧ ∀ rank < group.epSize,
        (group.dispatcher rank).usesTickets group.epSize (calls rank) = true ∨
          (group.capacity (rows * topK)).toNat ≤
            held (group.dest topK (calls rank)) (rows * topK) 0 := by
  constructor
  · rintro ⟨run, -, -, hskips⟩
    have hfull : ∀ rank < group.epSize,
        (group.dispatcher rank).usesTickets group.epSize (calls rank) = true ∨
          (group.capacity (rows * topK)).toNat ≤
            held (group.dest topK (calls rank)) (rows * topK) 0 := by
      intro rank hrank
      cases htickets : (group.dispatcher rank).usesTickets group.epSize (calls rank) with
      | true => exact .inl rfl
      | false => exact .inr (run.full_of_skipsPads hrouted hskips hrank htickets)
    refine ⟨run.slots_pos, ?_, hfull⟩
    rcases dispatchA_inv (run.dispatched 0 group.epSize_pos) with ⟨htickets, -, -⟩ | ⟨-, hcap, -⟩
    · rw [capacity_of_tickets htickets]
      exact Int.natCast_nonneg _
    · exact hcap.resolve_right run.slots_pos.ne'
  · rintro ⟨hn, hcap, hfull⟩
    obtain ⟨run⟩ := exchangeRun_exists hrouted hn hcap expert
    exact ⟨run, fun rank hrank t ht => run.out_eq hrouted hrank ht,
      fun hfactor rank hrank t ht => run.out_eq_of_unbounded hrouted hfactor hrank ht,
      run.skipsPads_of_full hrouted hfull⟩

/-- Two ranks with one expert each. -/
def pairGroup : EpGroup where
  epSize := 2
  numLocalExperts := 1
  capacityFactor := none
  capacitySlack := 8
  fused := true
  epSize_pos := Nat.two_pos
  numLocalExperts_pos := Nat.one_pos

/-- One token on either rank, both routed to the second rank's expert. -/
def pairCalls (isCuda : Bool) (rank : Nat) : DispatchCall ℤ ℤ where
  x := fun _ => 10 + rank
  topkIds := fun _ _ => 1
  topkWeights := fun _ _ => 3
  isCuda
  unitStride := true
  grants := [0]
  stale := fun _ => 77

theorem pairCalls_routed (isCuda : Bool) : Routed pairGroup 1 1 (pairCalls isCuda) where
  ids_lt _ _ _ _ _ _ := show 1 < 2 by decide
  grants_perm _ _ := List.Perm.refl [0]

/-- With tickets the two tokens get their expert, and no pad row is run. -/
theorem exchange_pair :
    ExchangeRight pairGroup 1 1 (pairCalls true) (fun expert x => (expert + 2) * x) :=
  (exchange_iff (pairCalls_routed true) _).mpr
    ⟨by decide, Int.natCast_nonneg 1, fun _ _ => .inl rfl⟩

/-- With the sort the first rank runs its expert on the rows nobody sent it. -/
theorem sort_exchange_runs_pads :
    ¬ ∀ (group : EpGroup) (rows topK : Nat) (calls : Nat → DispatchCall ℤ ℤ)
      (expert : Nat → ℤ → ℤ), 0 < rows * topK → Routed group rows topK calls →
      ExchangeRight group rows topK calls expert := by
  intro h
  obtain ⟨run, -, -, hskips⟩ := h pairGroup 1 1 (pairCalls false) (fun expert x => (expert + 2) * x)
    (by decide) (pairCalls_routed false)
  have hfull := run.full_of_skipsPads (pairCalls_routed false) hskips
    (show 0 < pairGroup.epSize by decide) rfl
  exact absurd hfull (by decide)

end Main

end Exchange

end RapidLlm
