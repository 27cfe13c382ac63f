import RapidLlm.Lib.Guarantee
import RapidLlm.BatchOverlap.OpStreams

/-!
# RapidLlm.BatchOverlap.CommOverlap

**Deferred all-reduces** (`batch_overlap/comm_overlap.py`). Inside a `deferred_all_reduce` block
a row-parallel layer posts its reduction on the comm stream and hands the tensor on as a
promise: the value is final once the compute stream has waited on the reduction's event.

* A `Tensor` is what a reader must know of it, the event it is promised by. Reading is
  waiting for nothing: the trace records what was read, and whether that was safe is a property
  of the trace.
* `World` is what the ops of both halves share: the trace of posts, waits and reads in the order
  the host issues them, the lists events are kept in, and the innermost collector. Fencing tells
  its lists apart by identity, so a list is named and not passed by value.

`Sound` is the invariant of the world and `Grows` what every call does to it; `fence_guarantees`,
`defer_guarantees` and `collecting_guarantees` are the specifications the ops are proved with.
-/

namespace RapidLlm.Deferred

open OpStreams (Lane)
open Effect

/-- A completion event, numbered in the order of posting. -/
abbrev Event := Nat

/-- What the host issues about an event. -/
inductive Action
  | post (event : Event)
  | wait (event : Event)
  | read (event : Event)
  deriving DecidableEq, Repr

/-- A tensor; a promise is final once its event has completed. -/
structure Tensor where
  promise : Option Event := none
  deriving DecidableEq, Repr

/-- The lists of events: the context's own, and the `ar_events` of each half. -/
inductive EventList
  | outstanding
  | collected (half : Lane)
  deriving DecidableEq, Repr

structure World where
  trace : List Action := []
  posted : Nat := 0
  events : EventList → List Event := fun _ => []
  collector : Option EventList := none

abbrev Comm := Effect World Raised

def World.setEvents (world : World) (list : EventList) (events : List Event) : World :=
  { world with events := Function.update world.events list events }

def log (action : Action) : Comm Unit :=
  modify fun world => { world with trace := world.trace ++ [action] }

/-- A kernel on the compute stream reads the tensor. -/
def Tensor.read (tensor : Tensor) : Comm Unit :=
  match tensor.promise with
  | some event => log (.read event)
  | none => pure ()

/-! ### `DeferredArContext` -/

structure ProcessGroup where
  worldSize : Nat
  backend : String

/-- The tensor-parallel group of this rank. -/
structure ParallelState where
  worldSize : Nat
  group : Option ProcessGroup

/-- Enqueue the reduction on the comm stream, if it is asynchronous there. -/
def allReduceAsync (parallel : ParallelState) : Comm (Option Event) :=
  match parallel.group with
  | none => pure none
  | some group =>
    -- without a peer there is nothing to reduce, and any other backend blocks
    if group.worldSize ≤ 1 ∨ group.backend ≠ "nccl" then pure none
    else do
      let event := (← get).posted
      modify fun world =>
        { world with trace := world.trace ++ [.post event], posted := event + 1 }
      return some event

/-- Route the events of reductions deferred inside the block to a list. -/
def collecting {α : Type} (list : EventList) (block : Comm α) : Comm α := do
  let previous := (← get).collector
  modify fun world => { world with collector := some list }
  block.ensuring (modify fun world => { world with collector := previous })

def append (list : EventList) (event : Event) : Comm Unit :=
  modify fun world => world.setEvents list (world.events list ++ [event])

/-- Post a tensor's all-reduce and return the tensor unfenced. -/
def defer (parallel : ParallelState) (tensor : Tensor) : Comm Tensor := do
  match ← allReduceAsync parallel with
  | none => return tensor
  | some event =>
    append .outstanding event
    match (← get).collector with
    | some list => append list event
    | none => pure ()
    return { promise := some event }

/-- Make the compute stream wait for the events of a list, and empty it. -/
def fence (list : EventList) : Comm Unit := do
  let pending := (← get).events list
  if pending.isEmpty then pure ()
  else do
    pending.forM fun event => log (.wait event)
    modify fun world => world.setEvents list []
    if list ≠ .outstanding then
      modify fun world => world.setEvents .outstanding
        ((world.events .outstanding).filter fun event => !pending.contains event)
    else pure ()

/-- Fence what the innermost collector gathered; with no collector open, everything. -/
def fencePendingReads : Comm Unit := do
  fence ((← get).collector.getD .outstanding)

def drain : Comm Unit := fence .outstanding

/-- The `deferred_all_reduce` block: a context of its own, drained when the block is left. -/
def deferredAllReduce {α : Type} (block : Comm α) : Comm α := do
  modify fun world => { world.setEvents .outstanding [] with collector := none }
  block.ensuring drain

/-! ### Row-parallel layers -/

structure RowParallelLinear where
  reduceResults : Bool := true

/-- `row_parallel_forward` inside a `deferred_all_reduce` block. No sequence-parallel region is
open there, so no layer is the boundary of one. -/
def RowParallelLinear.forward (layer : RowParallelLinear) (parallel : ParallelState) (x : Tensor) :
    Comm Tensor := do
  x.read
  let out : Tensor := {}
  if layer.reduceResults = false ∨ parallel.worldSize ≤ 1 then return out
  else defer parallel out

/-! ### The invariant of the world -/

/-- The trace has a wait on the event after its post. -/
def Waited (trace : List Action) (event : Event) : Prop :=
  [Action.post event, .wait event].Sublist trace

/-- No read of a promise without a wait that was issued before it and after the post. -/
def ReadsFenced (trace : List Action) : Prop :=
  ∀ past event, past ++ [.read event] <+: trace → Waited past event

/-- The events posted in a trace. -/
def posts (trace : List Action) : List Event :=
  trace.filterMap fun action => match action with
    | .post event => some event
    | _ => none

structure Sound (world : World) : Prop where
  reads : ReadsFenced world.trace
  /-- Events are numbered as they are posted. -/
  numbered : posts world.trace = List.range world.posted
  known : ∀ list, ∀ event ∈ world.events list, .post event ∈ world.trace
  waited : ∀ event, .post event ∈ world.trace →
    Waited world.trace event ∨ event ∈ world.events .outstanding

/-- What every call does to the world. -/
structure Grows (world world' : World) : Prop where
  trace : world.trace <+: world'.trace
  collector : world'.collector = world.collector
  kept : ∀ list, ∀ event ∈ world.events list,
    Waited world'.trace event ∨ event ∈ world'.events list

/-- What a read does to it. -/
structure Quiet (world world' : World) : Prop where
  grows : Grows world world'
  events : world'.events = world.events

theorem Waited.grow {trace trace' : List Action} {event : Event} (h : Waited trace event)
    (hgrow : trace <+: trace') : Waited trace' event :=
  h.trans hgrow.sublist

instance : Std.Refl Grows where
  refl _ := ⟨List.prefix_rfl, rfl, fun _ _ h => .inr h⟩

instance : IsTrans World Grows where
  trans world world' world'' h h' := by
    refine ⟨h.trace.trans h'.trace, h'.collector.trans h.collector, fun list event hmem => ?_⟩
    rcases h.kept list event hmem with hwaited | hkept
    · exact .inl (hwaited.grow h'.trace)
    · exact h'.kept list event hkept

instance : Std.Refl Quiet where
  refl _ := ⟨refl _, rfl⟩

instance : IsTrans World Quiet where
  trans _ _ _ h h' := ⟨trans_of Grows h.grows h'.grows, h'.events.trans h.events⟩

/-! ### What is known of a tensor -/

/-- The tensor can be read: its event, if it has one, was waited on. -/
def Settled (world : World) (tensor : Tensor) : Prop :=
  ∀ event ∈ tensor.promise, Waited world.trace event

/-- Fencing the list makes the tensor readable. -/
def HeldBy (list : EventList) (world : World) (tensor : Tensor) : Prop :=
  ∀ event ∈ tensor.promise, Waited world.trace event ∨ event ∈ world.events list

variable {world world' : World} {tensor : Tensor} {list : EventList} {event : Event}

theorem settled_final : Settled world {} := by
  intro event h
  cases h

theorem Settled.heldBy (h : Settled world tensor) : HeldBy list world tensor :=
  fun event hevent => .inl (h event hevent)

theorem Settled.grow (h : Settled world tensor) (hgrow : Grows world world') :
    Settled world' tensor :=
  fun event hevent => (h event hevent).grow hgrow.trace

theorem HeldBy.grow (h : HeldBy list world tensor) (hgrow : Grows world world') :
    HeldBy list world' tensor := by
  intro event hevent
  rcases h event hevent with hwaited | hmem
  · exact .inl (hwaited.grow hgrow.trace)
  · exact hgrow.kept list event hmem

/-! ### Reading and waiting -/

theorem posts_append (trace : List Action) (action : Action) :
    posts (trace ++ [action]) = posts trace ++ posts [action] :=
  List.filterMap_append

theorem ReadsFenced.append {trace : List Action} {action : Action} (h : ReadsFenced trace)
    (hread : ∀ event, action = .read event → Waited trace event) :
    ReadsFenced (trace ++ [action]) := by
  intro past event hpast
  rcases List.prefix_concat_iff.mp hpast with heq | hpre
  · obtain ⟨rfl, hlast⟩ := List.append_inj' heq rfl
    exact hread event (List.cons.inj hlast).1.symm
  · exact h past event hpre

/-- An action other than a post; what is read was waited on. -/
theorem Sound.log {action : Action} (h : Sound world) (hpost : ∀ event, action ≠ .post event)
    (hread : ∀ event, action = .read event → Waited world.trace event) :
    Sound { world with trace := world.trace ++ [action] } where
  reads := h.reads.append hread
  numbered := by
    rw [posts_append, ← h.numbered]
    cases action with
    | post event => exact absurd rfl (hpost event)
    | wait | read => simp [posts]
  known list event hmem := List.mem_append_left _ (h.known list event hmem)
  waited event hmem := by
    rcases List.mem_append.mp hmem with hold | hnew
    · exact (h.waited event hold).imp_left fun hwaited => hwaited.grow (List.prefix_append _ _)
    · exact absurd (List.mem_singleton.mp hnew).symm (hpost event)

theorem grows_log (world : World) (action : Action) :
    Grows world { world with trace := world.trace ++ [action] } :=
  ⟨List.prefix_append _ _, rfl, fun _ _ h => .inr h⟩

theorem read_quiet (h : Settled world tensor) :
    Guarantees Sound Quiet world tensor.read fun _ _ => True := by
  unfold Tensor.read
  cases hpromise : tensor.promise with
  | none => exact Guarantees.of_pure fun _ => trivial
  | some event =>
    refine Guarantees.of_modify (fun hsound => hsound.log (fun _ => Action.noConfusion) ?_)
      (fun _ => ⟨grows_log world _, rfl⟩) fun _ => trivial
    intro event' heq
    cases heq
    exact h event hpromise

theorem read_guarantees (h : Settled world tensor) :
    Guarantees Sound Grows world tensor.read fun _ _ => True :=
  (read_quiet h).weaken fun _ => Quiet.grows

theorem wait_guarantees (h : .post event ∈ world.trace) :
    Guarantees Sound Grows world (log (.wait event)) fun _ world' =>
      Waited world'.trace event ∧ world'.events = world.events := by
  refine Guarantees.of_modify
    (fun hsound => hsound.log (fun _ => Action.noConfusion) fun _ => Action.noConfusion)
    (fun _ => grows_log world _) fun _ => ⟨?_, rfl⟩
  exact (List.singleton_sublist.mpr h).append (List.Sublist.refl [Action.wait event])

/-- `for event in pending: stream.wait_event(event)`. -/
theorem waits_guarantees (pending : List Event) (h : ∀ event ∈ pending, .post event ∈ world.trace) :
    Guarantees Sound Grows world (pending.forM fun event => log (.wait event)) fun _ world' =>
      (∀ event ∈ pending, Waited world'.trace event) ∧ world'.events = world.events := by
  induction pending generalizing world with
  | nil => exact Guarantees.of_pure fun _ => ⟨fun _ h => (by cases h), rfl⟩
  | cons first rest ih =>
    refine (wait_guarantees (h first List.mem_cons_self)).bind fun _ mid hgrow hfirst => ?_
    have hposted : ∀ event ∈ rest, .post event ∈ mid.trace := fun event hmem =>
      hgrow.trace.subset (h event (List.mem_cons_of_mem _ hmem))
    refine (ih hposted).mono fun _ last _ hgrow' hrest => ⟨?_, hrest.2.trans hfirst.2⟩
    intro event hmem
    rcases List.mem_cons.mp hmem with rfl | hmem
    · exact hfirst.1.grow hgrow'.trace
    · exact hrest.1 event hmem

/-! ### Fencing -/

@[simp] theorem setEvents_trace (events : List Event) :
    (world.setEvents list events).trace = world.trace := rfl

theorem setEvents_events (events : List Event) (list' : EventList) :
    (world.setEvents list events).events list' = if list' = list then events else world.events list' :=
  Function.update_apply _ _ _ _

/-- Events may leave a list once they were waited on. -/
theorem setEvents_guarantees {shrink : World → World} {events : List Event}
    (hshrink : shrink world = world.setEvents list events) (hsub : events ⊆ world.events list)
    (hwaited : ∀ event ∈ world.events list, event ∉ events → Waited world.trace event) :
    Guarantees Sound Grows world (modify shrink : Comm Unit) fun _ world' =>
      world' = world.setEvents list events := by
  have hkept : ∀ list', ∀ event ∈ world.events list', Waited world.trace event ∨
      event ∈ (world.setEvents list events).events list' := by
    intro list' event hmem
    rw [setEvents_events]
    split
    · subst list'
      by_cases hin : event ∈ events
      · exact .inr hin
      · exact .inl (hwaited event hmem hin)
    · exact .inr hmem
  refine Guarantees.of_modify (fun hsound => ?_)
    (fun _ => hshrink ▸ ⟨List.prefix_rfl, rfl, hkept⟩) fun _ => hshrink
  rw [hshrink]
  refine ⟨hsound.reads, hsound.numbered, fun list' event hmem => ?_, fun event hmem => ?_⟩
  · rw [setEvents_events] at hmem
    split at hmem
    · exact hsound.known list event (hsub hmem)
    · exact hsound.known list' event hmem
  · rcases hsound.waited event hmem with hw | hout
    · exact .inl hw
    · exact hkept .outstanding event hout

/-- After a fence what the list held can be read. -/
theorem fence_guarantees (list : EventList) :
    Guarantees Sound Grows world (fence list) fun _ world' =>
      world'.events list = [] ∧ ∀ event ∈ world.events list, Waited world'.trace event := by
  refine Guarantees.assuming fun hsound => Guarantees.get_bind ?_
  dsimp only
  split
  · rename_i hempty
    have hnil := List.isEmpty_iff.mp hempty
    refine Guarantees.of_pure fun _ => ⟨hnil, fun event hmem => ?_⟩
    rw [hnil] at hmem
    cases hmem
  · refine (waits_guarantees _ (hsound.known list)).bind fun _ waited hgrow hwaits => ?_
    obtain ⟨hwaits, hevents⟩ := hwaits
    have hall : ∀ event ∈ waited.events list, Waited waited.trace event := by
      rw [hevents]
      exact hwaits
    refine (setEvents_guarantees rfl (List.nil_subset _) fun event hmem _ => hall event hmem).bind
      fun _ cleared _ hcleared => ?_
    have hlist : cleared.events list = [] := by
      rw [hcleared, setEvents_events, if_pos rfl]
    have htrace : cleared.trace = waited.trace := by rw [hcleared, setEvents_trace]
    rw [← htrace] at hwaits
    split
    · rename_i hother
      refine (setEvents_guarantees rfl (List.filter_subset_self _) ?_).mono fun _ last _ _ hlast => ?_
      · intro event hmem hdropped
        refine hwaits event ?_
        by_contra hnot
        exact hdropped (List.mem_filter.mpr ⟨hmem, by simpa using hnot⟩)
      · subst hlast
        refine ⟨?_, hwaits⟩
        rw [setEvents_events, if_neg hother, hlist]
    · exact Guarantees.of_pure fun _ => ⟨hlist, hwaits⟩

theorem HeldBy.settled (h : HeldBy list world tensor)
    (hwaits : ∀ event ∈ world.events list, Waited world'.trace event) (hgrow : Grows world world') :
    Settled world' tensor := by
  intro event hevent
  rcases h event hevent with hwaited | hmem
  · exact hwaited.grow hgrow.trace
  · exact hwaits event hmem

theorem fencePendingReads_guarantees :
    Guarantees Sound Grows world fencePendingReads fun _ world' =>
      ∀ event ∈ world.events (world.collector.getD .outstanding), Waited world'.trace event :=
  Guarantees.get_bind ((fence_guarantees _).mono fun _ _ _ _ h => h.2)

/-! ### Deferring -/

/-- The world after a reduction was posted. -/
def World.deferred (world : World) : World :=
  let posted := { world with
    trace := world.trace ++ [Action.post world.posted]
    posted := world.posted + 1 }
  let kept := posted.setEvents .outstanding (posted.events .outstanding ++ [world.posted])
  match world.collector with
  | some list => kept.setEvents list (kept.events list ++ [world.posted])
  | none => kept

theorem defer_runFrom (world : World) (tensor : Tensor) (parallel : ParallelState) :
    (defer parallel tensor).runFrom world = (.ok tensor, world) ∨
      (defer parallel tensor).runFrom world =
        (.ok { promise := some world.posted }, world.deferred) := by
  unfold defer allReduceAsync
  cases parallel.group with
  | none => exact .inl rfl
  | some group =>
    by_cases hsync : group.worldSize ≤ 1 ∨ group.backend ≠ "nccl"
    · left
      simp only [hsync, if_true]
      rfl
    · right
      obtain ⟨trace, posted, events, collector⟩ := world
      simp only [hsync, if_false]
      cases collector <;> rfl

theorem mem_deferred {list' : EventList} : event ∈ world.deferred.events list' ↔
    event ∈ world.events list' ∨
      event = world.posted ∧ (list' = .outstanding ∨ world.collector = some list') := by
  unfold World.deferred
  cases hcollector : world.collector with
  | none =>
    simp only [setEvents_events]
    split <;> simp_all
  | some list =>
    simp only [setEvents_events, Option.some.injEq]
    by_cases hlist : list' = list <;> by_cases hout : list' = .outstanding <;>
      simp_all [eq_comm]

theorem deferred_trace : world.deferred.trace = world.trace ++ [.post world.posted] := by
  unfold World.deferred
  split <;> rfl

theorem deferred_collector : world.deferred.collector = world.collector := by
  unfold World.deferred
  split <;> simp_all [World.setEvents]

theorem deferred_posted : world.deferred.posted = world.posted + 1 := by
  unfold World.deferred
  split <;> rfl

theorem Sound.deferred (h : Sound world) : Sound world.deferred where
  reads := by
    rw [deferred_trace]
    exact h.reads.append fun _ => Action.noConfusion
  numbered := by
    rw [deferred_trace, deferred_posted, posts_append, h.numbered, List.range_succ]
    rfl
  known list event hmem := by
    rw [deferred_trace]
    rcases mem_deferred.mp hmem with hold | ⟨rfl, -⟩
    · exact List.mem_append_left _ (h.known list event hold)
    · exact List.mem_append_right _ List.mem_cons_self
  waited event hmem := by
    rw [deferred_trace] at hmem ⊢
    rcases List.mem_append.mp hmem with hold | hnew
    · rcases h.waited event hold with hwaited | hout
      · exact .inl (hwaited.grow (List.prefix_append _ _))
      · exact .inr (mem_deferred.mpr (.inl hout))
    · cases List.mem_singleton.mp hnew
      exact .inr (mem_deferred.mpr (.inr ⟨rfl, .inl rfl⟩))

theorem grows_deferred : Grows world world.deferred where
  trace := by
    rw [deferred_trace]
    exact List.prefix_append _ _
  collector := deferred_collector
  kept list event hmem := .inr (mem_deferred.mpr (.inl hmem))

/-- A deferred tensor is held by the context and by the open collector. -/
theorem defer_guarantees (parallel : ParallelState) (hfinal : tensor.promise = none) :
    Guarantees Sound Grows world (defer parallel tensor) fun out world' =>
      ∀ list, list = .outstanding ∨ world.collector = some list → HeldBy list world' out := by
  intro hsound
  unfold after
  rcases defer_runFrom world tensor parallel with hrun | hrun
  · rw [hrun]
    refine ⟨hsound, refl world, fun out hout list _ event hevent => ?_⟩
    cases hout
    rw [hfinal] at hevent
    cases hevent
  · rw [hrun]
    refine ⟨hsound.deferred, grows_deferred, fun out hout list hlist event hevent => ?_⟩
    cases hout
    cases hevent
    exact .inr (mem_deferred.mpr (.inr ⟨rfl, hlist⟩))

/-- A row-parallel layer reads its input and hands out a tensor that is held. -/
theorem RowParallelLinear.forward_guarantees (layer : RowParallelLinear) (parallel : ParallelState)
    {x : Tensor} (hx : Settled world x) :
    Guarantees Sound Grows world (layer.forward parallel x) fun out world' =>
      ∀ list, list = .outstanding ∨ world.collector = some list → HeldBy list world' out := by
  refine (read_guarantees hx).bind fun _ mid hgrow _ => ?_
  dsimp only
  split
  · exact Guarantees.of_pure fun _ list _ => settled_final.heldBy
  · refine (defer_guarantees parallel rfl).mono fun _ _ _ _ h list hlist => h list ?_
    rwa [hgrow.collector]

/-! ### Collecting, and the block -/

/-- Inside the block the collector is open; outside it is what it was. -/
theorem collecting_guarantees {α : Type} {block : Comm α} {Q : α → World → Prop}
    (h : Guarantees Sound Grows { world with collector := some list } block fun a world' =>
      Q a { world' with collector := world.collector }) :
    Guarantees Sound Grows world (collecting list block) Q := by
  intro hsound
  obtain ⟨hsound', hgrow, hret⟩ := h ⟨hsound.reads, hsound.numbered, hsound.known, hsound.waited⟩
  exact ⟨⟨hsound'.reads, hsound'.numbered, hsound'.known, hsound'.waited⟩,
    ⟨hgrow.trace, rfl, hgrow.kept⟩, hret⟩

/-- Nothing is outstanding. -/
structure Drained (world : World) : Prop where
  sound : Sound world
  none_outstanding : world.events .outstanding = []

/-- Once nothing is outstanding, every posted event was waited on. -/
theorem Drained.waited (h : Drained world) (hposted : .post event ∈ world.trace) :
    Waited world.trace event := by
  rcases h.sound.waited event hposted with hwaited | hout
  · exact hwaited
  · rw [h.none_outstanding] at hout
    cases hout

theorem Drained.settled (h : Drained world) (hheld : HeldBy list world tensor) :
    Settled world tensor := by
  intro event hevent
  rcases hheld event hevent with hwaited | hmem
  · exact hwaited
  · exact h.waited (h.sound.known list event hmem)

theorem waits_returns (world : World) (pending : List Event) :
    ((pending.forM fun event => log (.wait event)).runFrom world).1 = .ok () := by
  induction pending generalizing world with
  | nil => rfl
  | cons first rest ih => exact ih _

/-- Fencing does not raise. -/
theorem fence_returns (list : EventList) : ((fence list).runFrom world).1 = .ok () := by
  have hret := waits_returns world (world.events list)
  change (Effect.runFrom (if _ then _ else _) world).1 = _
  split
  · rfl
  · rw [runFrom_bind]
    rcases hwaits : ((world.events list).forM fun event => log (.wait event)).runFrom world with
      ⟨_ | _, waited⟩
    · rw [hwaits] at hret
      cases hret
    · dsimp only
      split <;> rfl

/-- Reading does not add to what is outstanding. -/
theorem drained_of_quiet {α : Type} {call : Comm α} {Q : α → World → Prop}
    (h : Guarantees Sound Quiet world call Q) : Guarantees Drained Grows world call Q := by
  intro hdrained
  obtain ⟨hsound, hquiet, hret⟩ := h hdrained.sound
  refine ⟨⟨hsound, ?_⟩, hquiet.grows, hret⟩
  rw [hquiet.events]
  exact hdrained.none_outstanding

/-- However the block ends, nothing is outstanding after it. -/
theorem deferredAllReduce_guarantees {α : Type} {block : Comm α} {Q : α → World → Prop}
    (hcollector : world.collector = none)
    (h : ∀ start, start.collector = none → Guarantees Sound Grows start block Q)
    (hQ : ∀ a world' world'', Grows world' world'' → Q a world' → Q a world'') :
    Guarantees Drained Grows world (deferredAllReduce block) Q := by
  intro hdrained
  -- the context is new, and so are its lists: in a drained world nothing changes
  have hstart : world.setEvents .outstanding [] = world := by
    have hevents : Function.update world.events .outstanding [] = world.events := by
      rw [← hdrained.none_outstanding, Function.update_eq_self]
    unfold World.setEvents
    rw [hevents]
  have hopened : (deferredAllReduce block).runFrom world = (block.ensuring drain).runFrom world := by
    change (block.ensuring drain).runFrom
      { world.setEvents .outstanding [] with collector := none } = _
    rw [hstart, ← hcollector]
  obtain ⟨hsound, hgrow, hret⟩ := h world hcollector hdrained.sound
  obtain ⟨hsound', hgrow', hfenced⟩ := fence_guarantees .outstanding hsound
  obtain ⟨hempty, -⟩ := hfenced () (fence_returns _)
  have hrun : (deferredAllReduce block).runFrom world =
      ((block.runFrom world).1, (fence .outstanding).after (block.after world)) := by
    rw [hopened]
    exact runFrom_ensuring (fence_returns _)
  unfold after
  rw [hrun]
  exact ⟨⟨hsound', hempty⟩, trans_of Grows hgrow hgrow', fun a ha => hQ a _ _ hgrow' (hret a ha)⟩

end RapidLlm.Deferred
