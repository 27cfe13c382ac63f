import RapidLlm.Engine.RequestTracker
import RapidLlm.Engine.DataParallel

/-!
# RapidLlm.Engine.EventLoop

`Scheduler.run_event_loop` (`engine/scheduler.py`), between its queues: the commands it applies, and
the events it publishes of a step.

* A command and an event carry a request id and nothing else to tell two submissions apart. `origin`
  is the submission a live request came with, and every event is paired with the origin it is about:
  no code reads either.
* What a step computes is not modelled here. `Advanced` is one request that `step` returned, with
  all the tokens it has by then.
* Every request comes with `stream=True`, so `stream_outputs` always answers `True`.
-/

namespace RapidLlm

/-- A live request of the scheduler. -/
structure SchedulerRequest where
  requestId : RequestId
  origin : StreamRef
  promptLen : Nat
  deriving DecidableEq, Repr

/-- One of the requests that `step` returned. -/
structure Advanced where
  requestId : RequestId
  outputTokenIds : List Token
  finishReason : Option String
  deriving DecidableEq, Repr

/-- What an event queue carries: outputs with the submissions they are about, or an event without
outputs. -/
inductive Message
  | outputs (outputs : List (RequestEvent × StreamRef))
  | failed (message : String)
  | replicaFailed (globalRank : Nat) (message : String)
  | other
  deriving DecidableEq, Repr

/-- The locals of `run_event_loop`, and the requests its scheduler has. -/
structure SchedulerLoop where
  requests : List SchedulerRequest := []
  sentTokens : RequestId → Option Nat := fun _ => none
  stopping : Bool := false

namespace SchedulerLoop

variable {loop : SchedulerLoop}

/-- Why `add_request` raises `ValueError`, if it does: the id is in use, or the scheduler
refuses. -/
def refuses (loop : SchedulerLoop) (requestId : RequestId) (refusal : Option String) :
    Option String :=
  if loop.requests.any fun request => request.requestId == requestId then
    some s!"request id '{requestId}' is already active"
  else refusal

/-- `apply`, on an `AddRequest`. -/
def add (loop : SchedulerLoop) (request : AddRequest) (origin : StreamRef)
    (refusal : Option String) : SchedulerLoop × List Message :=
  if loop.stopping then (loop, [])
  else match loop.refuses request.requestId refusal with
  | some message => (loop, [.outputs [({
      requestId := request.requestId
      newTokenIds := []
      finishReason := some "invalid"
      error := some message }, origin)]])
  | none => ({ loop with
      requests := loop.requests ++ [⟨request.requestId, origin, request.promptTokenIds.length⟩]
      sentTokens := Function.update loop.sentTokens request.requestId (some 0) }, [])

/-- `apply`, on the requests of an `AddRequestBatch`. -/
def addAll (loop : SchedulerLoop) (origin : StreamRef) (refusal : Option String) :
    List AddRequest → SchedulerLoop × List Message
  | [] => (loop, [])
  | request :: requests =>
      let first := loop.add request origin refusal
      let rest := first.1.addAll origin refusal requests
      (rest.1, first.2 ++ rest.2)

/-- `apply`. A command of another type raises `TypeError` out of the loop. -/
def apply (loop : SchedulerLoop) (command : Command) (origin : StreamRef)
    (refusal : Option String) : Option (SchedulerLoop × List Message) :=
  match command with
  | .addBatch requests => some (loop.addAll origin refusal requests)
  | .add request => some (loop.add request origin refusal)
  | .abort requestId => some ({ loop with
      requests := loop.requests.filter fun request => request.requestId != requestId
      sentTokens := Function.update loop.sentTokens requestId none }, [])
  -- the answer is a `SchedulerEvents` without outputs
  | .utility _ _ => some (loop, [.outputs []])
  | .wake => some (loop, [])
  | .shutdown => some ({ loop with stopping := true }, [])
  | .other _ => none

/-- The loop over `advanced`: what is published, and `sent_tokens` behind it. -/
def publish (loop : SchedulerLoop) (sentTokens : RequestId → Option Nat) :
    List Advanced → List (RequestEvent × StreamRef) × (RequestId → Option Nat)
  | [] => ([], sentTokens)
  | advanced :: rest =>
      match loop.requests.find? fun request => request.requestId == advanced.requestId with
      | none => loop.publish sentTokens rest
      | some request =>
          let sent := (sentTokens advanced.requestId).getD 0
          let newTokenIds := advanced.outputTokenIds.drop sent
          let counted := if newTokenIds = [] then sentTokens
            else Function.update sentTokens advanced.requestId (some (sent + newTokenIds.length))
          let kept := if advanced.finishReason.isSome then
              Function.update counted advanced.requestId none
            else counted
          let later := loop.publish kept rest
          if newTokenIds = [] ∧ advanced.finishReason = none then later
          else (({
            requestId := advanced.requestId
            newTokenIds
            finishReason := advanced.finishReason
            promptLen := request.promptLen }, request.origin) :: later.1, later.2)

/-- One iteration, from `step` on: finished requests have left the scheduler. -/
def work (loop : SchedulerLoop) (advanced : List Advanced) : SchedulerLoop × List Message :=
  let published := loop.publish loop.sentTokens advanced
  let done := fun (request : SchedulerRequest) => advanced.any fun other =>
    other.requestId == request.requestId && other.finishReason.isSome
  ({ loop with
      requests := loop.requests.filter fun request => !done request
      sentTokens := published.2 },
    if published.1 = [] then [] else [.outputs published.1])

/-! ### Whose the events are -/

/-- A live request of this id and origin. -/
def Live (loop : SchedulerLoop) (requestId : RequestId) (origin : StreamRef) : Prop :=
  ∃ request ∈ loop.requests, request.requestId = requestId ∧ request.origin = origin

/-- An output of this id and origin. -/
def Carries (messages : List Message) (requestId : RequestId) (origin : StreamRef) : Prop :=
  ∃ outputs, Message.outputs outputs ∈ messages ∧
    ∃ output, (output, origin) ∈ outputs ∧ output.requestId = requestId

theorem Carries.append {before after : List Message} {requestId : RequestId} {origin : StreamRef}
    (h : Carries (before ++ after) requestId origin) :
    Carries before requestId origin ∨ Carries after requestId origin := by
  obtain ⟨outputs, hmem, hout⟩ := h
  exact (List.mem_append.mp hmem).imp (fun hm => ⟨outputs, hm, hout⟩) fun hm => ⟨outputs, hm, hout⟩

theorem not_carries_nil {requestId : RequestId} {origin : StreamRef} :
    ¬ Carries [] requestId origin := fun ⟨_, hmem, _⟩ => List.not_mem_nil hmem

variable {requestId : RequestId} {origin k : StreamRef} {refusal : Option String}

/-- What adding a request leaves live, or answers, was live before or is that request. -/
theorem add_spec (loop : SchedulerLoop) (request : AddRequest) (origin : StreamRef)
    (refusal : Option String) (requestId : RequestId) (k : StreamRef) :
    ((loop.add request origin refusal).1.Live requestId k →
        loop.Live requestId k ∨ (request.requestId = requestId ∧ origin = k)) ∧
      (Carries (loop.add request origin refusal).2 requestId k →
        request.requestId = requestId ∧ origin = k) := by
  unfold add
  split
  · exact ⟨.inl, fun h => absurd h not_carries_nil⟩
  · split
    · refine ⟨.inl, fun h => ?_⟩
      obtain ⟨outputs, hmem, output, hout, hid⟩ := h
      obtain rfl := Message.outputs.inj (List.mem_singleton.mp hmem)
      obtain ⟨rfl, rfl⟩ := Prod.mk.inj (List.mem_singleton.mp hout)
      exact ⟨hid, rfl⟩
    · refine ⟨fun h => ?_, fun h => absurd h not_carries_nil⟩
      obtain ⟨live, hmem, hid, horigin⟩ := h
      rcases List.mem_append.mp hmem with hold | hnew
      · exact .inl ⟨live, hold, hid, horigin⟩
      · obtain rfl := List.mem_singleton.mp hnew
        exact .inr ⟨hid, horigin⟩

theorem addAll_spec (requests : List AddRequest) (origin : StreamRef) (refusal : Option String)
    (requestId : RequestId) (k : StreamRef) : ∀ loop : SchedulerLoop,
    ((loop.addAll origin refusal requests).1.Live requestId k →
        loop.Live requestId k ∨ ((∃ request ∈ requests, request.requestId = requestId) ∧ origin = k)) ∧
      (Carries (loop.addAll origin refusal requests).2 requestId k →
        (∃ request ∈ requests, request.requestId = requestId) ∧ origin = k) := by
  induction requests with
  | nil => exact fun _ => ⟨.inl, fun h => absurd h not_carries_nil⟩
  | cons request requests ih =>
    intro loop
    have hfirst := add_spec loop request origin refusal requestId k
    have hrest := ih (loop.add request origin refusal).1
    refine ⟨fun h => ?_, fun h => ?_⟩
    · rcases hrest.1 h with hlive | ⟨⟨other, hmem, hid⟩, horigin⟩
      · exact (hfirst.1 hlive).imp_right fun ⟨hid, horigin⟩ =>
          ⟨⟨request, List.mem_cons_self, hid⟩, horigin⟩
      · exact .inr ⟨⟨other, List.mem_cons_of_mem _ hmem, hid⟩, horigin⟩
    · rcases h.append with hone | hlater
      · obtain ⟨hid, horigin⟩ := hfirst.2 hone
        exact ⟨⟨request, List.mem_cons_self, hid⟩, horigin⟩
      · obtain ⟨⟨other, hmem, hid⟩, horigin⟩ := hrest.2 hlater
        exact ⟨⟨other, List.mem_cons_of_mem _ hmem, hid⟩, horigin⟩

/-- **Applying.** What is live or answered after a command was live before, or the command
adds it. -/
theorem apply_spec {loop' : SchedulerLoop} {messages : List Message} {command : Command}
    (h : loop.apply command origin refusal = some (loop', messages))
    (htrace : loop'.Live requestId k ∨ Carries messages requestId k) :
    loop.Live requestId k ∨ ((∃ request ∈ DataParallelController.requestsOf command,
      request.requestId = requestId) ∧ origin = k) := by
  cases command with
  | add request =>
    have hspec := add_spec loop request origin refusal requestId k
    rw [show loop.add request origin refusal = (loop', messages) from Option.some.inj h] at hspec
    have hone : ∀ {P : Prop}, (request.requestId = requestId ∧ origin = k) → P ∨
        ((∃ other ∈ DataParallelController.requestsOf (.add request),
          other.requestId = requestId) ∧ origin = k) :=
      fun hid => .inr ⟨⟨request, List.mem_singleton_self _, hid.1⟩, hid.2⟩
    rcases htrace with hlive | hcarries
    · exact (hspec.1 hlive).elim .inl hone
    · exact hone (hspec.2 hcarries)
  | addBatch requests =>
    have hspec := addAll_spec requests origin refusal requestId k loop
    rw [show loop.addAll origin refusal requests = (loop', messages) from Option.some.inj h]
      at hspec
    exact htrace.elim hspec.1 fun hcarries => .inr (hspec.2 hcarries)
  | abort id =>
    cases h
    rcases htrace with ⟨live, hmem, hid⟩ | hcarries
    · exact .inl ⟨live, (List.mem_filter.mp hmem).1, hid⟩
    · exact absurd hcarries not_carries_nil
  | utility callId method =>
    cases h
    rcases htrace with hlive | ⟨outputs, hmem, output, hout, _⟩
    · exact .inl hlive
    · obtain rfl := Message.outputs.inj (List.mem_singleton.mp hmem)
      exact absurd hout List.not_mem_nil
  | wake =>
    cases h
    exact .inl (htrace.resolve_right not_carries_nil)
  | shutdown =>
    cases h
    exact .inl (htrace.resolve_right not_carries_nil)
  | other typeName => cases h

/-- Every event that is published is about a live request, and paired with its origin. -/
theorem publish_live {advanced : List Advanced} : ∀ {sentTokens : RequestId → Option Nat}
    {output : RequestEvent}, (output, origin) ∈ (loop.publish sentTokens advanced).1 →
    loop.Live output.requestId origin := by
  induction advanced with
  | nil => exact fun h => absurd h List.not_mem_nil
  | cons first rest ih =>
    intro sentTokens output h
    unfold publish at h
    split at h
    · exact ih h
    · rename_i request hfind
      have hid : request.requestId = first.requestId := by simpa using List.find?_some hfind
      dsimp only at h
      split at h
      · exact ih h
      · rcases List.mem_cons.mp h with heq | hlater
        · obtain ⟨rfl, rfl⟩ := Prod.mk.inj heq
          exact ⟨request, List.mem_of_find?_eq_some hfind, hid, rfl⟩
        · exact ih hlater

/-- **Working.** A step leaves or publishes what was live. -/
theorem work_spec {advanced : List Advanced}
    (htrace : (loop.work advanced).1.Live requestId k ∨ Carries (loop.work advanced).2 requestId k) :
    loop.Live requestId k := by
  rcases htrace with ⟨live, hmem, hid⟩ | ⟨outputs, hmem, output, hout, hid⟩
  · exact ⟨live, (List.mem_filter.mp hmem).1, hid⟩
  · unfold work at hmem
    dsimp only at hmem
    split at hmem
    · exact absurd hmem List.not_mem_nil
    · obtain rfl := Message.outputs.inj (List.mem_singleton.mp hmem)
      exact hid ▸ publish_live hout

end SchedulerLoop

end RapidLlm
