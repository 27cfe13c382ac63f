import RapidLlm.Engine.AsyncEngine
import RapidLlm.Engine.EventLoop

/-!
# RapidLlm.Engine.StreamIsolation

The engine of `engine/async_engine.py`, its queues, and the scheduler loops behind them, as one
message-passing system.

* A message names its request by an id that the caller chose, and a caller may choose an id again.
  Every message in flight is paired here with the submission it belongs to; a submission is named by
  its stream.
* `delivered` logs which submission's output went to which stream, `released` whose event or abort
  released whose route.
* `Trace` is what is left of a submission in the queues and schedulers. If an id is only taken again
  when no trace of it is left (`Quiet`), both logs are straight (`run_isolated`).
-/

namespace RapidLlm

open DataParallelController (Fault)

/-! ### What a send does to queues and routes -/

namespace DataParallelController

variable {controller : DataParallelController} {requestId x : RequestId}

theorem deliver_mem {messages : List (Nat × Command)} {fault : Fault} {replica : Nat}
    {command : Command}
    (h : command ∈ (controller.deliver messages fault).2.commandQueues replica) :
    command ∈ controller.commandQueues replica ∨ (replica, command) ∈ messages := by
  have hfold : ∀ (messages : List (Nat × Command)) (controller : DataParallelController),
      command ∈ (messages.foldl (fun (controller : DataParallelController) message =>
        { controller with
          commandQueues := Function.update controller.commandQueues message.1
            (controller.commandQueues message.1 ++ [message.2]) }) controller).commandQueues replica →
      command ∈ controller.commandQueues replica ∨ (replica, command) ∈ messages := by
    intro messages
    induction messages with
    | nil => exact fun _ h => .inl h
    | cons message messages ih =>
      intro controller h
      rcases ih _ h with hold | hnew
      · by_cases heq : replica = message.1
        · subst heq
          dsimp only at hold
          rw [Function.update_self] at hold
          refine (List.mem_append.mp hold).imp id fun hlast => ?_
          rw [List.mem_singleton.mp hlast]
          exact List.mem_cons_self
        · dsimp only at hold
          rw [Function.update_of_ne heq] at hold
          exact .inl hold
      · exact .inr (List.mem_cons_of_mem _ hnew)
  unfold deliver at h
  split at h
  · exact hfold messages controller h
  · exact (hfold _ controller h).imp_right fun hmem => List.mem_of_mem_take hmem

theorem replicaMessages_mem {replica other : Nat} {command sent : Command}
    (h : (other, sent) ∈ controller.replicaMessages replica command) :
    sent = command ∨ sent = .wake := by
  unfold replicaMessages at h
  rcases List.mem_cons.mp h with heq | hpeer
  · exact .inl (Prod.mk.inj heq).2
  · split at hpeer
    · obtain ⟨peer, _, heq⟩ := List.mem_map.mp hpeer
      exact .inr (Prod.mk.inj heq).2.symm
    · exact absurd hpeer List.not_mem_nil

theorem broadcast_mem {other : Nat} {command sent : Command}
    (h : (other, sent) ∈ controller.broadcast command) : sent = command := by
  obtain ⟨replica, _, heq⟩ := List.mem_map.mp h
  exact (Prod.mk.inj heq).2.symm

theorem release_queues : (controller.release requestId).commandQueues = controller.commandQueues := by
  unfold release
  split <;> rfl

theorem release_routes (h : x ∈ (controller.release requestId).routes) :
    x ≠ requestId ∧ x ∈ controller.routes := by
  unfold release at h
  split at h
  · rename_i hnone
    refine ⟨fun heq => ?_, h⟩
    rw [heq] at h
    exact Finmap.lookup_eq_none.mp hnone h
  · exact Finmap.mem_erase.mp h

theorem releaseAll_routes : ∀ {outputs : List RequestOutput} {controller : DataParallelController},
    x ∈ (outputs.foldl (fun (controller : DataParallelController) output =>
      controller.release output.requestId) controller).routes → x ∈ controller.routes
  | [], _, h => h
  | _ :: _, _, h => (release_routes (releaseAll_routes h)).2

theorem receive_routes {event : ReplicaEvent} (h : x ∈ (controller.receive event).routes) :
    x ∈ controller.routes := by
  cases event with
  | failed globalRank message => exact h
  | events outputs => exact releaseAll_routes h
  | ready => exact h
  | dead detail =>
    simp only [receive] at h
    split at h <;> exact h

theorem receive_queues (event : ReplicaEvent) :
    (controller.receive event).commandQueues = controller.commandQueues := by
  have hfold : ∀ (outputs : List RequestOutput) (controller : DataParallelController),
      (outputs.foldl (fun (controller : DataParallelController) output =>
        controller.release output.requestId) controller).commandQueues = controller.commandQueues := by
    intro outputs
    induction outputs with
    | nil => exact fun _ => rfl
    | cons output outputs ih => exact fun controller => (ih _).trans release_queues
  cases event with
  | failed globalRank message => rfl
  | events outputs => exact hfold _ _
  | ready => rfl
  | dead detail =>
    simp only [receive]
    split <;> rfl

section

variable [BlockDigest]

theorem route_queues (controller : DataParallelController) (request : AddRequest) :
    (controller.route request).2.commandQueues = controller.commandQueues := by
  unfold route
  split <;> rfl

theorem route_routes (request : AddRequest) (h : x ∈ (controller.route request).2.routes)
    (hne : x ≠ request.requestId) : x ∈ controller.routes := by
  unfold route at h
  split at h
  · exact h
  · exact (Finmap.mem_insert.mp h).resolve_left hne

/-- A single command puts itself and wake-ups into the queues. -/
theorem send_mem {command sent : Command} {fault : Fault} {replica : Nat}
    (hsingle : ∀ requests, command ≠ .addBatch requests)
    (h : sent ∈ (controller.send command fault).2.commandQueues replica) :
    sent ∈ controller.commandQueues replica ∨ sent = command ∨ sent = .wake := by
  unfold send at h
  split at h
  · exact .inl h
  split at h
  · exact .inl h
  cases command with
  | addBatch requests => exact absurd rfl (hsingle requests)
  | add request =>
    dsimp only at h
    split at h
    · exact .inl h
    have hroute := route_queues controller request
    split at h
    · rename_i hrouted
      rw [hrouted] at hroute
      rw [← hroute]
      exact .inl h
    · rename_i chosen after hrouted
      rw [hrouted] at hroute
      have hsent : sent ∈ (after.deliver (after.replicaMessages chosen (.add request))
          fault).2.commandQueues replica := by
        split at h
        · rename_i hdelivered
          rw [hdelivered]
          exact h
        · rename_i hdelivered
          rw [hdelivered]
          rwa [release_queues] at h
      rcases deliver_mem hsent with hold | hnew
      · rw [← hroute]
        exact .inl hold
      · exact .inr (replicaMessages_mem hnew)
  | abort id =>
    dsimp only at h
    split at h
    · exact .inl h
    · rename_i chosen _
      have hsent : sent ∈ (controller.deliver (controller.replicaMessages chosen (.abort id))
          fault).2.commandQueues replica := by
        split at h
        · rename_i hdelivered
          rw [hdelivered]
          exact h
        · rename_i hdelivered
          rw [hdelivered]
          rwa [release_queues] at h
      exact (deliver_mem hsent).imp_right replicaMessages_mem
  | utility callId method =>
    exact (deliver_mem h).imp_right fun hnew => .inl (broadcast_mem hnew)
  | wake => exact (deliver_mem h).imp_right fun hnew => .inl (broadcast_mem hnew)
  | shutdown => exact (deliver_mem h).imp_right fun hnew => .inl (broadcast_mem hnew)
  | other typeName => exact .inl h

/-- A submission under a routed id raises, and does nothing. -/
theorem send_add_routed {request : AddRequest} (h : request.requestId ∈ controller.routes)
    (fault : Fault) :
    ∃ raised, controller.send (.add request) fault = (some raised, controller) := by
  unfold send
  split
  · exact ⟨_, rfl⟩
  split
  · exact ⟨_, rfl⟩
  · dsimp only
    rw [if_pos h]
    exact ⟨_, rfl⟩

/-- A single command opens no route but that of the request it submits. -/
theorem send_routes {command : Command} {fault : Fault}
    (hsingle : ∀ requests, command ≠ .addBatch requests)
    (h : x ∈ (controller.send command fault).2.routes)
    (hne : ∀ request, command = .add request → x ≠ request.requestId) : x ∈ controller.routes := by
  unfold send at h
  split at h
  · exact h
  split at h
  · exact h
  cases command with
  | addBatch requests => exact absurd rfl (hsingle requests)
  | add request =>
    dsimp only at h
    split at h
    · exact h
    split at h
    · rename_i hrouted
      refine route_routes request ?_ (hne request rfl)
      rw [hrouted]
      exact h
    · rename_i chosen after hrouted
      have hbooks := (deliver_books after (after.replicaMessages chosen (.add request)) fault).1
      refine route_routes request ?_ (hne request rfl)
      rw [hrouted]
      split at h
      · rename_i hdelivered
        rw [hdelivered] at hbooks
        exact hbooks ▸ h
      · rename_i hdelivered
        rw [hdelivered] at hbooks
        exact hbooks ▸ (release_routes h).2
  | abort id =>
    dsimp only at h
    split at h
    · exact h
    · rename_i chosen _
      have hbooks := (deliver_books controller (controller.replicaMessages chosen (.abort id)) fault).1
      split at h
      · rename_i hdelivered
        rw [hdelivered] at hbooks
        exact hbooks ▸ h
      · rename_i hdelivered
        rw [hdelivered] at hbooks
        exact hbooks ▸ (release_routes h).2
  | utility callId method => exact (deliver_books controller _ fault).1 ▸ h
  | wake => exact (deliver_books controller _ fault).1 ▸ h
  | shutdown => exact (deliver_books controller _ fault).1 ▸ h
  | other typeName => exact h

end

end DataParallelController

namespace Backend

/-- What has been put for a replica. A single process is replica 0. -/
def queue (backend : Backend) (replica : Nat) : List Command :=
  match backend with
  | process commands _ _ => if replica = 0 then commands else []
  | grid controller _ => controller.commandQueues replica

/-- The routed ids. -/
def Routed (backend : Backend) (requestId : RequestId) : Prop :=
  match backend with
  | process .. => False
  | grid controller _ => requestId ∈ controller.routes

instance (backend : Backend) (requestId : RequestId) : Decidable (backend.Routed requestId) :=
  match backend with
  | process .. => inferInstanceAs (Decidable False)
  | grid controller _ => inferInstanceAs (Decidable (requestId ∈ controller.routes))

/-- The backend once everything put has gone out. -/
def emptied : Backend → Backend
  | process _ code closed => process [] code closed
  | grid controller workers => grid { controller with commandQueues := fun _ => [] } workers

variable {backend : Backend} {requestId x : RequestId}

@[simp] theorem emptied_queue (replica : Nat) : backend.emptied.queue replica = [] := by
  cases backend with
  | process commands code closed => exact ite_self _
  | grid controller workers => rfl

@[simp] theorem emptied_routed : backend.emptied.Routed x ↔ backend.Routed x := by
  cases backend <;> exact Iff.rfl

theorem put_mem [BlockDigest] {command sent : Command} {fault : Fault} {replica : Nat}
    (hempty : ∀ r, backend.queue r = []) (hsingle : ∀ requests, command ≠ .addBatch requests)
    (h : sent ∈ (backend.put command fault).2.queue replica) : sent = command ∨ sent = .wake := by
  cases backend with
  | process commands code closed =>
    have hnil : commands = [] := hempty 0
    subst hnil
    have hnone : sent ∉ (process [] code closed).queue replica := by
      rw [hempty replica]
      exact List.not_mem_nil
    unfold put at h
    dsimp only at h
    split at h
    · exact absurd h hnone
    · split at h
      · exact absurd h hnone
      · unfold queue at h
        dsimp only at h
        split at h
        · exact .inl (List.mem_singleton.mp h)
        · exact absurd h List.not_mem_nil
  | grid controller workers =>
    refine (DataParallelController.send_mem hsingle h).resolve_left fun hold => ?_
    rw [show controller.commandQueues replica = [] from hempty replica] at hold
    exact List.not_mem_nil hold

theorem put_routed [BlockDigest] {command : Command} {fault : Fault}
    (hsingle : ∀ requests, command ≠ .addBatch requests)
    (h : (backend.put command fault).2.Routed x)
    (hne : ∀ request, command = .add request → x ≠ request.requestId) : backend.Routed x := by
  cases backend with
  | process commands code closed =>
    unfold put at h
    dsimp only at h
    split at h
    · exact h
    · split at h <;> exact h
  | grid controller workers => exact DataParallelController.send_routes hsingle h hne

/-- A submission under a routed id is refused. -/
theorem put_add_routed [BlockDigest] {request : AddRequest} {fault : Fault}
    (h : backend.Routed request.requestId) :
    ∃ raised, backend.put (.add request) fault = (some raised, backend) := by
  cases backend with
  | process commands code closed => exact absurd h id
  | grid controller workers =>
    obtain ⟨raised, hsend⟩ := DataParallelController.send_add_routed h fault
    exact ⟨raised, by simp only [put, hsend]⟩

theorem receive_routed {event : SchedulerEvent} (h : (backend.receive event).2.Routed x) :
    backend.Routed x := by
  cases backend with
  | process commands code closed => cases event <;> exact h
  | grid controller workers =>
    cases event with
    | failed message => exact h
    | replicaFailed globalRank message => exact DataParallelController.receive_routes h
    | events outputs => exact DataParallelController.receive_routes h
    | other => exact h

theorem receive_queue (event : SchedulerEvent) (replica : Nat) :
    (backend.receive event).2.queue replica = backend.queue replica := by
  cases backend with
  | process commands code closed => cases event <;> rfl
  | grid controller workers =>
    cases event with
    | failed message => rfl
    | replicaFailed globalRank message =>
      exact congrFun (DataParallelController.receive_queues _) replica
    | events outputs => exact congrFun (DataParallelController.receive_queues _) replica
    | other => rfl

theorem die_queue (worker : Nat) (code : Int) (replica : Nat) :
    (backend.die worker code).queue replica = backend.queue replica := by
  cases backend <;> rfl

theorem die_routed {worker : Nat} {code : Int} : (backend.die worker code).Routed x ↔ backend.Routed x := by
  cases backend <;> exact Iff.rfl

theorem join_mem [BlockDigest] {sent : Command} {fault : Fault} {replica : Nat}
    (hempty : ∀ r, backend.queue r = []) (h : sent ∈ (backend.join fault).queue replica) :
    sent = .shutdown ∨ sent = .wake := by
  cases backend with
  | process commands code closed =>
    rw [show (join (process commands code closed) fault).queue replica =
      (process commands code closed).queue replica from rfl, hempty replica] at h
    exact absurd h List.not_mem_nil
  | grid controller workers =>
    unfold join at h
    dsimp only at h
    split at h
    · rw [hempty replica] at h
      exact absurd h List.not_mem_nil
    · refine (DataParallelController.send_mem (fun _ heq => by cases heq) h).resolve_left
        fun hold => ?_
      rw [show controller.commandQueues replica = [] from hempty replica] at hold
      exact List.not_mem_nil hold

theorem join_routed [BlockDigest] {fault : Fault} (h : (backend.join fault).Routed x) :
    backend.Routed x := by
  cases backend with
  | process commands code closed => exact h
  | grid controller workers =>
    unfold join at h
    dsimp only at h
    split at h
    · exact h
    · exact DataParallelController.send_routes (fun _ heq => by cases heq) h
        fun _ heq => by cases heq

theorem closeChannels_queue (replica : Nat) :
    backend.closeChannels.queue replica = backend.queue replica := by
  cases backend <;> rfl

theorem closeChannels_routed : backend.closeChannels.Routed x ↔ backend.Routed x := by
  cases backend <;> exact Iff.rfl

end Backend

/-! ### The system -/

/-- The engine, the messages in flight with their submissions, and the scheduler loops. What the
engine puts goes out at once, so its own queues are empty between steps. `hand` is what the receiver
has in hand of an event; `owner` is the submission that opened the route under an id. -/
structure StreamWorld where
  engine : AsyncLLMEngine
  commands : Nat → List (Command × StreamRef) := fun _ => []
  events : List Message := []
  hand : List (RequestEvent × StreamRef) := []
  schedulers : Nat → SchedulerLoop := fun _ => {}
  owner : RequestId → StreamRef := fun _ => 0
  /-- A stream, and the submission behind an output that was pushed to it. -/
  delivered : List (StreamRef × StreamRef) := []
  /-- The owner of a route, and the submission whose event or abort released it. -/
  released : List (StreamRef × StreamRef) := []

/-- The event of a message. -/
def Message.event : Message → SchedulerEvent
  | outputs tagged => .events (tagged.map Prod.fst)
  | failed message => .failed message
  | replicaFailed globalRank message => .replicaFailed globalRank message
  | other => .other

/-- The outputs of a message, with their submissions. -/
def Message.tagged : Message → List (RequestEvent × StreamRef)
  | outputs tagged => tagged
  | _ => []

/-- One section of the engine, or one iteration of a scheduler loop. -/
inductive StreamAction
  | engine (action : EngineAction)
  /-- A loop gets a command and applies it; the scheduler may refuse a request. -/
  | apply (replica : Nat) (refusal : Option String)
  /-- A loop steps its scheduler, and publishes. -/
  | work (replica : Nat) (advanced : List Advanced)
  /-- A process reports what is no output. -/
  | report (message : Message)

namespace StreamWorld

/-- The submission on whose behalf a section of the engine puts commands. -/
def sender : EngineAction → StreamRef
  | .submit ref _ _ => ref
  | .endLeave ref _ => ref
  | _ => 0

/-- What the engine has put goes out. -/
def flush (world : StreamWorld) (sender : StreamRef) : StreamWorld :=
  { world with
    engine := { world.engine with backend := world.engine.backend.emptied }
    commands := fun replica => world.commands replica ++
      (world.engine.backend.queue replica).map fun command => (command, sender) }

/-- The releases among the outputs of an event that is received. -/
def releasesOf (owner : RequestId → StreamRef) :
    (RequestId → Bool) → List (RequestEvent × StreamRef) → List (StreamRef × StreamRef)
  | _, [] => []
  | routed, (output, origin) :: rest =>
      if (output.finished || output.error.isSome) && routed output.requestId then
        (owner output.requestId, origin) ::
          releasesOf owner (Function.update routed output.requestId false) rest
      else releasesOf owner routed rest

section

variable [BlockDigest] [Tokenizer]

/-- The receiver gets an event: a controller releases the routes of what has ended. -/
def get (world : StreamWorld) : Option StreamWorld :=
  match world.events with
  | [] => none
  | message :: events =>
      (({ world.engine with events := [message.event] } : AsyncLLMEngine).receive .event).map
        fun engine => { world with
          engine
          events
          hand := message.tagged
          released := world.released ++ releasesOf world.owner
            (fun requestId => decide (world.engine.backend.Routed requestId)) message.tagged }

/-- The receiver pushes the next output to the stream under its id. -/
def push (world : StreamWorld) (output : RequestEvent) : Option StreamWorld :=
  match world.hand with
  | [] => none
  | (_, origin) :: hand =>
      world.engine.receiverOn.map fun engine => { world with
        engine
        hand
        delivered := world.delivered ++
          ((world.engine.tracker.get output.requestId).toList.map fun ref => (ref, origin)) }

/-- A request goes to the backend. A route that opens is its own. -/
def submit (world : StreamWorld) (ref : StreamRef) (promptTokenIds : List Int) (fault : Fault) :
    StreamWorld :=
  let requestId := (world.engine.tracker.objects ref).requestId
  let engine := world.engine.submit ref promptTokenIds fault
  let opened := engine.backend.Routed requestId ∧ ¬ world.engine.backend.Routed requestId
  flush { world with
    engine
    owner := if opened then Function.update world.owner requestId ref else world.owner } ref

/-- The abort of a client that has left, if it has one to send. -/
def endLeave (world : StreamWorld) (ref : StreamRef) (fault : Fault) : StreamWorld :=
  let requestId := (world.engine.tracker.objects ref).requestId
  let engine := world.engine.endLeave ref fault
  let closed := world.engine.backend.Routed requestId ∧ ¬ engine.backend.Routed requestId
  flush { world with
    engine
    released := if closed then world.released ++ [(world.owner requestId, ref)]
      else world.released } ref

/-- What an action does, if it is its turn. An `abort` from outside names no submission, so it logs
no release. -/
def act (world : StreamWorld) : StreamAction → Option StreamWorld
  | .engine (.arrive _) => none
  | .engine (.receive .event) => if world.engine.receiverPc = .get then world.get else none
  | .engine .receiver =>
      match world.engine.receiverPc with
      | .deliver (output :: _) => world.push output
      | _ => (world.engine.act .receiver).map fun engine => flush { world with engine } 0
  | .engine (.submit ref promptTokenIds fault) =>
      if ref < world.engine.tracker.nextRef ∧ world.engine.consumers ref = {} then
        some (world.submit ref promptTokenIds fault)
      else none
  | .engine (.endLeave ref fault) =>
      if (world.engine.consumers ref).left = true ∧ (world.engine.consumers ref).ended = false then
        some (world.endLeave ref fault)
      else none
  | .engine action => (world.engine.act action).map fun engine =>
      flush { world with engine } (sender action)
  | .apply replica refusal =>
      match world.commands replica with
      | [] => none
      | (command, origin) :: commands =>
          if (world.schedulers replica).stopping then none
          else ((world.schedulers replica).apply command origin refusal).map fun applied =>
            { world with
              commands := Function.update world.commands replica commands
              schedulers := Function.update world.schedulers replica applied.1
              events := world.events ++ applied.2 }
  | .work replica advanced =>
      let loop := world.schedulers replica
      if advanced.all fun one => loop.requests.any fun request => request.requestId == one.requestId then
        some { world with
          schedulers := Function.update world.schedulers replica (loop.work advanced).1
          events := world.events ++ (loop.work advanced).2 }
      else none
  | .report message =>
      if message.tagged = [] then some { world with events := world.events ++ [message] } else none

/-- One action of a run. -/
def Step (world : StreamWorld) (action : StreamAction) (world' : StreamWorld) : Prop :=
  world.act action = some world'

end

/-! ### Traces -/

variable {world world' : StreamWorld} {requestId : RequestId} {k ref : StreamRef}

/-- Something of submission `k` under this id is in a queue, in a scheduler or in the receiver's
hand. -/
def Trace (world : StreamWorld) (requestId : RequestId) (k : StreamRef) : Prop :=
  (∃ replica command, (command, k) ∈ world.commands replica ∧
      ∃ request ∈ DataParallelController.requestsOf command, request.requestId = requestId) ∨
    (∃ replica, (world.schedulers replica).Live requestId k) ∨
    SchedulerLoop.Carries world.events requestId k ∨
    ∃ output, (output, k) ∈ world.hand ∧ output.requestId = requestId

/-- A client that has its request under way, or has left it and still has the abort to send. -/
def Claims (engine : AsyncLLMEngine) (ref : StreamRef) : Prop :=
  ref < engine.tracker.nextRef ∧ ((engine.consumers ref).left = false ∨
    ((engine.consumers ref).submitted = true ∧ (engine.consumers ref).ended = false ∧
      (engine.tracker.objects ref).finished = false))

/-- Nothing is left of the earlier submissions under an id. -/
def Quiet (world : StreamWorld) (requestId : RequestId) : Prop :=
  (∀ k, ¬ world.Trace requestId k) ∧ ∀ ref, Claims world.engine ref →
    (world.engine.tracker.objects ref).requestId = requestId →
    (world.engine.consumers ref).left = false

/-- No client takes an id again before it is quiet. -/
def Unhurried (world : StreamWorld) : StreamAction → Prop
  | .engine (.generate requestId) => ∀ ref, (world.engine.generate requestId).1 = .ok ref →
      world.Quiet (world.engine.nameRequest requestId).1
  | _ => True

/-- Every output went to the stream of its own submission, and every route was released by its
own. -/
def Isolated (world : StreamWorld) : Prop :=
  (∀ entry ∈ world.delivered, entry.1 = entry.2) ∧ ∀ entry ∈ world.released, entry.1 = entry.2

/-! ### Calm sections

Most sections of the engine submit nothing, open no route, and take no id. -/

/-- What such a section may change, where the receiver is apart. -/
structure Narrows (engine engine' : AsyncLLMEngine) : Prop where
  table : engine.tracker.WellFormed → engine'.tracker.WellFormed
  nextRef : engine'.tracker.nextRef = engine.tracker.nextRef
  ids : ∀ ref, (engine'.tracker.objects ref).requestId = (engine.tracker.objects ref).requestId
  streams : engine'.tracker.streams ⊆ engine.tracker.streams
  /-- While the engine runs, only the entry of a client that leaves is taken out. -/
  kept : engine.tracker.WellFormed → engine'.state = .running →
    ∀ entry ∈ engine.tracker.streams, (engine'.consumers entry.2).left = false →
      entry ∈ engine'.tracker.streams
  finished : ∀ ref, (engine'.tracker.objects ref).finished = false →
    (engine.tracker.objects ref).finished = false
  submitted : ∀ ref, (engine'.consumers ref).submitted = (engine.consumers ref).submitted
  left : ∀ ref, (engine'.consumers ref).left = false → (engine.consumers ref).left = false
  ended : ∀ ref, (engine'.consumers ref).ended = false → (engine.consumers ref).ended = false
  fresh : (∀ ref, engine.tracker.nextRef ≤ ref → engine.consumers ref = {}) →
    ∀ ref, engine.tracker.nextRef ≤ ref → engine'.consumers ref = {}
  running : engine'.state = .running → engine.state = .running
  closing : (engine.shutdownPc ≠ .notCalled → engine.state ≠ .running) →
    engine'.shutdownPc ≠ .notCalled → engine'.state ≠ .running
  routed : ∀ x, engine'.backend.Routed x → engine.backend.Routed x
  queue : (∀ r, engine.backend.queue r = []) → ∀ r, ∀ command ∈ engine'.backend.queue r,
    DataParallelController.requestsOf command = []

/-- And the receiver has nothing new in hand. -/
structure Calm (engine engine' : AsyncLLMEngine) : Prop extends Narrows engine engine' where
  hand : ∀ outputs, engine'.receiverPc = .deliver outputs → engine.receiverPc = .deliver outputs

namespace Calm

variable {engine engine' : AsyncLLMEngine}

theorem refl (engine : AsyncLLMEngine) : Calm engine engine where
  table := id
  nextRef := rfl
  ids := fun _ => rfl
  streams := fun _ h => h
  kept := fun _ _ _ h _ => h
  finished := fun _ h => h
  submitted := fun _ => rfl
  left := fun _ h => h
  ended := fun _ h => h
  fresh := id
  running := id
  closing := id
  routed := fun _ h => h
  queue := fun hempty r command h => by
    rw [hempty r] at h
    exact absurd h List.not_mem_nil
  hand := fun _ h => h

/-- Another backend. -/
theorem backend {backend : Backend} (hrouted : ∀ x, backend.Routed x → engine.backend.Routed x)
    (hqueue : (∀ r, engine.backend.queue r = []) → ∀ r, ∀ command ∈ backend.queue r,
      DataParallelController.requestsOf command = []) : Calm engine { engine with backend } :=
  { refl engine with
    routed := hrouted
    queue := hqueue }

/-- A backend that has sent nothing more. -/
theorem backend_queue {backend : Backend} (hrouted : ∀ x, backend.Routed x → engine.backend.Routed x)
    (hqueue : ∀ r, backend.queue r = engine.backend.queue r) : Calm engine { engine with backend } :=
  Calm.backend hrouted fun hempty r command hmem => by
    rw [hqueue r, hempty r] at hmem
    exact absurd hmem List.not_mem_nil

/-- A command without requests is put. -/
theorem put [BlockDigest] {command : Command} (fault : Fault)
    (hnone : DataParallelController.requestsOf command = [])
    (hsingle : ∀ requests, command ≠ .addBatch requests)
    (hadd : ∀ request, command ≠ .add request) :
    Calm engine { engine with backend := (engine.backend.put command fault).2 } :=
  backend (fun _ h => Backend.put_routed hsingle h fun request heq => absurd heq (hadd request))
    fun hempty r sent hsent => by
      rcases Backend.put_mem hempty hsingle hsent with rfl | rfl
      · exact hnone
      · rfl

/-- A change to a stream object. -/
theorem modify {f : RequestStream → RequestStream} (ref : StreamRef)
    (hid : ∀ stream, (f stream).requestId = stream.requestId)
    (hfinished : ∀ stream, (f stream).finished = false → stream.finished = false) :
    Calm engine { engine with tracker := engine.tracker.modify ref f } :=
  { refl engine with
    table := fun h => h.modify hid ref
    ids := fun other => by
      show (Function.update engine.tracker.objects ref (f (engine.tracker.objects ref))
        other).requestId = _
      by_cases heq : other = ref
      · rw [heq, Function.update_self, hid]
      · rw [Function.update_of_ne heq]
    finished := fun other h => by
      change (Function.update engine.tracker.objects ref (f (engine.tracker.objects ref))
        other).finished = false at h
      by_cases heq : other = ref
      · rw [heq, Function.update_self] at h
        rw [heq]
        exact hfinished _ h
      · rw [Function.update_of_ne heq] at h
        exact h }

/-- A client moves on. -/
theorem consumer {ref : StreamRef} {consumer : Consumer} (hlt : ref < engine.tracker.nextRef)
    (hsubmitted : consumer.submitted = (engine.consumers ref).submitted)
    (hleft : consumer.left = false → (engine.consumers ref).left = false)
    (hended : consumer.ended = false → (engine.consumers ref).ended = false) :
    Calm engine { engine with consumers := Function.update engine.consumers ref consumer } := by
  have hcases : ∀ {P : StreamRef → Consumer → Prop}, P ref consumer →
      (∀ other, other ≠ ref → P other (engine.consumers other)) →
      ∀ other, P other (Function.update engine.consumers ref consumer other) := by
    intro P hself hother other
    by_cases heq : other = ref
    · rw [heq, Function.update_self]
      exact hself
    · rw [Function.update_of_ne heq]
      exact hother other heq
  exact { refl engine with
    kept := fun _ _ _ h _ => h
    submitted := hcases (P := fun other was => was.submitted = (engine.consumers other).submitted)
      hsubmitted fun _ _ => rfl
    left := hcases (P := fun other was => was.left = false → (engine.consumers other).left = false)
      hleft fun _ _ => id
    ended := hcases (P := fun other was => was.ended = false →
      (engine.consumers other).ended = false) hended fun _ _ => id
    fresh := fun hfresh => hcases (P := fun other was => engine.tracker.nextRef ≤ other → was = {})
      (fun hle => absurd hlt hle.not_gt) fun other _ => hfresh other }

/-- The receiver goes on. -/
theorem go {pc : ReceiverPc} (hpc : ∀ outputs, pc ≠ .deliver outputs) :
    Calm engine { engine with receiverPc := pc } :=
  { refl engine with hand := fun outputs h => absurd h (hpc outputs) }

theorem trans {engine'' : AsyncLLMEngine} (h : Calm engine engine') (h' : Calm engine' engine'')
    (hqueue : (∀ r, engine.backend.queue r = []) → ∀ r, engine'.backend.queue r = []) :
    Calm engine engine'' where
  table := h'.table ∘ h.table
  nextRef := h'.nextRef.trans h.nextRef
  ids := fun ref => (h'.ids ref).trans (h.ids ref)
  streams := fun _ hmem => h.streams (h'.streams hmem)
  kept := fun htable hrunning entry hentry hleft =>
    h'.kept (h.table htable) hrunning entry
      (h.kept htable (h'.running hrunning) entry hentry (h'.left _ hleft)) hleft
  finished := fun ref hf => h.finished ref (h'.finished ref hf)
  submitted := fun ref => (h'.submitted ref).trans (h.submitted ref)
  left := fun ref hl => h.left ref (h'.left ref hl)
  ended := fun ref he => h.ended ref (h'.ended ref he)
  fresh := fun hfresh ref hle => h'.fresh (fun other hother => h.fresh hfresh other (h.nextRef ▸ hother))
    ref (h.nextRef.symm ▸ hle)
  running := fun hrunning => h.running (h'.running hrunning)
  closing := fun hclosing => h'.closing (h.closing hclosing)
  routed := fun x hrouted => h.routed x (h'.routed x hrouted)
  queue := fun hempty => h'.queue (hqueue hempty)
  hand := fun outputs hpc => h.hand outputs (h'.hand outputs hpc)

end Calm

/-! ### The sections, one by one -/

section

variable {engine engine' : AsyncLLMEngine}

theorem calm_startReceiver : Calm engine engine.startReceiver := by
  unfold AsyncLLMEngine.startReceiver
  split
  · exact .refl engine
  · exact { Calm.refl engine with hand := fun _ => ReceiverPc.noConfusion }

theorem calm_leave (hlt : ref < engine.tracker.nextRef) : Calm engine (engine.leave ref) := by
  have hconsumer : Calm engine { engine with
      consumers := Function.update engine.consumers ref
        { engine.consumers ref with left := true } } :=
    .consumer hlt rfl Bool.noConfusion id
  exact { hconsumer with
    table := fun h => h.remove _ _
    nextRef := RequestTracker.remove_nextRef
    ids := fun other => by
      show (((engine.tracker.remove _ ref).objects other).requestId) = _
      rw [RequestTracker.remove_objects]
    streams := RequestTracker.remove_subset
    kept := fun h _ entry hentry hleft => RequestTracker.mem_remove h hentry fun heq => by
      change (Function.update engine.consumers ref _ entry.2).left = false at hleft
      rw [heq, Function.update_self] at hleft
      cases hleft
    finished := fun other hf => by
      change (((engine.tracker.remove _ ref).objects other).finished) = false at hf
      rwa [RequestTracker.remove_objects] at hf }

section

variable [BlockDigest]

theorem calm_abort (requestId : RequestId) (fault : Fault) : Calm engine (engine.abort requestId fault) := by
  unfold AsyncLLMEngine.abort
  split
  · exact .put fault rfl (fun _ heq => by cases heq) fun _ heq => by cases heq
  · exact .refl engine

theorem calm_endLeave (hlt : ref < engine.tracker.nextRef) (fault : Fault) :
    Calm engine (engine.endLeave ref fault) := by
  have hconsumer : Calm engine { engine with
      consumers := Function.update engine.consumers ref
        { engine.consumers ref with ended := true } } :=
    .consumer hlt rfl id Bool.noConfusion
  unfold AsyncLLMEngine.endLeave
  dsimp only
  split
  · exact hconsumer.trans (calm_abort _ fault) id
  · exact hconsumer

theorem calm_shutdown (fault : Fault) : Calm engine (engine.shutdown fault) := by
  have hput : Calm engine { engine with backend := (engine.backend.put .shutdown fault).2 } :=
    .put fault rfl (fun _ heq => by cases heq) fun _ heq => by cases heq
  unfold AsyncLLMEngine.shutdown
  split
  · exact .refl engine
  · exact .refl engine
  · exact { hput with
      kept := fun _ => Lifecycle.noConfusion
      running := Lifecycle.noConfusion
      closing := fun _ _ => Lifecycle.noConfusion }

/-- `clear` empties the table, but not while the engine runs. -/
theorem calm_shutdownOn {fault : Fault}
    (hclosing : engine.shutdownPc ≠ .notCalled → engine.state ≠ .running)
    (hact : engine.shutdownOn fault = some engine') : Calm engine engine' := by
  have hgo : ∀ pc, engine.shutdownPc ≠ .notCalled → Calm engine { engine with shutdownPc := pc } :=
    fun pc hpc => { Calm.refl engine with closing := fun h _ => h hpc }
  unfold AsyncLLMEngine.shutdownOn at hact
  cases hpc : engine.shutdownPc with
  | notCalled =>
    rw [hpc] at hact
    cases hact
  | returned =>
    rw [hpc] at hact
    cases hact
  | joinReceiver =>
    rw [hpc] at hact
    cases hact
    exact hgo _ fun h => ShutdownPc.noConfusion (hpc.symm.trans h)
  | joinBackend =>
    rw [hpc] at hact
    cases hact
    have hcalled : engine.shutdownPc ≠ .notCalled := fun h => ShutdownPc.noConfusion (hpc.symm.trans h)
    exact { hgo .clear hcalled with
      routed := fun _ => Backend.join_routed
      queue := fun hempty r command hmem => by
        rcases Backend.join_mem hempty hmem with rfl | rfl <;> rfl }
  | clear =>
    rw [hpc] at hact
    cases hact
    have hcalled : engine.shutdownPc ≠ .notCalled := fun h => ShutdownPc.noConfusion (hpc.symm.trans h)
    exact { hgo (.clearing []) hcalled with
      table := RequestTracker.WellFormed.takeAll
      streams := List.nil_subset _
      kept := fun _ hrunning => absurd hrunning (hclosing hcalled)
      closing := fun h _ => h hcalled }
  | clearing refs =>
    have hcalled : engine.shutdownPc ≠ .notCalled := fun h => ShutdownPc.noConfusion (hpc.symm.trans h)
    rw [hpc] at hact
    cases refs with
    | nil =>
      cases hact
      exact hgo _ hcalled
    | cons ref refs =>
      cases hact
      have hfail : Calm engine { engine with
          tracker := engine.tracker.modify ref fun stream => stream.fail .closed } :=
        .modify ref (fun stream => stream.fail_requestId _) fun _ => Bool.noConfusion
      exact { hfail with closing := fun h _ => h hcalled }
  | closeChannels =>
    rw [hpc] at hact
    cases hact
    have hcalled : engine.shutdownPc ≠ .notCalled := fun h => ShutdownPc.noConfusion (hpc.symm.trans h)
    have hclose : Calm engine { engine with backend := engine.backend.closeChannels } :=
      .backend_queue (fun _ h => Backend.closeChannels_routed.mp h) Backend.closeChannels_queue
    exact { hclose with closing := fun h _ => h hcalled }
  | finish =>
    rw [hpc] at hact
    cases hact
    exact { Calm.refl engine with
      kept := fun _ => Lifecycle.noConfusion
      running := Lifecycle.noConfusion
      closing := fun _ _ => Lifecycle.noConfusion }

theorem calm_stats (due : Bool) (fault : Fault) : Calm engine (engine.stats due fault) := by
  unfold AsyncLLMEngine.stats
  split
  · have hput : Calm engine { engine with
        backend := (engine.backend.put (.utility engine.utilityIds "step_stats") fault).2 } :=
      .put fault rfl (fun _ heq => by cases heq) fun _ heq => by cases heq
    exact { hput with
      hand := fun outputs hpc => by
        dsimp only at hpc
        split at hpc <;> cases hpc }
  · exact .go fun _ => ReceiverPc.noConfusion

end

theorem calm_die (worker : Nat) (code : Int) :
    Calm engine { engine with backend := engine.backend.die worker code } :=
  .backend_queue (fun _ h => Backend.die_routed.mp h) (Backend.die_queue worker code)

/-- The receiver gets no event. -/
theorem calm_receive {arrival : AsyncLLMEngine.Arrival} (harrival : arrival ≠ .event)
    (hact : engine.receive arrival = some engine') : Calm engine engine' := by
  unfold AsyncLLMEngine.receive at hact
  cases arrival with
  | event => exact absurd rfl harrival
  | timeout =>
    cases hact
    exact .go fun _ => ReceiverPc.noConfusion
  | closed =>
    dsimp only at hact
    split at hact
    · cases hact
      exact .go fun _ => ReceiverPc.noConfusion
    · cases hact
  | dead detail =>
    dsimp only at hact
    split at hact
    · rename_i controller workers hbackend
      split at hact
      · cases hact
      · cases hact
        have hdead : Calm engine { engine with
            backend := .grid (controller.receive (.dead detail)) workers } :=
          .backend_queue (fun x h => hbackend ▸ DataParallelController.receive_routes h)
            fun r => by
              rw [hbackend]
              exact congrFun (DataParallelController.receive_queues _) r
        exact { hdead with hand := fun _ => ReceiverPc.noConfusion }
    · cases hact

/-- The receiver delivers nothing. -/
theorem calm_receiverOn [Tokenizer]
    (hidle : ∀ output outputs, engine.receiverPc ≠ .deliver (output :: outputs))
    (hact : engine.receiverOn = some engine') : Calm engine engine' := by
  unfold AsyncLLMEngine.receiverOn at hact
  cases hpc : engine.receiverPc with
  | unstarted =>
    rw [hpc] at hact
    cases hact
  | get =>
    rw [hpc] at hact
    cases hact
  | stats =>
    rw [hpc] at hact
    cases hact
  | done raised =>
    rw [hpc] at hact
    cases hact
  | top =>
    rw [hpc] at hact
    cases hact
    exact .go fun _ h => by split at h <;> cases h
  | empty =>
    rw [hpc] at hact
    cases hact
    exact .go fun _ h => by split at h <;> cases h
  | exit =>
    rw [hpc] at hact
    cases hact
    exact .go fun _ h => by split at h <;> cases h
  | mark message exiting =>
    rw [hpc] at hact
    dsimp only at hact
    split at hact
    · cases hact
      exact { Calm.refl engine with
        kept := fun _ => Lifecycle.noConfusion
        running := Lifecycle.noConfusion
        closing := fun _ _ => Lifecycle.noConfusion
        hand := fun _ => ReceiverPc.noConfusion }
    · cases hact
      exact .go fun _ h => by cases exiting <;> cases h
  | failAll error exiting =>
    rw [hpc] at hact
    cases hact
    exact .go fun _ => ReceiverPc.noConfusion
  | failing error refs exiting =>
    rw [hpc] at hact
    cases refs with
    | nil =>
      cases hact
      exact .go fun _ h => by cases exiting <;> cases h
    | cons ref refs =>
      cases hact
      have hfail : Calm engine { engine with
          tracker := engine.tracker.modify ref fun stream => stream.fail (.error error) } :=
        .modify ref (fun stream => stream.fail_requestId _) fun _ => Bool.noConfusion
      exact { hfail with hand := fun _ => ReceiverPc.noConfusion }
  | deliver outputs =>
    cases outputs with
    | nil =>
      rw [hpc] at hact
      cases hact
      exact .go fun _ => ReceiverPc.noConfusion
    | cons output outputs => exact absurd hpc (hidle output outputs)
  | handled =>
    rw [hpc] at hact
    cases hact
    exact .go fun _ h => by split at h <;> cases h

end

end StreamWorld

end RapidLlm
