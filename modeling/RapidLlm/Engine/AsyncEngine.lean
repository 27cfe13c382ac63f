import RapidLlm.Engine.RequestTracker
import RapidLlm.Engine.DataParallel

/-!
# RapidLlm.Engine.AsyncEngine

The parent process of a scheduler (`AsyncLLMEngine` in `engine/async_engine.py`): the coroutines
that call `generate`, `abort` and `shutdown`, and the one output receiver thread.

* `act` is one section of one thread: what runs under a lock, or between two points where another
  thread may come in. `receiverPc` and `shutdownPc` say where the receiver and the first `shutdown`
  are; a second `shutdown` returns at once.
* The backend is one scheduler process or a `DataParallelController`. It dies when it likes, and
  whatever events it likes arrive.
* `Sound` is what every section keeps as long as the receiver does not leave by an exception
  (`Uninterrupted`). From there no stream is stranded (`run_no_stranded`).
-/

namespace RapidLlm

open DataParallelController (Fault)

/-- `_Lifecycle` -/
inductive Lifecycle
  | starting
  | running
  | failed
  | closing
  | closed
  deriving DecidableEq, Repr

/-- `_Lifecycle.value` -/
def Lifecycle.value : Lifecycle → String
  | starting => "starting"
  | running => "running"
  | failed => "failed"
  | closing => "closing"
  | closed => "closed"

/-- What arrives on an event queue. `other` is an event the engine ignores. -/
inductive SchedulerEvent
  | failed (message : String)
  | replicaFailed (globalRank : Nat) (message : String)
  | events (outputs : List RequestEvent)
  | other
  deriving DecidableEq, Repr

/-- What the controller reads of an event. -/
def RequestEvent.toOutput (event : RequestEvent) : RequestOutput :=
  ⟨event.requestId, event.finished, event.error.isSome⟩

namespace DataParallelController

variable {controller : DataParallelController}

/-! ### Only `shutdown` closes a controller -/

theorem deliver_closed (controller : DataParallelController) (messages : List (Nat × Command)) (fault : Fault) :
    (controller.deliver messages fault).2.closed = controller.closed := by
  have hfold : ∀ (messages : List (Nat × Command)) (controller : DataParallelController),
      (messages.foldl (fun (controller : DataParallelController) message =>
        { controller with
          commandQueues := Function.update controller.commandQueues message.1
            (controller.commandQueues message.1 ++ [message.2]) }) controller).closed =
        controller.closed := by
    intro messages
    induction messages with
    | nil => exact fun _ => rfl
    | cons message messages ih => exact fun controller => ih _
  unfold deliver
  split
  · exact hfold messages controller
  · exact hfold _ controller

theorem release_closed (requestId : RequestId) :
    (controller.release requestId).closed = controller.closed := by
  unfold release
  split <;> rfl

theorem releaseAll_closed : ∀ (requestIds : List RequestId) {controller : DataParallelController},
    (requestIds.foldl release controller).closed = controller.closed
  | [], _ => rfl
  | requestId :: requestIds, _ =>
    (releaseAll_closed requestIds).trans (release_closed requestId)

theorem receive_closed (event : ReplicaEvent) :
    (controller.receive event).closed = controller.closed := by
  cases event with
  | failed globalRank message => rfl
  | events outputs =>
    show ((outputs.filter _).foldl (fun c output => release c output.requestId) controller).closed = _
    rw [← List.foldl_map (f := RequestOutput.requestId) (g := release)]
    exact releaseAll_closed _
  | ready => rfl
  | dead detail =>
    simp only [receive]
    split <;> rfl

section

variable [BlockDigest]

theorem route_closed (controller : DataParallelController) (request : AddRequest) :
    (controller.route request).2.closed = controller.closed := by
  unfold route
  split <;> rfl

theorem routeBatch_closed : ∀ (requests : List AddRequest) (grouped : Nat → List AddRequest)
    (controller : DataParallelController),
    (routeBatch requests grouped controller).2.closed = controller.closed
  | [], _, _ => rfl
  | request :: requests, grouped, controller => by
      have hone := route_closed controller request
      unfold routeBatch
      split
      · rename_i raised after hroute
        rw [hroute] at hone
        exact hone
      · rename_i replica after hroute
        rw [hroute] at hone
        exact (routeBatch_closed requests _ _).trans hone

theorem send_closed (command : Command) (fault : Fault) :
    (controller.send command fault).2.closed = controller.closed := by
  unfold send
  split
  · rfl
  split
  · rfl
  cases command with
  | addBatch requests =>
    have hroute := routeBatch_closed requests (fun _ => []) controller
    dsimp only
    split
    · rfl
    split
    · rfl
    split
    · rename_i hrouted
      rw [hrouted] at hroute
      exact hroute
    · rename_i grouped after hrouted
      rw [hrouted] at hroute
      have hsent := deliver_closed after ((List.range after.policy.dpSize).flatMap fun replica =>
        if grouped replica = [] then []
        else after.replicaMessages replica (.addBatch (grouped replica))) fault
      split
      · rename_i hdelivered
        rw [hdelivered] at hsent
        exact hsent.trans hroute
      · rename_i hdelivered
        rw [hdelivered] at hsent
        exact (releaseAll_closed _).trans (hsent.trans hroute)
  | add request =>
    have hroute := route_closed controller request
    dsimp only
    split
    · rfl
    split
    · rename_i hrouted
      rw [hrouted] at hroute
      exact hroute
    · rename_i replica after hrouted
      rw [hrouted] at hroute
      have hsent := deliver_closed after (after.replicaMessages replica (.add request)) fault
      split
      · rename_i hdelivered
        rw [hdelivered] at hsent
        exact hsent.trans hroute
      · rename_i hdelivered
        rw [hdelivered] at hsent
        exact (release_closed _).trans (hsent.trans hroute)
  | abort requestId =>
    dsimp only
    split
    · rfl
    · rename_i replica _
      have hsent := deliver_closed controller
        (controller.replicaMessages replica (.abort requestId)) fault
      split
      · rename_i hdelivered
        rw [hdelivered] at hsent
        exact hsent
      · rename_i hdelivered
        rw [hdelivered] at hsent
        exact (release_closed _).trans hsent
  | utility callId method => exact deliver_closed _ _ _
  | wake => exact deliver_closed _ _ _
  | shutdown => exact deliver_closed _ _ _
  | other typeName => rfl

end

end DataParallelController

/-! ### The backend -/

/-- Where commands go: the queue of one scheduler process, or a controller. A process that is alive
has no exit code. -/
inductive Backend
  | process (commands : List Command) (exitcode : Option Int) (closed : Bool)
  | grid (controller : DataParallelController) (workers : List (Option Int))

namespace Backend

/-- `repr` of an exit code. -/
def codeText : Option Int → String
  | none => "None"
  | some code => toString code

/-- `_backend_exitcode` -/
def exitcode : Backend → String
  | process _ code _ => codeText code
  | grid _ [code] => "(" ++ codeText code ++ ",)"
  | grid _ codes => "(" ++ ", ".intercalate (codes.map codeText) ++ ")"

/-- `_backend_is_alive` -/
def isAlive : Backend → Bool
  | process _ code _ => code.isNone
  | grid controller workers =>
      controller.failure.isNone && !controller.closed && workers.all Option.isNone

/-- A put or a get raises. -/
def closed : Backend → Bool
  | process _ _ closed => closed
  | grid controller _ => controller.closed

/-- `_put_command` -/
def put [BlockDigest] (backend : Backend) (command : Command) (fault : Fault) :
    Option Raised × Backend :=
  match backend with
  | process commands code closed =>
      if closed then (some (.valueError "Queue is closed"), backend)
      else match fault with
      | some (0, raised) => (some raised, backend)
      | _ => (none, process (commands ++ [command]) code closed)
  | grid controller workers =>
      let sent := controller.send command fault
      (sent.1, grid sent.2 workers)

/-- What `_get_event` returns of an event that it got. -/
def receive (backend : Backend) (event : SchedulerEvent) : SchedulerEvent × Backend :=
  match backend, event with
  | grid controller workers, .replicaFailed globalRank message =>
      (.failed s!"data-parallel rank {globalRank} failed:\n{message}",
        grid (controller.receive (.failed globalRank message)) workers)
  | grid controller workers, .events outputs =>
      (event, grid (controller.receive (.events (outputs.map RequestEvent.toOutput))) workers)
  | _, _ => (event, backend)

/-- A process exits. -/
def die (backend : Backend) (worker : Nat) (code : Int) : Backend :=
  match backend with
  | process commands old closed => process commands (some (old.getD code)) closed
  | grid controller workers =>
      grid controller (workers.modify worker fun old => some (old.getD code))

/-- `_join_backend`: what is still alive is terminated. -/
def join [BlockDigest] (backend : Backend) (fault : Fault) : Backend :=
  match backend with
  | process commands code closed => process commands (some (code.getD (-15))) closed
  | grid controller workers =>
      if controller.closed then backend
      else
        let sent := (controller.send .shutdown fault).2
        grid { sent with closed := true } (workers.map fun code => some (code.getD (-15)))

/-- `_close_channels` -/
def closeChannels : Backend → Backend
  | process commands code _ => process commands code true
  | grid controller workers => grid controller workers

end Backend

/-! ### The engine -/

/-- Where the receiver thread is. -/
inductive ReceiverPc
  | unstarted
  /-- Before the test of the loop. -/
  | top
  /-- In `_get_event`. -/
  | get
  /-- It raised `queue.Empty`. -/
  | empty
  /-- In `_on_process_exit`. -/
  | exit
  /-- In `_mark_failed`, on the way out of the loop or not. -/
  | mark (message : String) (exiting : Bool)
  /-- At the `fail_all` of `_mark_failed`. -/
  | failAll (error : Raised) (exiting : Bool)
  /-- In the loop of `fail_all`. -/
  | failing (error : Raised) (refs : List StreamRef) (exiting : Bool)
  /-- In the loop of `_handle_event`. -/
  | deliver (outputs : List RequestEvent)
  /-- Behind the `try`. -/
  | handled
  /-- At the statistics. -/
  | stats
  /-- The thread has ended, by an exception or not. -/
  | done (raised : Option Raised)
  deriving DecidableEq, Repr

/-- Where the first `shutdown` is. -/
inductive ShutdownPc
  | notCalled
  | joinReceiver
  | joinBackend
  | clear
  /-- In the loop of `clear`. -/
  | clearing (refs : List StreamRef)
  | closeChannels
  | finish
  | returned
  deriving DecidableEq, Repr

/-- A client of `generate`: whether its request is submitted, and whether its `finally` has taken
the stream out of the table, and is done. -/
structure Consumer where
  submitted : Bool := false
  left : Bool := false
  ended : Bool := false
  deriving DecidableEq, Repr

/-- `AsyncLLMEngine`, with its event queue, its clients and its threads. `receiver` is whether
`_receiver` is set. -/
structure AsyncLLMEngine where
  backend : Backend
  events : List SchedulerEvent := []
  tracker : RequestTracker := {}
  requestIds : Nat := 0
  utilityIds : Nat := 0
  state : Lifecycle := .running
  failure : Option Raised := none
  receiver : Bool := false
  stopReceiver : Bool := false
  consumers : StreamRef → Consumer := fun _ => {}
  receiverPc : ReceiverPc := .unstarted
  shutdownPc : ShutdownPc := .notCalled

namespace AsyncLLMEngine

/-- `_require_running` -/
def requireRunning (engine : AsyncLLMEngine) : Option Raised :=
  match engine.state with
  | .running => none
  | .failed => engine.failure
  | state => some (.runtimeError s!"AsyncLLMEngine is {state.value}")

/-- `_start_receiver_locked` -/
def startReceiver (engine : AsyncLLMEngine) : AsyncLLMEngine :=
  if engine.receiver then engine
  else { engine with
    receiver := true
    receiverPc := .top }

/-- The id of a request that was given none. -/
def nameRequest (engine : AsyncLLMEngine) (requestId : RequestId) : RequestId × AsyncLLMEngine :=
  if requestId = "" then
    (s!"request-{engine.requestIds}", { engine with requestIds := engine.requestIds + 1 })
  else (requestId, engine)

/-- `generate`, to the end of its first locked section. -/
def generate (engine : AsyncLLMEngine) (requestId : RequestId) :
    Except Raised StreamRef × AsyncLLMEngine :=
  match engine.state with
  | .running =>
      let named := engine.startReceiver.nameRequest requestId
      let registered := named.2.tracker.register named.1
      (registered.1, { named.2 with tracker := registered.2 })
  | _ => (.error (engine.requireRunning.getD (.runtimeError "")), engine)

section

variable [BlockDigest]

/-- `generate`, its second locked section: the request goes to the backend. Tokenising raises before
it if there is nothing to tokenise. -/
def submit (engine : AsyncLLMEngine) (ref : StreamRef) (promptTokenIds : List Int) (fault : Fault) :
    AsyncLLMEngine :=
  if promptTokenIds = [] ∨ engine.state ≠ .running then engine
  else
    let sent := engine.backend.put
      (.add ⟨(engine.tracker.objects ref).requestId, promptTokenIds⟩) fault
    let engine := { engine with backend := sent.2 }
    if sent.1.isSome then engine
    else { engine with
      consumers := Function.update engine.consumers ref
        { engine.consumers ref with submitted := true } }

/-- `abort` -/
def abort (engine : AsyncLLMEngine) (requestId : RequestId) (fault : Fault) : AsyncLLMEngine :=
  if engine.state = .running then
    { engine with backend := (engine.backend.put (.abort requestId) fault).2 }
  else engine

/-- The `finally` of `generate`, its first statement. -/
def leave (engine : AsyncLLMEngine) (ref : StreamRef) : AsyncLLMEngine :=
  { engine with
    tracker := engine.tracker.remove (engine.tracker.objects ref).requestId ref
    consumers := Function.update engine.consumers ref { engine.consumers ref with left := true } }

/-- The `finally` of `generate`, its second statement. -/
def endLeave (engine : AsyncLLMEngine) (ref : StreamRef) (fault : Fault) : AsyncLLMEngine :=
  let stream := engine.tracker.objects ref
  let submitted := (engine.consumers ref).submitted
  let engine := { engine with
    consumers := Function.update engine.consumers ref { engine.consumers ref with ended := true } }
  if submitted ∧ stream.finished = false then engine.abort stream.requestId fault else engine

/-- `shutdown`, its first locked section. -/
def shutdown (engine : AsyncLLMEngine) (fault : Fault) : AsyncLLMEngine :=
  match engine.state with
  | .closing | .closed => engine
  | _ => { engine with
      state := .closing
      backend := (engine.backend.put .shutdown fault).2
      stopReceiver := true
      shutdownPc := .joinReceiver }

/-- `shutdown`, one section further. Joining the receiver gives up after a while. -/
def shutdownOn (engine : AsyncLLMEngine) (fault : Fault) : Option AsyncLLMEngine :=
  match engine.shutdownPc with
  | .notCalled | .returned => none
  | .joinReceiver => some { engine with shutdownPc := .joinBackend }
  | .joinBackend => some { engine with
      backend := engine.backend.join fault
      shutdownPc := .clear }
  | .clear => some { engine with
      tracker := engine.tracker.takeAll.2
      shutdownPc := .clearing engine.tracker.takeAll.1 }
  | .clearing (ref :: refs) => some { engine with
      tracker := engine.tracker.modify ref fun stream => stream.fail .closed
      shutdownPc := .clearing refs }
  | .clearing [] => some { engine with shutdownPc := .closeChannels }
  | .closeChannels => some { engine with
      backend := engine.backend.closeChannels
      shutdownPc := .finish }
  | .finish => some { engine with
      receiver := false
      state := .closed
      shutdownPc := .returned }

end

/-! ### The receiver thread -/

/-- How `_get_event` ends. -/
inductive Arrival
  | event
  | timeout
  /-- `receive` of a controller finds dead ranks. -/
  | dead (detail : String)
  /-- The queue is closed. -/
  | closed
  deriving DecidableEq, Repr

/-- Where `_mark_failed` returns to. -/
def afterMark (exiting : Bool) : ReceiverPc := if exiting then .done none else .handled

/-- `_get_event`, and what follows up to the next point where another thread may come in. -/
def receive (engine : AsyncLLMEngine) : Arrival → Option AsyncLLMEngine
  | .timeout => some { engine with receiverPc := .empty }
  | .closed =>
      if engine.backend.closed then
        some { engine with receiverPc := .done (some (.valueError "Queue is closed")) }
      else none
  | .dead detail =>
      match engine.backend with
      | .grid controller workers =>
          if workers.all Option.isNone ∨ controller.closed then none
          else some { engine with
            backend := .grid (controller.receive (.dead detail)) workers
            receiverPc := .done (some (.runtimeError detail)) }
      | .process .. => none
  | .event =>
      match engine.events with
      | [] => none
      | event :: events =>
          let got := engine.backend.receive event
          some { engine with
            backend := got.2
            events
            receiverPc := match got.1 with
              | .failed message => .mark message false
              | .events outputs => .deliver outputs
              | _ => .handled }

/-- The periodic statistics. -/
def stats [BlockDigest] (engine : AsyncLLMEngine) (due : Bool) (fault : Fault) : AsyncLLMEngine :=
  if due then
    let sent := engine.backend.put (.utility engine.utilityIds "step_stats") fault
    { engine with
      backend := sent.2
      utilityIds := engine.utilityIds + 1
      receiverPc := match sent.1 with
        | some raised => .done (some raised)
        | none => .top }
  else { engine with receiverPc := .top }

/-- The other sections of the receiver. -/
def receiverOn [Tokenizer] (engine : AsyncLLMEngine) : Option AsyncLLMEngine :=
  match engine.receiverPc with
  | .unstarted | .get | .stats | .done _ => none
  | .top => some { engine with receiverPc := if engine.stopReceiver then .done none else .get }
  | .empty => some { engine with
      receiverPc := if engine.backend.isAlive then .handled else .exit }
  | .exit => some { engine with
      receiverPc := if engine.state = .running then
          .mark ("exited unexpectedly with code " ++ engine.backend.exitcode) true
        else .done none }
  | .mark message exiting =>
      if engine.state = .running then
        let error := Raised.runtimeError ("scheduler process failed: " ++ message)
        some { engine with
          state := .failed
          failure := some error
          stopReceiver := true
          receiverPc := .failAll error exiting }
      else some { engine with receiverPc := afterMark exiting }
  | .failAll error exiting => some { engine with
      receiverPc := .failing error (engine.tracker.snapshot.map Prod.snd) exiting }
  | .failing error (ref :: refs) exiting => some { engine with
      tracker := engine.tracker.modify ref fun stream => stream.fail (.error error)
      receiverPc := .failing error refs exiting }
  | .failing _ [] exiting => some { engine with receiverPc := afterMark exiting }
  | .deliver (output :: outputs) => some { engine with
      tracker := engine.tracker.deliver output
      receiverPc := .deliver outputs }
  | .deliver [] => some { engine with receiverPc := .handled }
  | .handled => some { engine with
      receiverPc := if engine.stopReceiver then .done none else .stats }

end AsyncLLMEngine

/-- One section of one thread, or something the backend does. -/
inductive EngineAction
  | start
  | generate (requestId : RequestId)
  | submit (ref : StreamRef) (promptTokenIds : List Int) (fault : Fault)
  | leave (ref : StreamRef)
  | endLeave (ref : StreamRef) (fault : Fault)
  | abort (requestId : RequestId) (fault : Fault)
  | shutdown (fault : Fault)
  | shutdownOn (fault : Fault)
  | arrive (event : SchedulerEvent)
  | die (worker : Nat) (code : Int)
  | receive (arrival : AsyncLLMEngine.Arrival)
  | stats (due : Bool) (fault : Fault)
  | receiver

namespace AsyncLLMEngine

section

variable [BlockDigest] [Tokenizer]

/-- What an action does, if it is its turn. -/
def act (engine : AsyncLLMEngine) : EngineAction → Option AsyncLLMEngine
  | .start => some (if engine.state = .running then engine.startReceiver else engine)
  | .generate requestId => some (engine.generate requestId).2
  | .submit ref promptTokenIds fault =>
      if ref < engine.tracker.nextRef ∧ engine.consumers ref = {} then
        some (engine.submit ref promptTokenIds fault)
      else none
  | .leave ref =>
      if ref < engine.tracker.nextRef ∧ (engine.consumers ref).left = false then
        some (engine.leave ref)
      else none
  | .endLeave ref fault =>
      if (engine.consumers ref).left = true ∧ (engine.consumers ref).ended = false then
        some (engine.endLeave ref fault)
      else none
  | .abort requestId fault => some (engine.abort requestId fault)
  | .shutdown fault => some (engine.shutdown fault)
  | .shutdownOn fault => engine.shutdownOn fault
  | .arrive event => some { engine with events := engine.events ++ [event] }
  | .die worker code => some { engine with backend := engine.backend.die worker code }
  | .receive arrival => if engine.receiverPc = .get then engine.receive arrival else none
  | .stats due fault => if engine.receiverPc = .stats then some (engine.stats due fault) else none
  | .receiver => engine.receiverOn

/-- One action of a run. -/
def Step (engine : AsyncLLMEngine) (action : EngineAction) (engine' : AsyncLLMEngine) : Prop :=
  engine.act action = some engine'

/-- While the engine runs, the receiver finds no dead rank in `receive`, and the periodic put of its
loop does not raise. -/
def Uninterrupted (engine : AsyncLLMEngine) : EngineAction → Prop
  | .receive (.dead _) => engine.state ≠ .running
  | .stats true fault => engine.state = .running →
      (engine.backend.put (.utility engine.utilityIds "step_stats") fault).1 = none
  | _ => True

end

/-- An engine as its constructor leaves it. -/
def create (backend : Backend) : AsyncLLMEngine := { backend }

/-! ### No stranded stream -/

/-- A client is still there, and nothing has told it to stop waiting. -/
def Waiting (engine : AsyncLLMEngine) (ref : StreamRef) : Prop :=
  ref < engine.tracker.nextRef ∧ (engine.consumers ref).left = false ∧
    ¬ (engine.tracker.objects ref).Settled

/-- The receiver thread has ended, and no `shutdown` is under way. -/
def AtRest (engine : AsyncLLMEngine) : Prop :=
  (∃ raised, engine.receiverPc = .done raised) ∧
    (engine.shutdownPc = .notCalled ∨ engine.shutdownPc = .returned)

/-- No client waits on an engine at rest. -/
def NoStranded (engine : AsyncLLMEngine) : Prop :=
  engine.AtRest → ∀ ref, ¬ engine.Waiting ref

end AsyncLLMEngine

/-- The receiver is still to fail a stream. -/
def ReceiverPc.Owes : ReceiverPc → StreamRef → Prop
  | failAll _ _, _ => True
  | failing _ refs _, ref => ref ∈ refs
  | _, _ => False

/-- The receiver is past the locked section of a `_mark_failed` that is failing the streams, or it
has ended. -/
def ReceiverPc.past : ReceiverPc → Bool
  | failAll _ _ => true
  | failing _ _ _ => true
  | done _ => true
  | _ => false

/-- `shutdown` is still to close a stream that it took out of the table. -/
def ShutdownPc.Owes : ShutdownPc → StreamRef → Prop
  | clearing refs, ref => ref ∈ refs
  | _, _ => False

/-- `shutdown` has emptied the table. -/
def ShutdownPc.cleared : ShutdownPc → Bool
  | clearing _ => true
  | closeChannels => true
  | finish => true
  | returned => true
  | _ => false

namespace AsyncLLMEngine

/-- What holds between the sections of an engine whose receiver is not interrupted. -/
structure Sound (engine : AsyncLLMEngine) : Prop where
  table : engine.tracker.WellFormed
  /-- A client that waits is in the table, or `shutdown` has it in hand. -/
  held : ∀ ref, engine.Waiting ref →
    ((engine.tracker.objects ref).requestId, ref) ∈ engine.tracker.streams ∨
      engine.shutdownPc.Owes ref
  stopped : engine.stopReceiver = true → engine.state ≠ .running
  ended : engine.receiverPc.past = true → engine.state ≠ .running
  /-- After a failure only the receiver, on its way, leaves anybody waiting. -/
  failed : engine.state = .failed → ∀ ref, engine.Waiting ref → engine.receiverPc.Owes ref
  phase : (engine.shutdownPc = .notCalled ∧ (engine.state = .running ∨ engine.state = .failed)) ∨
    (engine.shutdownPc ≠ .notCalled ∧ (engine.state = .closing ∨ engine.state = .closed))
  cleared : engine.shutdownPc.cleared = true → engine.tracker.streams = []
  channels : engine.backend.closed = true → engine.state ≠ .running

variable {engine engine' : AsyncLLMEngine}

/-- Nobody is left waiting. -/
theorem Sound.noStranded (h : engine.Sound) : engine.NoStranded := by
  intro hrest ref hwaiting
  obtain ⟨⟨raised, hdone⟩, hshutdown⟩ := hrest
  rcases hshutdown with hnot | hreturned
  · -- without a shutdown the thread has ended because it failed everybody
    have hfailed : engine.state = .failed := by
      rcases h.phase with ⟨_, hrunning | hfailed⟩ | ⟨hcalled, _⟩
      · exact absurd hrunning (h.ended (by rw [hdone]; rfl))
      · exact hfailed
      · exact absurd hnot hcalled
    have howes := h.failed hfailed ref hwaiting
    rw [hdone] at howes
    exact howes
  · have hempty := h.cleared (by rw [hreturned]; rfl)
    rcases h.held ref hwaiting with hmem | howes
    · rw [hempty] at hmem
      exact List.not_mem_nil hmem
    · rw [hreturned] at howes
      exact howes

theorem Sound.notCalled (h : engine.Sound)
    (hstate : engine.state = .running ∨ engine.state = .failed) : engine.shutdownPc = .notCalled := by
  rcases h.phase with ⟨hnot, _⟩ | ⟨_, hphase⟩
  · exact hnot
  · rcases hstate with hstate | hstate <;> rw [hstate] at hphase <;>
      exact hphase.elim (fun heq => nomatch heq) fun heq => nomatch heq

theorem Sound.closing (h : engine.Sound) (hcalled : engine.shutdownPc ≠ .notCalled) :
    engine.state = .closing ∨ engine.state = .closed :=
  (h.phase.resolve_left fun hnot => hcalled hnot.1).2

theorem not_running_of_closing (h : engine.state = .closing ∨ engine.state = .closed) :
    engine.state ≠ .running ∧ engine.state ≠ .failed := by
  rcases h with h | h <;> rw [h] <;> exact ⟨by decide, by decide⟩

theorem sound_create {backend : Backend} (hopen : backend.closed = false) :
    (create backend).Sound where
  table := RequestTracker.wellFormed_empty
  held := fun ref hwaiting => absurd hwaiting.1 (Nat.not_lt_zero ref)
  stopped := fun h => nomatch h
  ended := fun h => nomatch h
  failed := fun h => nomatch h
  phase := .inl ⟨rfl, .inl rfl⟩
  cleared := fun h => nomatch h
  channels := fun h => by rw [show (create backend).backend.closed = false from hopen] at h; cases h

/-- A section that leaves the streams alone: the receiver moves, or the backend or a queue. -/
theorem Sound.move (h : engine.Sound) (pc : ReceiverPc) (backend : Backend)
    (events : List SchedulerEvent) (utilityIds : Nat)
    (hended : pc.past = true → engine.state ≠ .running)
    (howes : ∀ ref, engine.state = .failed → engine.receiverPc.Owes ref → pc.Owes ref)
    (hclosed : backend.closed = true → engine.state ≠ .running) :
    Sound { engine with
      receiverPc := pc
      backend
      events
      utilityIds } where
  table := h.table
  held := h.held
  stopped := h.stopped
  ended := hended
  failed := fun hfailed ref hwaiting => howes ref hfailed (h.failed hfailed ref hwaiting)
  phase := h.phase
  cleared := h.cleared
  channels := hclosed

/-- Such a section, of another thread than the receiver. -/
theorem Sound.backend (h : engine.Sound) {backend : Backend}
    (hclosed : backend.closed = engine.backend.closed) : Sound { engine with backend } :=
  h.move engine.receiverPc backend engine.events engine.utilityIds h.ended
    (fun _ _ howes => howes) (fun hc => h.channels (hclosed.symm.trans hc))

/-- The receiver goes where it owes nobody, and owed nobody before. -/
theorem Sound.go (h : engine.Sound) {pc : ReceiverPc}
    (hended : pc.past = true → engine.state ≠ .running)
    (hnone : ∀ ref, ¬ engine.receiverPc.Owes ref) : Sound { engine with receiverPc := pc } :=
  h.move pc engine.backend engine.events engine.utilityIds hended
    (fun ref _ howes => absurd howes (hnone ref)) h.channels

end AsyncLLMEngine

namespace Backend

variable [BlockDigest] {backend : Backend}

theorem put_closed (backend : Backend) (command : Command) (fault : Fault) :
    (backend.put command fault).2.closed = backend.closed := by
  cases backend with
  | process commands code closed =>
    simp only [put]
    split
    · rfl
    · split <;> rfl
  | grid controller workers => exact DataParallelController.send_closed command fault

omit [BlockDigest] in
theorem receive_closed (event : SchedulerEvent) :
    (backend.receive event).2.closed = backend.closed := by
  unfold receive
  split
  · exact DataParallelController.receive_closed _
  · exact DataParallelController.receive_closed _
  · rfl

omit [BlockDigest] in
theorem die_closed (worker : Nat) (code : Int) :
    (backend.die worker code).closed = backend.closed := by
  cases backend <;> rfl

end Backend

namespace AsyncLLMEngine

variable {engine engine' : AsyncLLMEngine}

/-! ### The clients' sections -/

/-- What `Sound` does not read. -/
theorem Sound.names (h : engine.Sound) (receiver : Bool) (requestIds : Nat) :
    Sound { engine with
      receiver
      requestIds } :=
  ⟨h.table, h.held, h.stopped, h.ended, h.failed, h.phase, h.cleared, h.channels⟩

theorem Sound.startReceiver (h : engine.Sound) (hrunning : engine.state = .running) :
    engine.startReceiver.Sound ∧ engine.startReceiver.state = .running := by
  unfold AsyncLLMEngine.startReceiver
  split
  · exact ⟨h, hrunning⟩
  · refine ⟨(h.move .top engine.backend engine.events engine.utilityIds Bool.noConfusion (fun ref hfailed => ?_)
      h.channels).names true engine.requestIds, hrunning⟩
    rw [hrunning] at hfailed
    cases hfailed

/-- A new stream is in the table. -/
theorem Sound.register (h : engine.Sound) (hrunning : engine.state = .running)
    (requestId : RequestId) :
    Sound { engine with tracker := (engine.tracker.register requestId).2 } := by
  cases hregister : engine.tracker.register requestId with
  | mk outcome tracker' =>
  cases outcome with
  | error raised =>
    rw [RequestTracker.register_error hregister]
    exact h
  | ok ref =>
    have htable := h.table.register hregister
    obtain ⟨rfl, hfresh, rfl⟩ := RequestTracker.register_ok hregister
    have hnot := h.notCalled (.inl hrunning)
    refine ⟨htable, fun ref hwaiting => .inl ?_, h.stopped, h.ended, fun hfailed => ?_, h.phase,
      fun hcleared => ?_, h.channels⟩
    · show ((Function.update engine.tracker.objects engine.tracker.nextRef { requestId } ref).requestId,
        ref) ∈ engine.tracker.streams ++ [(requestId, engine.tracker.nextRef)]
      by_cases hnew : ref = engine.tracker.nextRef
      · rw [hnew, Function.update_self]
        exact List.mem_append_right _ (List.mem_singleton_self _)
      · rw [Function.update_of_ne hnew]
        obtain ⟨hlt, hleft, hsettled⟩ := hwaiting
        dsimp only at hlt hleft hsettled
        rw [Function.update_of_ne hnew] at hsettled
        have hold : engine.Waiting ref :=
          ⟨Nat.lt_of_le_of_ne (Nat.le_of_lt_succ hlt) hnew, hleft, hsettled⟩
        rcases h.held ref hold with hmem | howes
        · exact List.mem_append_left _ hmem
        · rw [hnot] at howes
          exact absurd howes id
    · rw [show engine.state = .failed from hfailed] at hrunning
      cases hrunning
    · rw [show engine.shutdownPc = .notCalled from hnot] at hcleared
      cases hcleared

theorem Sound.generate (h : engine.Sound) (requestId : RequestId) :
    (engine.generate requestId).2.Sound := by
  unfold AsyncLLMEngine.generate
  split
  · rename_i hrunning
    obtain ⟨hstarted, hstill⟩ := h.startReceiver hrunning
    dsimp only [nameRequest]
    split
    · exact (hstarted.names engine.startReceiver.receiver
        (engine.startReceiver.requestIds + 1)).register hstill _
    · exact hstarted.register hstill _
  · exact h

theorem Sound.abort [BlockDigest] (h : engine.Sound) (requestId : RequestId) (fault : Fault) :
    (engine.abort requestId fault).Sound := by
  unfold AsyncLLMEngine.abort
  split
  · exact h.backend (Backend.put_closed _ _ _)
  · exact h

/-- A client moves on, without leaving. -/
theorem Sound.consumer (h : engine.Sound) (ref : StreamRef) (consumer : Consumer)
    (hleft : consumer.left = (engine.consumers ref).left) :
    Sound { engine with consumers := Function.update engine.consumers ref consumer } := by
  have hwas : ∀ other, Waiting { engine with
      consumers := Function.update engine.consumers ref consumer } other → engine.Waiting other := by
    intro other hwaiting
    refine ⟨hwaiting.1, ?_, hwaiting.2.2⟩
    have hnow := hwaiting.2.1
    dsimp only at hnow
    by_cases heq : other = ref
    · rw [heq, Function.update_self] at hnow
      rw [heq, ← hleft, hnow]
    · rw [Function.update_of_ne heq] at hnow
      exact hnow
  exact ⟨h.table, fun other hwaiting => h.held other (hwas other hwaiting), h.stopped, h.ended,
    fun hfailed other hwaiting => h.failed hfailed other (hwas other hwaiting), h.phase, h.cleared,
    h.channels⟩

theorem Sound.submit [BlockDigest] (h : engine.Sound) (ref : StreamRef)
    (promptTokenIds : List Int) (fault : Fault) :
    (engine.submit ref promptTokenIds fault).Sound := by
  unfold AsyncLLMEngine.submit
  split
  · exact h
  · have hsent := h.backend (Backend.put_closed engine.backend
      (.add ⟨(engine.tracker.objects ref).requestId, promptTokenIds⟩) fault)
    dsimp only
    split
    · exact hsent
    · exact hsent.consumer ref _ rfl

/-- A client that leaves takes its own entry out of the table, and no other. -/
theorem Sound.leave (h : engine.Sound) (ref : StreamRef) : (engine.leave ref).Sound := by
  have hwas : ∀ other, (engine.leave ref).Waiting other → engine.Waiting other ∧ other ≠ ref := by
    intro other hwaiting
    obtain ⟨hlt, hleft, hsettled⟩ := hwaiting
    have hne : other ≠ ref := by
      intro heq
      simp only [AsyncLLMEngine.leave, heq, Function.update_self, Bool.true_eq_false] at hleft
    simp only [AsyncLLMEngine.leave, Function.update_of_ne hne, RequestTracker.remove_nextRef,
      RequestTracker.remove_objects] at hlt hleft hsettled
    exact ⟨⟨hlt, hleft, hsettled⟩, hne⟩
  refine ⟨h.table.remove _ _, fun other hwaiting => ?_, h.stopped, h.ended,
    fun hfailed other hwaiting => h.failed hfailed other (hwas other hwaiting).1, h.phase,
    fun hcleared => ?_, h.channels⟩
  · obtain ⟨hold, hne⟩ := hwas other hwaiting
    refine (h.held other hold).imp_left fun hmem => ?_
    simp only [AsyncLLMEngine.leave, RequestTracker.remove_objects]
    exact RequestTracker.mem_remove h.table hmem hne
  · have hempty := h.cleared hcleared
    refine List.eq_nil_iff_forall_not_mem.mpr fun entry hentry => ?_
    have hmem := RequestTracker.remove_subset hentry
    rw [hempty] at hmem
    exact List.not_mem_nil hmem

theorem Sound.endLeave [BlockDigest] (h : engine.Sound) (ref : StreamRef) (fault : Fault) :
    (engine.endLeave ref fault).Sound := by
  have hended := h.consumer ref { engine.consumers ref with ended := true } rfl
  unfold AsyncLLMEngine.endLeave
  dsimp only
  split
  · exact hended.abort _ _
  · exact hended

/-! ### `shutdown` -/

theorem Sound.shutdown [BlockDigest] (h : engine.Sound) (fault : Fault) :
    (engine.shutdown fault).Sound := by
  unfold AsyncLLMEngine.shutdown
  split
  · exact h
  · exact h
  · rename_i hnotClosing hnotClosed
    have hnot : engine.shutdownPc = .notCalled := by
      by_contra hcalled
      exact (h.closing hcalled).elim hnotClosing hnotClosed
    refine ⟨h.table, fun ref hwaiting => ?_, fun _ => Lifecycle.noConfusion,
      fun _ => Lifecycle.noConfusion, Lifecycle.noConfusion,
      .inr ⟨ShutdownPc.noConfusion, .inl rfl⟩, Bool.noConfusion, fun _ => Lifecycle.noConfusion⟩
    refine (h.held ref hwaiting).imp_right fun howes => ?_
    rw [hnot] at howes
    exact absurd howes id

/-- Failing one stream leaves the others as they were. -/
theorem waiting_fail {ref other : StreamRef} {item : StreamItem} (hitem : item.terminal = true)
    (hwaiting : Waiting { engine with
      tracker := engine.tracker.modify ref fun stream => stream.fail item } other) :
    engine.Waiting other ∧ other ≠ ref := by
  obtain ⟨hlt, hleft, hsettled⟩ := hwaiting
  refine ⟨⟨hlt, hleft, fun hold => hsettled ?_⟩, fun heq => hsettled ?_⟩
  · have hkeep : ∀ stream : RequestStream, stream.Settled → (stream.fail item).Settled :=
      fun stream hstream => hstream.push item
    exact RequestTracker.settled_modify hkeep hold
  · rw [heq]
    show RequestStream.Settled (Function.update engine.tracker.objects ref
      ((engine.tracker.objects ref).fail item) ref)
    rw [Function.update_self]
    exact RequestStream.settled_push hitem

theorem requestId_fail {ref other : StreamRef} {item : StreamItem} :
    ((engine.tracker.modify ref fun stream => stream.fail item).objects other).requestId =
      (engine.tracker.objects other).requestId := by
  show (Function.update engine.tracker.objects ref ((engine.tracker.objects ref).fail item)
    other).requestId = _
  by_cases heq : other = ref
  · rw [heq, Function.update_self, RequestStream.fail_requestId]
  · rw [Function.update_of_ne heq]

/-- A section of `shutdown` that leaves the streams alone. -/
theorem Sound.further (h : engine.Sound) (hcalled : engine.shutdownPc ≠ .notCalled) (pc : ShutdownPc)
    (backend : Backend) (hpc : pc ≠ .notCalled)
    (howes : ∀ ref, engine.shutdownPc.Owes ref → pc.Owes ref)
    (hcleared : pc.cleared = true → engine.tracker.streams = []) :
    Sound { engine with
      backend
      shutdownPc := pc } where
  table := h.table
  held := fun ref hwaiting => (h.held ref hwaiting).imp_right (howes ref)
  stopped := h.stopped
  ended := h.ended
  failed := h.failed
  phase := .inr ⟨hpc, h.closing hcalled⟩
  cleared := hcleared
  channels := fun _ => (not_running_of_closing (h.closing hcalled)).1

theorem Sound.shutdownOn [BlockDigest] (h : engine.Sound) {fault : Fault}
    (hact : engine.shutdownOn fault = some engine') : engine'.Sound := by
  have hcalled : ∀ {pc : ShutdownPc}, engine.shutdownPc = pc → pc ≠ .notCalled →
      engine.shutdownPc ≠ .notCalled := fun hpc hne => hpc ▸ hne
  have hidle : ∀ {pc pc' : ShutdownPc}, engine.shutdownPc = pc → (∀ ref, ¬ pc.Owes ref) →
      ∀ ref, engine.shutdownPc.Owes ref → pc'.Owes ref := by
    intro pc pc' hpc hnone ref howes
    rw [hpc] at howes
    exact absurd howes (hnone ref)
  unfold AsyncLLMEngine.shutdownOn at hact
  cases hpc : engine.shutdownPc with
  | notCalled =>
    rw [hpc] at hact
    cases hact
  | returned =>
    rw [hpc] at hact
    cases hact
  | joinReceiver =>
    rw [hpc] at hact
    cases hact
    exact h.further (hcalled hpc (by decide)) _ engine.backend (by decide)
      (hidle hpc fun _ => id) Bool.noConfusion
  | joinBackend =>
    rw [hpc] at hact
    cases hact
    exact h.further (hcalled hpc (by decide)) _ _ (by decide) (hidle hpc fun _ => id)
      Bool.noConfusion
  | clear =>
    -- the table is emptied; what it held is in hand
    have hclosing := h.closing (hcalled hpc (by decide))
    rw [hpc] at hact
    cases hact
    refine ⟨h.table.takeAll, fun ref hwaiting => .inr ?_, h.stopped, h.ended, h.failed,
      .inr ⟨ShutdownPc.noConfusion, hclosing⟩, fun _ => rfl, h.channels⟩
    have hheld := h.held ref hwaiting
    rw [hpc] at hheld
    exact List.mem_map_of_mem (f := Prod.snd) (hheld.resolve_right id)
  | clearing refs =>
    have hempty := h.cleared (by rw [hpc]; rfl)
    have hbegun := hcalled hpc ShutdownPc.noConfusion
    cases refs with
    | nil =>
      rw [hpc] at hact
      cases hact
      exact h.further hbegun _ engine.backend (by decide)
        (hidle hpc fun _ => List.not_mem_nil) fun _ => hempty
    | cons ref refs =>
      rw [hpc] at hact
      cases hact
      have hclosing := h.closing hbegun
      refine ⟨h.table.modify (fun stream => stream.fail_requestId _) ref,
        fun other hwaiting => ?_, h.stopped, h.ended,
        fun hfailed => absurd hfailed (not_running_of_closing hclosing).2,
        .inr ⟨ShutdownPc.noConfusion, hclosing⟩, fun _ => hempty, h.channels⟩
      obtain ⟨hold, hne⟩ := waiting_fail (show StreamItem.closed.terminal = true from rfl) hwaiting
      rw [requestId_fail]
      refine (h.held other hold).imp_right fun howes => ?_
      rw [hpc] at howes
      exact (List.mem_cons.mp howes).resolve_left hne
  | closeChannels =>
    have hempty := h.cleared (by rw [hpc]; rfl)
    rw [hpc] at hact
    cases hact
    exact h.further (hcalled hpc (by decide)) _ _ (by decide) (hidle hpc fun _ => id) fun _ => hempty
  | finish =>
    have hempty := h.cleared (by rw [hpc]; rfl)
    rw [hpc] at hact
    cases hact
    refine ⟨h.table, fun ref hwaiting => ?_, fun _ => Lifecycle.noConfusion,
      fun _ => Lifecycle.noConfusion, Lifecycle.noConfusion,
      .inr ⟨ShutdownPc.noConfusion, .inr rfl⟩, fun _ => hempty, fun _ => Lifecycle.noConfusion⟩
    exact (h.held ref hwaiting).imp_right (hidle hpc (fun _ => id) ref)

/-! ### The receiver's sections -/

theorem not_owes {pc : ReceiverPc} (hpc : engine.receiverPc = pc) (hnone : ∀ ref, ¬ pc.Owes ref)
    (ref : StreamRef) : ¬ engine.receiverPc.Owes ref := by
  rw [hpc]
  exact hnone ref

theorem Sound.receive (h : engine.Sound) {arrival : Arrival} (hpc : engine.receiverPc = .get)
    (hdead : ∀ detail, arrival = .dead detail → engine.state ≠ .running)
    (hact : engine.receive arrival = some engine') : engine'.Sound := by
  have hnone := not_owes hpc fun _ => id
  unfold AsyncLLMEngine.receive at hact
  cases arrival with
  | timeout =>
    cases hact
    exact h.go Bool.noConfusion hnone
  | closed =>
    dsimp only at hact
    split at hact
    · rename_i hclosed
      cases hact
      exact h.go (fun _ => h.channels hclosed) hnone
    · cases hact
  | dead detail =>
    dsimp only at hact
    split at hact
    · rename_i controller workers hbackend
      split at hact
      · cases hact
      · cases hact
        refine h.move _ _ engine.events engine.utilityIds
          (fun _ => hdead detail rfl) (fun ref _ howes => absurd howes (hnone ref))
          fun _ => hdead detail rfl
    · cases hact
  | event =>
    dsimp only at hact
    split at hact
    · cases hact
    · rename_i event events _
      cases hact
      refine h.move _ _ _ engine.utilityIds (fun hdone => ?_)
        (fun ref _ howes => absurd howes (hnone ref)) fun hclosed =>
          h.channels ((Backend.receive_closed event).symm.trans hclosed)
      split at hdone <;> cases hdone

theorem Sound.stats [BlockDigest] (h : engine.Sound) {due : Bool} {fault : Fault}
    (hpc : engine.receiverPc = .stats)
    (hput : due = true → engine.state = .running →
      (engine.backend.put (.utility engine.utilityIds "step_stats") fault).1 = none) :
    (engine.stats due fault).Sound := by
  have hnone := not_owes hpc fun _ => id
  unfold AsyncLLMEngine.stats
  cases due with
  | false => exact h.go Bool.noConfusion hnone
  | true =>
    refine h.move _ _ engine.events _ (fun hdone hrunning => ?_)
      (fun ref _ howes => absurd howes (hnone ref)) fun hclosed =>
        h.channels ((Backend.put_closed _ _ fault).symm.trans hclosed)
    rw [hput rfl hrunning] at hdone
    cases hdone

/-- Delivering an output pushes to one stream, if at all. -/
theorem Sound.deliver [Tokenizer] (h : engine.Sound) (hnone : ∀ ref, ¬ engine.receiverPc.Owes ref)
    (output : RequestEvent) (outputs : List RequestEvent) :
    Sound { engine with
      tracker := engine.tracker.deliver output
      receiverPc := .deliver outputs } := by
  have hwas : ∀ ref, Waiting { engine with tracker := engine.tracker.deliver output } ref →
      engine.Waiting ref := by
    intro ref hwaiting
    obtain ⟨hlt, hleft, hsettled⟩ := hwaiting
    dsimp only at hlt
    rw [RequestTracker.deliver_nextRef] at hlt
    exact ⟨hlt, hleft, fun hold => hsettled (RequestTracker.settled_deliver output hold)⟩
  refine ⟨h.table.deliver output, fun ref hwaiting => ?_, h.stopped, Bool.noConfusion,
    fun hfailed ref hwaiting => absurd (h.failed hfailed ref (hwas ref hwaiting)) (hnone ref),
    h.phase, fun hcleared => ?_, h.channels⟩
  · dsimp only
    rw [RequestTracker.deliver_requestId, RequestTracker.deliver_streams]
    exact h.held ref (hwas ref hwaiting)
  · dsimp only
    rw [RequestTracker.deliver_streams]
    exact h.cleared hcleared

theorem Sound.receiverOn [Tokenizer] (h : engine.Sound)
    (hact : engine.receiverOn = some engine') : engine'.Sound := by
  unfold AsyncLLMEngine.receiverOn at hact
  cases hpc : engine.receiverPc with
  | unstarted =>
    rw [hpc] at hact
    cases hact
  | get =>
    rw [hpc] at hact
    cases hact
  | stats =>
    rw [hpc] at hact
    cases hact
  | done raised =>
    rw [hpc] at hact
    cases hact
  | top =>
    have hnone := not_owes hpc fun _ => id
    rw [hpc] at hact
    cases hact
    refine h.go (fun hdone => ?_) hnone
    split at hdone
    · exact h.stopped ‹_›
    · cases hdone
  | empty =>
    have hnone := not_owes hpc fun _ => id
    rw [hpc] at hact
    cases hact
    refine h.go (fun hdone => ?_) hnone
    split at hdone <;> cases hdone
  | exit =>
    have hnone := not_owes hpc fun _ => id
    rw [hpc] at hact
    cases hact
    refine h.go (fun hdone => ?_) hnone
    split at hdone
    · cases hdone
    · assumption
  | mark message exiting =>
    have hnone := not_owes hpc fun _ => id
    rw [hpc] at hact
    dsimp only at hact
    split at hact
    · -- the engine fails; the receiver goes on to fail everybody
      rename_i hrunning
      cases hact
      exact ⟨h.table, h.held, fun _ => Lifecycle.noConfusion, fun _ => Lifecycle.noConfusion,
        fun _ _ _ => trivial, .inl ⟨h.notCalled (.inl hrunning), .inr rfl⟩, h.cleared,
        fun _ => Lifecycle.noConfusion⟩
    · rename_i hstate
      cases hact
      exact h.go (fun _ => hstate) hnone
  | failAll error exiting =>
    rw [hpc] at hact
    cases hact
    refine ⟨h.table, h.held, h.stopped, fun _ => h.ended (by rw [hpc]; rfl),
      fun hfailed ref hwaiting => ?_, h.phase, h.cleared, h.channels⟩
    -- whoever waits is in the table, and the table is the snapshot
    have hheld := h.held ref hwaiting
    rw [h.notCalled (.inr hfailed)] at hheld
    show ref ∈ engine.tracker.snapshot.map Prod.snd
    rw [h.table.snapshot]
    exact List.mem_map_of_mem (f := Prod.snd) (hheld.resolve_right id)
  | failing error refs exiting =>
    have hstate := h.ended (by rw [hpc]; rfl)
    cases refs with
    | nil =>
      have hnone := not_owes hpc fun _ => List.not_mem_nil
      rw [hpc] at hact
      cases hact
      exact h.go (fun _ => hstate) hnone
    | cons ref refs =>
      rw [hpc] at hact
      cases hact
      refine ⟨h.table.modify (fun stream => stream.fail_requestId _) ref,
        fun other hwaiting => ?_, h.stopped, fun _ => hstate,
        fun hfailed other hwaiting => ?_, h.phase, h.cleared, h.channels⟩
      · obtain ⟨hold, _⟩ := waiting_fail (show (StreamItem.error error).terminal = true from rfl)
          hwaiting
        rw [requestId_fail]
        exact h.held other hold
      · obtain ⟨hold, hne⟩ := waiting_fail (show (StreamItem.error error).terminal = true from rfl)
          hwaiting
        have howes := h.failed hfailed other hold
        rw [hpc] at howes
        exact (List.mem_cons.mp howes).resolve_left hne
  | deliver outputs =>
    have hnone := not_owes hpc fun _ => id
    cases outputs with
    | nil =>
      rw [hpc] at hact
      cases hact
      exact h.go Bool.noConfusion hnone
    | cons output outputs =>
      rw [hpc] at hact
      cases hact
      exact h.deliver hnone output outputs
  | handled =>
    have hnone := not_owes hpc fun _ => id
    rw [hpc] at hact
    cases hact
    refine h.go (fun hdone => ?_) hnone
    split at hdone
    · exact h.stopped ‹_›
    · cases hdone

/-! ### Runs -/

section

variable [BlockDigest] [Tokenizer]

/-- Step lemma. -/
theorem sound_step {action : EngineAction} (h : engine.Sound)
    (hstep : Step engine action engine') (hgo : engine.Uninterrupted action) : engine'.Sound := by
  unfold Step act at hstep
  cases action with
  | start =>
    cases hstep
    split
    · exact (h.startReceiver ‹_›).1
    · exact h
  | generate requestId =>
    cases hstep
    exact h.generate requestId
  | submit ref promptTokenIds fault =>
    dsimp only at hstep
    split at hstep
    · cases hstep
      exact h.submit ref promptTokenIds fault
    · cases hstep
  | leave ref =>
    dsimp only at hstep
    split at hstep
    · cases hstep
      exact h.leave ref
    · cases hstep
  | endLeave ref fault =>
    dsimp only at hstep
    split at hstep
    · cases hstep
      exact h.endLeave ref fault
    · cases hstep
  | abort requestId fault =>
    cases hstep
    exact h.abort requestId fault
  | shutdown fault =>
    cases hstep
    exact h.shutdown fault
  | shutdownOn fault => exact h.shutdownOn hstep
  | arrive event =>
    cases hstep
    exact h.move _ engine.backend _ engine.utilityIds h.ended
      (fun _ _ howes => howes) h.channels
  | die worker code =>
    cases hstep
    exact h.backend (Backend.die_closed worker code)
  | receive arrival =>
    dsimp only at hstep
    split at hstep
    · refine h.receive ‹_› (fun detail harrival => ?_) hstep
      subst harrival
      exact hgo
    · cases hstep
  | stats due fault =>
    dsimp only at hstep
    split at hstep
    · cases hstep
      refine h.stats ‹_› fun hdue => ?_
      subst hdue
      exact hgo
    · cases hstep
  | receiver => exact h.receiverOn hstep

/-- An interruption strands whoever waits: the engine stays `RUNNING`, and nobody is told. -/
theorem interrupted {action : EngineAction} (h : engine.Sound) (hstep : Step engine action engine')
    (hbad : ¬ engine.Uninterrupted action) :
    engine'.NoStranded ↔ ∀ ref, ¬ engine.Waiting ref := by
  have hstranded : engine.state = .running → (∃ raised, engine'.receiverPc = .done raised) →
      engine'.shutdownPc = engine.shutdownPc → (∀ ref, engine'.Waiting ref ↔ engine.Waiting ref) →
      (engine'.NoStranded ↔ ∀ ref, ¬ engine.Waiting ref) := by
    intro hrunning hdone hpc hwaiting
    constructor
    · intro hno ref hold
      exact hno ⟨hdone, .inl (hpc.trans (h.notCalled (.inl hrunning)))⟩ ref ((hwaiting ref).mpr hold)
    · exact fun hno _ ref hnew => hno ref ((hwaiting ref).mp hnew)
  unfold Step act at hstep
  cases action with
  | receive arrival =>
    cases arrival with
    | dead detail =>
      have hrunning : engine.state = .running := by
        by_contra hne
        exact hbad hne
      dsimp only at hstep
      split at hstep
      · unfold AsyncLLMEngine.receive at hstep
        dsimp only at hstep
        split at hstep
        · split at hstep
          · cases hstep
          · cases hstep
            exact hstranded hrunning ⟨_, rfl⟩ rfl fun _ => Iff.rfl
        · cases hstep
      · cases hstep
    | event => exact absurd trivial hbad
    | timeout => exact absurd trivial hbad
    | closed => exact absurd trivial hbad
  | stats due fault =>
    cases due with
    | false => exact absurd trivial hbad
    | true =>
      have hfault : engine.state = .running ∧
          (engine.backend.put (.utility engine.utilityIds "step_stats") fault).1 ≠ none := by
        by_contra hne
        exact hbad fun hrunning => by_contra fun hput => hne ⟨hrunning, hput⟩
      obtain ⟨raised, hraised⟩ := Option.ne_none_iff_exists'.mp hfault.2
      dsimp only at hstep
      split at hstep
      · cases hstep
        refine hstranded hfault.1 ⟨some raised, ?_⟩ rfl fun _ => Iff.rfl
        simp only [AsyncLLMEngine.stats, if_true, hraised]
      · cases hstep
  | start => exact absurd trivial hbad
  | generate requestId => exact absurd trivial hbad
  | submit ref promptTokenIds fault => exact absurd trivial hbad
  | leave ref => exact absurd trivial hbad
  | endLeave ref fault => exact absurd trivial hbad
  | abort requestId fault => exact absurd trivial hbad
  | shutdown fault => exact absurd trivial hbad
  | shutdownOn fault => exact absurd trivial hbad
  | arrive event => exact absurd trivial hbad
  | die worker code => exact absurd trivial hbad
  | receiver => exact absurd trivial hbad

/-- Run lemma. -/
theorem sound_run {backend : Backend} {actions : List EngineAction} (hopen : backend.closed = false)
    (hrun : Run (Guarded Step Uninterrupted) (create backend) actions engine) : engine.Sound :=
  hrun.invariant (fun _ _ _ hs hstep => sound_step hs hstep.1 hstep.2) (sound_create hopen)

/-- **No stranded stream.** As long as the receiver is not interrupted, no client waits on an engine
at rest; and an interruption leaves nobody waiting only if nobody was. -/
theorem run_no_stranded {backend : Backend} {actions : List EngineAction}
    (hopen : backend.closed = false)
    (hrun : Run (Guarded Step Uninterrupted) (create backend) actions engine) :
    engine.NoStranded ∧ ∀ action engine', Step engine action engine' →
      ¬ engine.Uninterrupted action → (engine'.NoStranded ↔ ∀ ref, ¬ engine.Waiting ref) :=
  ⟨(sound_run hopen hrun).noStranded, fun _ _ hstep hbad =>
    interrupted (sound_run hopen hrun) hstep hbad⟩

end

/-- A scheduler process dies under a request, and the receiver finds out. -/
def processExit : List EngineAction :=
  [.generate "r", .submit 0 [7] none, .die 0 1, .receiver, .receive .timeout, .receiver, .receiver,
    .receiver, .receiver, .receiver, .receiver]

/-- The client of that request is told. -/
theorem run_no_stranded_exit : ∃ engine,
    Run (Guarded (@Step pairingDigest spellingTokenizer) (@Uninterrupted pairingDigest))
      (create (.process [] none false)) processExit engine ∧
    engine.AtRest ∧ (engine.NoStranded ∧ ∀ action engine',
      @Step pairingDigest spellingTokenizer engine action engine' →
      ¬ @Uninterrupted pairingDigest engine action →
      (engine'.NoStranded ↔ ∀ ref, ¬ engine.Waiting ref)) := by
  let _ : BlockDigest := pairingDigest
  let _ : Tokenizer := spellingTokenizer
  have hstep : ∀ {engine engine' : AsyncLLMEngine} {action : EngineAction},
      engine.act action = some engine' → Step engine action engine' := fun h => h
  have hsteps : Run Step (create (.process [] none false)) processExit _ :=
    .snoc (.snoc (.snoc (.snoc (.snoc (.snoc (.snoc (.snoc (.snoc (.snoc (.snoc .nil
      (hstep rfl)) (hstep rfl)) (hstep rfl)) (hstep rfl)) (hstep rfl)) (hstep rfl)) (hstep rfl))
      (hstep rfl)) (hstep rfl)) (hstep rfl)) (hstep rfl)
  have hrun : Run (Guarded Step Uninterrupted) (create (.process [] none false)) processExit _ :=
    hsteps.guarded fun engine action hmem => by
      simp only [processExit, List.mem_cons, List.not_mem_nil, or_false] at hmem
      rcases hmem with rfl | rfl | rfl | rfl | rfl | rfl | rfl | rfl | rfl | rfl | rfl <;> trivial
  exact ⟨_, hrun, ⟨⟨_, rfl⟩, .inl rfl⟩, run_no_stranded rfl hrun⟩

/-- Two replicas, neither of which has been sent anything. -/
def twoReplicas : Backend :=
  .grid ⟨⟨2, .roundRobin 0, 0, .empty⟩, ∅, false, false, none, fun _ => []⟩ [none, none]

/-- A client submits, and then a rank dies. -/
def silentDeath : List EngineAction :=
  [.generate "r", .submit 0 [7] none, .receiver, .die 0 1, .receive (.dead "rank 0")]

/-- The receiver dies of it, and the client waits for good. -/
theorem silent_death_strands : ∃ engine,
    Run (@Step pairingDigest spellingTokenizer) (create twoReplicas) silentDeath engine ∧
    engine.receiverPc = .done (some (.runtimeError "rank 0")) ∧ engine.shutdownPc = .notCalled ∧
    engine.Waiting 0 ∧ ¬ engine.NoStranded := by
  let _ : BlockDigest := pairingDigest
  let _ : Tokenizer := spellingTokenizer
  have hstep : ∀ {engine engine' : AsyncLLMEngine} {action : EngineAction},
      engine.act action = some engine' → Step engine action engine' := fun h => h
  have hrun : Run Step (create twoReplicas) silentDeath _ :=
    .snoc (.snoc (.snoc (.snoc (.snoc .nil (hstep rfl)) (hstep rfl)) (hstep rfl)) (hstep rfl))
      (hstep rfl)
  refine ⟨_, hrun, rfl, rfl, ?_, fun hno => ?_⟩
  · exact ⟨by decide, rfl, by decide⟩
  · exact hno ⟨⟨_, rfl⟩, .inl rfl⟩ 0 ⟨by decide, rfl, by decide⟩

end AsyncLLMEngine

end RapidLlm
