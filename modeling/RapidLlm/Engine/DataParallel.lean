import RapidLlm.Lib.Run
import RapidLlm.Lib.Ledger
import RapidLlm.Engine.PrefixCache

/-!
# RapidLlm.Engine.DataParallel

The data-parallel controller (`engine/data_parallel.py`): routing policies, `send` and
`receive`, and what its accounts are worth.

* Python keeps what was mutated before an exception, so `select` and `send` return the state
  next to the outcome. `fault` says which queue put of a call raises, and what.
* `_charges` and `_load` of the counting and the cache-aware policy are one `Ledger`;
  `_routes` is a second map over the same ids.
* `Accounted` says the two agree and the loads add up; `send_accounted` and
  `receive_accounted` keep it, and a `send` that raises moves nothing, unless the command is
  one of those `Routable` excludes.
-/

namespace RapidLlm

/-! ### Commands and events -/

/-- `AddRequest`, as far as routing reads it. Token ids are whatever the client sent. -/
structure AddRequest where
  requestId : RequestId
  promptTokenIds : List Int
  deriving DecidableEq, Repr

/-- What `send` is handed. -/
inductive Command
  | add (request : AddRequest)
  | addBatch (requests : List AddRequest)
  | abort (requestId : RequestId)
  | utility (callId : Nat) (method : String)
  | wake
  | shutdown
  | other (typeName : String)
  deriving DecidableEq, Repr

/-- One `RequestEvent`, as far as the controller reads it. -/
structure RequestOutput where
  requestId : RequestId
  finished : Bool
  failed : Bool

/-- What `receive` finds: an event, or silence from a dead rank. -/
inductive ReplicaEvent
  | failed (globalRank : Nat) (message : String)
  | events (outputs : List RequestOutput)
  | ready
  | dead (detail : String)

/-! ### Hashing a prompt -/

/-- Whether `struct.pack` takes a token as an unsigned 32-bit field. -/
def packable (token : Int) : Bool := 0 ≤ token && token < 2 ^ 32

/-- The tokens of the full blocks of a prompt. -/
def fullBlocks (tokenIds : List Int) : List Int :=
  tokenIds.take (tokenIds.length / prefixCacheBlockSize * prefixCacheBlockSize)

/-- What `struct.pack` raises on a token that does not fit. -/
def packError : Raised := .structError "'I' format requires 0 <= number <= 4294967295"

/-- `list(iter_block_hashes(token_ids, ...))`. -/
def routingHashes [BlockDigest] (tokenIds : List Int) : Except Raised (List BlockHash) :=
  if (fullBlocks tokenIds).all packable then .ok (iterBlockHashes (tokenIds.map Int.toNat))
  else .error packError

/-! ### Policies -/

/-- The class of a policy and what it keeps besides its charges. -/
inductive PolicyKind
  | roundRobin (counter : Nat)
  | requestCount
  | tokenCount
  /-- `resident r` is the index of replica `r`, oldest entry first. -/
  | cacheAware (resident : Nat → List BlockHash)

/-- `_LoadPolicy`. A round-robin policy leaves its ledger empty. -/
structure LoadPolicy where
  dpSize : Nat
  kind : PolicyKind
  anonymousIds : Nat := 0
  ledger : Ledger RequestId Nat := .empty

/-- `min(range(n), key=key)`: the first index with the least key. -/
def argmin (key : Nat → Nat) : Nat → Nat
  | 0 => 0
  | n + 1 =>
    let best := argmin key n
    if n ≠ 0 ∧ key n < key best then n else best

namespace LoadPolicy

/-- `CacheAwarePolicy.DEFAULT_INDEX_CAPACITY`. -/
def defaultIndexCapacity : Nat := 65536

def isRoundRobin (policy : LoadPolicy) : Bool :=
  match policy.kind with
  | .roundRobin _ => true
  | _ => false

/-- `needs_token_ids`. -/
def needsTokenIds (policy : LoadPolicy) : Bool :=
  match policy.kind with
  | .cacheAware _ => true
  | _ => false

/-- `create_load_policy`. -/
def create (name : String) (dpSize : Nat) : Except Raised LoadPolicy :=
  let kind? : Option PolicyKind := match name with
    | "round_robin" => some (.roundRobin 0)
    | "total_requests" => some .requestCount
    | "total_tokens" => some .tokenCount
    | "cache_aware" => some (.cacheAware fun _ => [])
    | _ => none
  match kind? with
  | none => .error (.valueError (s!"unknown load_balancer '{name}'; choose from " ++
      "('round_robin', 'total_requests', 'total_tokens', 'cache_aware')"))
  | some kind =>
    if dpSize < 1 then .error (.valueError s!"dp_size must be >= 1, got {dpSize}")
    else .ok { dpSize, kind }

/-- `_request_id`: a policy makes up the name of a nameless request. -/
def requestIdOf (policy : LoadPolicy) (requestId : RequestId) : RequestId × LoadPolicy :=
  if requestId = "" then
    (s!"policy-{policy.anonymousIds}", { policy with anonymousIds := policy.anonymousIds + 1 })
  else (requestId, policy)

/-- Record a request's charge. -/
def charge (policy : LoadPolicy) (requestId : RequestId) (replica amount : Nat) : LoadPolicy :=
  { policy with ledger := policy.ledger.charge requestId replica amount }

/-- `_uncached`. -/
def uncached (promptTokens cachedBlocks : Nat) : Nat :=
  max 1 (promptTokens - cachedBlocks * prefixCacheBlockSize)

/-- `_remember`: hashes move to the end of a replica's index, and the oldest drop out. -/
def remember (resident hashes : List BlockHash) : List BlockHash :=
  let resident := hashes.foldl (fun resident hash => resident.erase hash ++ [hash]) resident
  resident.drop (resident.length - defaultIndexCapacity)

/-- `select`: choose a replica and record the request's charge. -/
def select [BlockDigest] (policy : LoadPolicy) (estimatedTokens : Nat) (tokenIds : List Int)
    (requestId : RequestId) : Except Raised Nat × LoadPolicy :=
  match policy.kind with
  | .roundRobin counter =>
    (.ok (counter % policy.dpSize), { policy with kind := .roundRobin (counter + 1) })
  | .requestCount =>
    let (requestId, policy) := policy.requestIdOf requestId
    let replica := argmin policy.ledger.load policy.dpSize
    (.ok replica, policy.charge requestId replica 1)
  | .tokenCount =>
    let (requestId, policy) := policy.requestIdOf requestId
    let replica := argmin policy.ledger.load policy.dpSize
    (.ok replica, policy.charge requestId replica (max 1 estimatedTokens))
  | .cacheAware resident =>
    let (requestId, policy) := policy.requestIdOf requestId
    match routingHashes tokenIds with
    | .error raised => (.error raised, policy)
    | .ok hashes =>
      let promptTokens := if tokenIds = [] then estimatedTokens else tokenIds.length
      let cached := fun replica => (hashes.takeWhile fun hash => hash ∈ resident replica).length
      let costs := fun replica => policy.ledger.load replica + uncached promptTokens (cached replica)
      let replica := argmin costs policy.dpSize
      let resident := Function.update resident replica (remember (resident replica) hashes)
      (.ok replica, { policy.charge requestId replica (uncached promptTokens (cached replica)) with
        kind := .cacheAware resident })

/-- `release`. -/
def release (policy : LoadPolicy) (requestId : RequestId) : LoadPolicy :=
  if policy.isRoundRobin then policy
  else { policy with ledger := policy.ledger.release requestId }

end LoadPolicy

/-! ### The controller -/

/-- `DataParallelController`: routes, policy, and the command queues of the replicas. -/
structure DataParallelController where
  policy : LoadPolicy
  routes : Finmap fun _ : RequestId => Nat
  enableDpAttention : Bool
  closed : Bool
  failure : Option Raised
  commandQueues : Nat → List Command

namespace DataParallelController

/-- The routing state a controller starts with. -/
def create (loadBalancer : String) (dpSize : Nat) (enableDpAttention : Bool) :
    Except Raised DataParallelController := do
  let policy ← LoadPolicy.create loadBalancer dpSize
  return { policy, routes := ∅, enableDpAttention, closed := false, failure := none
           commandQueues := fun _ => [] }

/-- Which put of a call raises, counted from zero, and what. -/
abbrev Fault := Option (Nat × Raised)

/-- Put messages into their queues, up to the one that raises. -/
def deliver (controller : DataParallelController) (messages : List (Nat × Command))
    (fault : Fault) : Option Raised × DataParallelController :=
  let put := fun (controller : DataParallelController) (message : Nat × Command) =>
    { controller with
      commandQueues := Function.update controller.commandQueues message.1
        (controller.commandQueues message.1 ++ [message.2]) }
  match fault with
  | none => (none, messages.foldl put controller)
  | some (n, raised) =>
    (if n < messages.length then some raised else none, (messages.take n).foldl put controller)

/-- The puts of `_send_replica`. -/
def replicaMessages (controller : DataParallelController) (replica : Nat) (command : Command) :
    List (Nat × Command) :=
  (replica, command) ::
    if controller.enableDpAttention then
      ((List.range controller.policy.dpSize).filter (· ≠ replica)).map fun peer => (peer, .wake)
    else []

/-- One put per replica. -/
def broadcast (controller : DataParallelController) (command : Command) : List (Nat × Command) :=
  (List.range controller.policy.dpSize).map fun replica => (replica, command)

/-- `_release`. -/
def release (controller : DataParallelController) (requestId : RequestId) : DataParallelController :=
  match controller.routes.lookup requestId with
  | none => controller
  | some _ => { controller with
      routes := controller.routes.erase requestId
      policy := controller.policy.release requestId }

section

variable [BlockDigest]

/-- Choose a request's replica and record its route. -/
def route (controller : DataParallelController) (request : AddRequest) :
    Except Raised Nat × DataParallelController :=
  match controller.policy.select request.promptTokenIds.length request.promptTokenIds
      request.requestId with
  | (.error raised, policy) => (.error raised, { controller with policy })
  | (.ok replica, policy) => (.ok replica, { controller with
      policy, routes := controller.routes.insert request.requestId replica })

/-- The selection loop of a batch. `grouped r` collects what goes to replica `r`. -/
def routeBatch : List AddRequest → (Nat → List AddRequest) → DataParallelController →
    Except Raised (Nat → List AddRequest) × DataParallelController
  | [], grouped, controller => (.ok grouped, controller)
  | request :: requests, grouped, controller =>
    match controller.route request with
    | (.error raised, controller) => (.error raised, controller)
    | (.ok replica, controller) =>
      routeBatch requests
        (Function.update grouped replica (grouped replica ++ [request])) controller

/-- `send`. -/
def send (controller : DataParallelController) (command : Command) (fault : Fault) :
    Option Raised × DataParallelController :=
  if controller.closed then
    (some (.runtimeError "DataParallelController has been shut down"), controller)
  else if let some failure := controller.failure then (some failure, controller)
  else match command with
  | .addBatch requests =>
    let requestIds := requests.map AddRequest.requestId
    if ¬ requestIds.Nodup then
      (some (.valueError "request ids in a batch must be unique"), controller)
    else if let some duplicate := requestIds.find? (· ∈ controller.routes) then
      (some (.valueError s!"request id '{duplicate}' is already active"), controller)
    else match routeBatch requests (fun _ => []) controller with
    | (.error raised, controller) => (some raised, controller)
    | (.ok grouped, controller) =>
      let messages := (List.range controller.policy.dpSize).flatMap fun replica =>
        if grouped replica = [] then []
        else controller.replicaMessages replica (.addBatch (grouped replica))
      match controller.deliver messages fault with
      | (none, controller) => (none, controller)
      | (some raised, controller) => (some raised, requestIds.foldl release controller)
  | .add request =>
    if request.requestId ∈ controller.routes then
      (some (.valueError s!"request id '{request.requestId}' is already active"), controller)
    else match controller.route request with
    | (.error raised, controller) => (some raised, controller)
    | (.ok replica, controller) =>
      match controller.deliver (controller.replicaMessages replica (.add request)) fault with
      | (none, controller) => (none, controller)
      | (some raised, controller) => (some raised, controller.release request.requestId)
  | .abort requestId =>
    match controller.routes.lookup requestId with
    | none => (none, controller)
    | some replica =>
      match controller.deliver (controller.replicaMessages replica (.abort requestId)) fault with
      | (some raised, controller) => (some raised, controller)
      | (none, controller) => (none, controller.release requestId)
  | .utility .. | .wake | .shutdown => controller.deliver (controller.broadcast command) fault
  | .other typeName =>
    (some (.typeError s!"unsupported scheduler command: {typeName}"), controller)

end

/-- `receive`: a failed rank is remembered, a request that ended is released. -/
def receive (controller : DataParallelController) : ReplicaEvent → DataParallelController
  | .failed globalRank message =>
    let detail := s!"data-parallel rank {globalRank} failed:\n{message}"
    { controller with failure := some (.runtimeError detail) }
  | .events outputs => (outputs.filter fun output => output.finished || output.failed).foldl
      (fun controller output => controller.release output.requestId) controller
  | .ready => controller
  | .dead detail =>
    if controller.closed then controller
    else { controller with failure := some (.runtimeError detail) }

/-! ### The accounts -/

variable {controller controller' : DataParallelController} {requestId : RequestId}

/-- A policy that charges does so for exactly the routed requests, on their replicas, and its
loads are what the charges add up to. -/
def Accounted (controller : DataParallelController) : Prop :=
  controller.policy.isRoundRobin = false → controller.policy.ledger.Balanced ∧
    ∀ id, controller.routes.lookup id = controller.policy.ledger.accountOf id

/-- Routes, charges and loads are the same. -/
structure SameBooks (controller controller' : DataParallelController) : Prop where
  routes : controller'.routes = controller.routes
  ledger : controller'.policy.ledger = controller.policy.ledger

/-- Nothing moved but what is recorded about `ids`. -/
structure Elsewhere (ids : List RequestId) (controller controller' : DataParallelController) :
    Prop where
  routes : ∀ x ∉ ids, controller'.routes.lookup x = controller.routes.lookup x
  charges : ∀ x ∉ ids, controller'.policy.ledger.charges.lookup x =
    controller.policy.ledger.charges.lookup x
  roundRobin : controller'.policy.isRoundRobin = controller.policy.isRoundRobin
  needsTokenIds : controller'.policy.needsTokenIds = controller.policy.needsTokenIds
  idle : controller.policy.isRoundRobin = true →
    controller'.policy.ledger = controller.policy.ledger

theorem Elsewhere.trans {ids ids' : List RequestId} {controller'' : DataParallelController}
    (h₁ : Elsewhere ids controller controller') (h₂ : Elsewhere ids' controller' controller'') :
    Elsewhere (ids ++ ids') controller controller'' := by
  have hsplit : ∀ {x : RequestId}, x ∉ ids ++ ids' → x ∉ ids ∧ x ∉ ids' := fun hx =>
    ⟨fun h => hx (List.mem_append_left _ h), fun h => hx (List.mem_append_right _ h)⟩
  exact
    { routes := fun x hx => (h₂.routes x (hsplit hx).2).trans (h₁.routes x (hsplit hx).1)
      charges := fun x hx => (h₂.charges x (hsplit hx).2).trans (h₁.charges x (hsplit hx).1)
      roundRobin := h₂.roundRobin.trans h₁.roundRobin
      needsTokenIds := h₂.needsTokenIds.trans h₁.needsTokenIds
      idle := fun h => (h₂.idle (h₁.roundRobin.trans h)).trans (h₁.idle h) }

/-- Accounts that agree elsewhere and have no route for `ids` agree. -/
theorem Elsewhere.sameBooks {ids : List RequestId} (h : Elsewhere ids controller controller')
    (hok : controller.Accounted) (hok' : controller'.Accounted)
    (hids : ∀ id ∈ ids, id ∉ controller.routes ∧ id ∉ controller'.routes) :
    SameBooks controller controller' := by
  have hroutes : controller'.routes = controller.routes := by
    refine Finmap.ext_lookup fun x => ?_
    by_cases hx : x ∈ ids
    · rw [Finmap.lookup_eq_none.mpr (hids x hx).1, Finmap.lookup_eq_none.mpr (hids x hx).2]
    · exact h.routes x hx
  refine ⟨hroutes, ?_⟩
  cases hrobin : controller.policy.isRoundRobin with
  | true => exact h.idle hrobin
  | false =>
    obtain ⟨hbalanced, haccount⟩ := hok hrobin
    obtain ⟨hbalanced', haccount'⟩ := hok' (h.roundRobin.trans hrobin)
    refine hbalanced'.eq_of_charges hbalanced (Finmap.ext_lookup fun x => ?_)
    by_cases hx : x ∈ ids
    · -- no route, so no charge
      have hnone : ∀ {c : DataParallelController}, x ∉ c.routes →
          (∀ id, c.routes.lookup id = c.policy.ledger.accountOf id) →
          c.policy.ledger.charges.lookup x = none := by
        intro c hx haccount
        rw [Finmap.lookup_eq_none, ← Ledger.accountOf_eq_none, ← haccount, Finmap.lookup_eq_none]
        exact hx
      rw [hnone (hids x hx).1 haccount, hnone (hids x hx).2 haccount']
    · exact h.charges x hx

/-! ### Delivery and release -/

theorem deliver_books (controller : DataParallelController) (messages : List (Nat × Command)) (fault : Fault) :
    (controller.deliver messages fault).2.routes = controller.routes ∧
      (controller.deliver messages fault).2.policy = controller.policy := by
  have hfold : ∀ (messages : List (Nat × Command)) (controller : DataParallelController),
      let after := messages.foldl (fun (controller : DataParallelController) message =>
        { controller with
          commandQueues := Function.update controller.commandQueues message.1
            (controller.commandQueues message.1 ++ [message.2]) }) controller
      after.routes = controller.routes ∧ after.policy = controller.policy := by
    intro messages
    induction messages with
    | nil => exact fun _ => ⟨rfl, rfl⟩
    | cons message messages ih => exact fun controller => ih _
  unfold deliver
  split
  · exact hfold messages controller
  · exact hfold _ controller

/-- A release keeps the accounts, and takes the route. -/
theorem release_accounted (h : controller.Accounted) (requestId : RequestId) :
    (controller.release requestId).Accounted ∧
      Elsewhere [requestId] controller (controller.release requestId) ∧
      requestId ∉ (controller.release requestId).routes := by
  unfold release
  split
  · rename_i hnone
    exact ⟨h, ⟨fun _ _ => rfl, fun _ _ => rfl, rfl, rfl, fun _ => rfl⟩,
      Finmap.lookup_eq_none.mp hnone⟩
  · cases hrobin : controller.policy.isRoundRobin with
    | true =>
      have hkeep : controller.policy.release requestId = controller.policy := by
        rw [LoadPolicy.release, if_pos hrobin]
      rw [hkeep]
      refine ⟨fun hfalse => ?_, ⟨fun x hx => ?_, fun _ _ => rfl, rfl, rfl, fun _ => rfl⟩,
        Finmap.notMem_erase_self⟩
      · rw [hrobin] at hfalse; cases hfalse
      · exact Finmap.lookup_erase_ne (List.ne_of_not_mem_cons hx)
    | false =>
      have hrelease : controller.policy.release requestId =
          { controller.policy with ledger := controller.policy.ledger.release requestId } := by
        rw [LoadPolicy.release, hrobin]; rfl
      rw [hrelease]
      obtain ⟨hbalanced, haccount⟩ := h hrobin
      refine ⟨fun _ => ⟨hbalanced.release, fun id => ?_⟩,
        ⟨fun x hx => Finmap.lookup_erase_ne (List.ne_of_not_mem_cons hx), fun x hx => ?_, rfl, rfl,
          fun htrue => ?_⟩, Finmap.notMem_erase_self⟩
      · by_cases hid : id = requestId
        · subst hid
          rw [Finmap.lookup_erase, Ledger.accountOf_release_self]
        · rw [Finmap.lookup_erase_ne hid, Ledger.accountOf_release_of_ne hid, haccount id]
      · show (controller.policy.ledger.release requestId).charges.lookup x = _
        rw [Ledger.charges_release, Finmap.lookup_erase_ne (List.ne_of_not_mem_cons hx)]
      · rw [hrobin] at htrue; cases htrue

/-- Releasing all of `ids`. -/
theorem releaseAll_accounted : ∀ (ids : List RequestId) {controller : DataParallelController},
    controller.Accounted → (ids.foldl release controller).Accounted ∧
      Elsewhere ids controller (ids.foldl release controller) ∧
      ∀ id ∈ ids, id ∉ (ids.foldl release controller).routes
  | [], controller, h => ⟨h, ⟨fun _ _ => rfl, fun _ _ => rfl, rfl, rfl, fun _ => rfl⟩,
      fun _ hid => by cases hid⟩
  | requestId :: ids, controller, h => by
      obtain ⟨hok, helse, hgone⟩ := release_accounted h requestId
      obtain ⟨hok', helse', hgone'⟩ := releaseAll_accounted ids hok
      refine ⟨hok', helse.trans helse', fun id hid => ?_⟩
      by_cases hmem : id ∈ ids
      · exact hgone' id hmem
      · obtain rfl := (List.mem_cons.mp hid).resolve_right hmem
        rw [List.foldl_cons, ← Finmap.lookup_eq_none, helse'.routes id hmem, Finmap.lookup_eq_none]
        exact hgone

end DataParallelController

/-! ### Selection -/

section

variable [BlockDigest]

/-- Whether a policy can hash a prompt, if it has to. -/
def LoadPolicy.hashes (policy : LoadPolicy) (tokenIds : List Int) : Bool :=
  !policy.needsTokenIds || (fullBlocks tokenIds).all packable

/-- What a selection never changes about a policy. -/
structure LoadPolicy.SameClass (policy policy' : LoadPolicy) : Prop where
  roundRobin : policy'.isRoundRobin = policy.isRoundRobin
  needsTokenIds : policy'.needsTokenIds = policy.needsTokenIds

omit [BlockDigest] in
/-- The name a charge is recorded under: the request's own, if it has one. -/
theorem LoadPolicy.requestIdOf_spec (policy : LoadPolicy) (requestId : RequestId) :
    (requestId ≠ "" → (policy.requestIdOf requestId).1 = requestId) ∧
      (policy.requestIdOf requestId).1 ≠ "" ∧
      (policy.requestIdOf requestId).2.ledger = policy.ledger ∧
      (policy.requestIdOf requestId).2.kind = policy.kind ∧
      (policy.requestIdOf requestId).2.dpSize = policy.dpSize := by
  unfold requestIdOf
  split
  · rename_i hempty
    refine ⟨fun hne => absurd hempty hne, fun heq => ?_, rfl, rfl, rfl⟩
    have hlength := congrArg String.length heq
    simp at hlength
  · rename_i hne
    exact ⟨fun _ => rfl, hne, rfl, rfl, rfl⟩

/-- A prompt that cannot be hashed is refused before anything is recorded. -/
theorem LoadPolicy.select_raises {policy : LoadPolicy} {tokenIds : List Int}
    (h : policy.hashes tokenIds = false) (estimated : Nat) (requestId : RequestId) :
    ∃ raised policy', policy.select estimated tokenIds requestId = (.error raised, policy') ∧
      policy'.ledger = policy.ledger ∧ policy.SameClass policy' := by
  obtain ⟨-, -, hledger, hsame, -⟩ := policy.requestIdOf_spec requestId
  simp only [hashes, Bool.or_eq_false_iff, Bool.not_eq_false'] at h
  cases hkind : policy.kind with
  | cacheAware resident =>
    refine ⟨packError, (policy.requestIdOf requestId).2, ?_, hledger, ?_⟩
    · simp only [select, hkind, routingHashes, h.2, Bool.false_eq_true, if_false]
    · exact ⟨by simp only [isRoundRobin, hsame], by simp only [LoadPolicy.needsTokenIds, hsame]⟩
  | roundRobin counter => rw [LoadPolicy.needsTokenIds, hkind] at h; cases h.1
  | requestCount => rw [LoadPolicy.needsTokenIds, hkind] at h; cases h.1
  | tokenCount => rw [LoadPolicy.needsTokenIds, hkind] at h; cases h.1

/-- A round-robin policy records nothing. -/
theorem LoadPolicy.select_robin {policy : LoadPolicy} (h : policy.isRoundRobin = true)
    (estimated : Nat) (tokenIds : List Int) (requestId : RequestId) :
    ∃ replica policy', policy.select estimated tokenIds requestId = (.ok replica, policy') ∧
      policy.SameClass policy' ∧ policy'.ledger = policy.ledger := by
  unfold isRoundRobin at h
  split at h
  · rename_i counter hkind
    refine ⟨counter % policy.dpSize, { policy with kind := .roundRobin (counter + 1) }, ?_,
      ⟨?_, ?_⟩, rfl⟩
    · simp only [select, hkind]
    · simp only [isRoundRobin, hkind]
    · simp only [LoadPolicy.needsTokenIds, hkind]
  · cases h

/-- Every other policy charges what it selects. -/
theorem LoadPolicy.select_charges {policy : LoadPolicy} {tokenIds : List Int}
    (h : policy.hashes tokenIds = true) (hrobin : policy.isRoundRobin = false) (estimated : Nat)
    (requestId : RequestId) :
    ∃ replica policy' amount, policy.select estimated tokenIds requestId = (.ok replica, policy') ∧
      policy.SameClass policy' ∧
      policy'.ledger = policy.ledger.charge (policy.requestIdOf requestId).1 replica amount := by
  obtain ⟨-, -, hledger, hsame, hsize⟩ := policy.requestIdOf_spec requestId
  cases hkind : policy.kind with
  | roundRobin counter => rw [isRoundRobin, hkind] at hrobin; cases hrobin
  | requestCount =>
    refine ⟨argmin policy.ledger.load policy.dpSize,
      (policy.requestIdOf requestId).2.charge (policy.requestIdOf requestId).1
        (argmin policy.ledger.load policy.dpSize) 1, 1, ?_, ⟨?_, ?_⟩, ?_⟩
    · simp only [select, hkind, hledger, hsize]
    · simp only [isRoundRobin, charge, hsame]
    · simp only [LoadPolicy.needsTokenIds, charge, hsame]
    · simp only [charge, hledger]
  | tokenCount =>
    refine ⟨argmin policy.ledger.load policy.dpSize,
      (policy.requestIdOf requestId).2.charge (policy.requestIdOf requestId).1
        (argmin policy.ledger.load policy.dpSize) (max 1 estimated), max 1 estimated, ?_,
      ⟨?_, ?_⟩, ?_⟩
    · simp only [select, hkind, hledger, hsize]
    · simp only [isRoundRobin, charge, hsame]
    · simp only [LoadPolicy.needsTokenIds, charge, hsame]
    · simp only [charge, hledger]
  | cacheAware resident =>
    have hneeds : policy.needsTokenIds = true := by rw [LoadPolicy.needsTokenIds, hkind]
    have hall : (fullBlocks tokenIds).all packable = true := by
      simpa [hashes, hneeds] using h
    simp only [select, hkind, routingHashes, hall, if_true]
    refine ⟨_, _, _, rfl, ⟨?_, ?_⟩,
      congrArg (fun ledger : Ledger RequestId Nat => ledger.charge _ _ _) hledger⟩
    · rw [hrobin]; rfl
    · rw [hneeds]; rfl

namespace DataParallelController

variable {controller controller' : DataParallelController}

/-- Whether the controller looks at the requests of a command at all. -/
def accepts (controller : DataParallelController) (requestIds : List RequestId) : Bool :=
  !controller.closed && controller.failure.isNone && requestIds.Nodup &&
    !requestIds.any (· ∈ controller.routes)

/-- The requests a command submits. -/
def requestsOf : Command → List AddRequest
  | .add request => [request]
  | .addBatch requests => requests
  | _ => []

/-- A submission the accounts survive: a charging policy is given names, and can hash every
prompt or not even the first. -/
def Routable (controller : DataParallelController) (command : Command) : Prop :=
  let requests := requestsOf command
  controller.accepts (requests.map AddRequest.requestId) = true →
    controller.policy.isRoundRobin = false →
    (∀ request ∈ requests, request.requestId ≠ "" ∧
      controller.policy.hashes request.promptTokenIds = true) ∨
    ∃ request ∈ requests.head?, controller.policy.hashes request.promptTokenIds = false

theorem route_raises {request : AddRequest}
    (h : controller.policy.hashes request.promptTokenIds = false) :
    ∃ raised controller', controller.route request = (.error raised, controller') ∧
      SameBooks controller controller' ∧ (controller.Accounted → controller'.Accounted) := by
  obtain ⟨raised, policy', hselect, hledger, hclass⟩ :=
    LoadPolicy.select_raises h request.promptTokenIds.length request.requestId
  refine ⟨raised, { controller with policy := policy' }, ?_, ⟨rfl, hledger⟩, fun hok hrobin => ?_⟩
  · simp only [route, hselect]
  · obtain ⟨hbalanced, haccount⟩ := hok (hclass.roundRobin ▸ hrobin)
    exact ⟨by rw [hledger]; exact hbalanced, fun id => by rw [hledger]; exact haccount id⟩

theorem route_ok {request : AddRequest}
    (h : controller.policy.hashes request.promptTokenIds = true)
    (hid : controller.policy.isRoundRobin = false → request.requestId ≠ "")
    (hfresh : request.requestId ∉ controller.routes) :
    ∃ replica controller', controller.route request = (.ok replica, controller') ∧
      (controller.Accounted → controller'.Accounted) ∧
      Elsewhere [request.requestId] controller controller' := by
  have hroutes : ∀ (replica : Nat), ∀ x ∉ [request.requestId],
      (controller.routes.insert request.requestId replica).lookup x = controller.routes.lookup x :=
    fun replica x hx => Finmap.lookup_insert_of_ne _ (List.ne_of_not_mem_cons hx)
  cases hrobin : controller.policy.isRoundRobin with
  | true =>
    obtain ⟨replica, policy', hselect, hclass, hledger⟩ := LoadPolicy.select_robin hrobin
      request.promptTokenIds.length request.promptTokenIds request.requestId
    refine ⟨replica, { controller with
      policy := policy', routes := controller.routes.insert request.requestId replica }, ?_,
      fun hok hfalse => ?_, ?_⟩
    · simp only [route, hselect]
    · rw [hclass.roundRobin, hrobin] at hfalse; cases hfalse
    · exact
        { routes := hroutes replica, charges := fun x _ => by rw [hledger]
          roundRobin := hclass.roundRobin, needsTokenIds := hclass.needsTokenIds
          idle := fun _ => hledger }
  | false =>
    obtain ⟨replica, policy', amount, hselect, hclass, hledger⟩ := LoadPolicy.select_charges h
      hrobin request.promptTokenIds.length request.requestId
    rw [(controller.policy.requestIdOf_spec request.requestId).1 (hid hrobin)] at hledger
    refine ⟨replica, { controller with
      policy := policy', routes := controller.routes.insert request.requestId replica }, ?_,
      fun hok _ => ?_, ?_⟩
    · simp only [route, hselect]
    · obtain ⟨hbalanced, haccount⟩ := hok hrobin
      have huncharged : request.requestId ∉ controller.policy.ledger.charges := by
        rw [← Ledger.accountOf_eq_none, ← haccount, Finmap.lookup_eq_none]
        exact hfresh
      refine ⟨by rw [hledger]; exact hbalanced.charge huncharged, fun id => ?_⟩
      rw [hledger]
      by_cases hne : id = request.requestId
      · subst hne
        rw [Finmap.lookup_insert, Ledger.accountOf_charge_self]
      · rw [Finmap.lookup_insert_of_ne _ hne, Ledger.accountOf_charge_of_ne hne, haccount id]
    · refine
        { routes := hroutes replica, charges := fun x hx => ?_, roundRobin := hclass.roundRobin
          needsTokenIds := hclass.needsTokenIds, idle := fun htrue => ?_ }
      · rw [hledger]
        exact Finmap.lookup_insert_of_ne _ (List.ne_of_not_mem_cons hx)
      · rw [hrobin] at htrue; cases htrue

/-- Selecting never charges the empty name. -/
theorem route_unnamed {request : AddRequest}
    (h : controller.policy.hashes request.promptTokenIds = true)
    (hrobin : controller.policy.isRoundRobin = false) :
    ∃ replica controller', controller.route request = (.ok replica, controller') ∧
      controller'.routes = controller.routes.insert request.requestId replica ∧
      controller.policy.SameClass controller'.policy ∧
      controller'.policy.ledger.accountOf "" = controller.policy.ledger.accountOf "" := by
  obtain ⟨replica, policy', amount, hselect, hclass, hledger⟩ := LoadPolicy.select_charges h
    hrobin request.promptTokenIds.length request.requestId
  refine ⟨replica, { controller with
    policy := policy', routes := controller.routes.insert request.requestId replica }, ?_, rfl,
    hclass, ?_⟩
  · simp only [route, hselect]
  · have hname := (controller.policy.requestIdOf_spec request.requestId).2.1
    rw [hledger, Ledger.accountOf_charge_of_ne (Ne.symm hname)]

omit [BlockDigest] in
theorem Elsewhere.hashes {ids : List RequestId} (h : Elsewhere ids controller controller')
    (tokenIds : List Int) : controller'.policy.hashes tokenIds = controller.policy.hashes tokenIds := by
  rw [LoadPolicy.hashes, LoadPolicy.hashes, h.needsTokenIds]

/-- The selection loop over a batch that can be hashed. -/
theorem routeBatch_ok : ∀ {requests : List AddRequest} (grouped : Nat → List AddRequest)
    {controller : DataParallelController},
    (∀ request ∈ requests, controller.policy.hashes request.promptTokenIds = true ∧
      (controller.policy.isRoundRobin = false → request.requestId ≠ "") ∧
      request.requestId ∉ controller.routes) →
    (requests.map AddRequest.requestId).Nodup →
    ∃ grouped' controller', routeBatch requests grouped controller = (.ok grouped', controller') ∧
      (controller.Accounted → controller'.Accounted) ∧
      Elsewhere (requests.map AddRequest.requestId) controller controller'
  | [], grouped, controller, _, _ =>
    ⟨grouped, controller, rfl, id, ⟨fun _ _ => rfl, fun _ _ => rfl, rfl, rfl, fun _ => rfl⟩⟩
  | request :: requests, grouped, controller, h, hnodup => by
      obtain ⟨hhashes, hname, hfresh⟩ := h request List.mem_cons_self
      obtain ⟨replica, mid, hroute, hok, helse⟩ := route_ok hhashes hname hfresh
      rw [List.map_cons, List.nodup_cons] at hnodup
      have hrest : ∀ other ∈ requests, mid.policy.hashes other.promptTokenIds = true ∧
          (mid.policy.isRoundRobin = false → other.requestId ≠ "") ∧
          other.requestId ∉ mid.routes := by
        intro other hmem
        obtain ⟨hhashes', hname', hfresh'⟩ := h other (List.mem_cons_of_mem _ hmem)
        refine ⟨by rw [helse.hashes]; exact hhashes', fun hrobin => hname' (helse.roundRobin ▸ hrobin), ?_⟩
        have hne : other.requestId ∉ [request.requestId] := fun heq =>
          hnodup.1 (List.mem_singleton.mp heq ▸ List.mem_map_of_mem hmem)
        rw [← Finmap.lookup_eq_none, helse.routes _ hne, Finmap.lookup_eq_none]
        exact hfresh'
      obtain ⟨grouped', controller', hrun, hok', helse'⟩ := routeBatch_ok
        (Function.update grouped replica (grouped replica ++ [request])) hrest hnodup.2
      refine ⟨grouped', controller', ?_, fun hacc => hok' (hok hacc), helse.trans helse'⟩
      simp only [routeBatch, hroute, hrun]

/-! ### One call -/

omit [BlockDigest] in
theorem deliver_same (controller : DataParallelController) (messages : List (Nat × Command)) (fault : Fault) :
    SameBooks controller (controller.deliver messages fault).2 ∧
      ((controller.deliver messages fault).2.Accounted ↔ controller.Accounted) := by
  obtain ⟨hroutes, hpolicy⟩ := deliver_books controller messages fault
  refine ⟨⟨hroutes, by rw [hpolicy]⟩, ?_⟩
  unfold Accounted
  rw [hroutes, hpolicy]

/-- What a call owes the accounts. -/
def Keeps (controller : DataParallelController)
    (outcome : Option Raised × DataParallelController) : Prop :=
  outcome.2.Accounted ∧ (outcome.1 ≠ none → SameBooks controller outcome.2)

omit [BlockDigest] in
theorem Keeps.nothing (h : controller.Accounted) (raised : Option Raised) :
    controller.Keeps (raised, controller) := ⟨h, fun _ => ⟨rfl, rfl⟩⟩

omit [BlockDigest] in
/-- Delivering a submission: on a fault what was opened is released again. -/
theorem keeps_submission {ids : List RequestId} (hopened : controller'.Accounted)
    (hok : controller.Accounted) (helse : Elsewhere ids controller controller')
    (hfresh : ∀ id ∈ ids, id ∉ controller.routes) (messages : List (Nat × Command)) (fault : Fault) :
    controller.Keeps (match controller'.deliver messages fault with
      | (none, after) => (none, after)
      | (some raised, after) => (some raised, ids.foldl release after)) := by
  obtain ⟨hsame, hiff⟩ := deliver_same controller' messages fault
  rcases hdeliver : controller'.deliver messages fault with ⟨raised, after⟩
  rw [hdeliver] at hsame hiff
  have hafter : after.Accounted := hiff.mpr hopened
  cases raised with
  | none => exact ⟨hafter, fun hne => absurd rfl hne⟩
  | some raised =>
    obtain ⟨hreleased, helse', hgone⟩ := releaseAll_accounted ids hafter
    have hbooks := deliver_books controller' messages fault
    rw [hdeliver] at hbooks
    have hmid : Elsewhere ids controller after :=
      { routes := fun x hx => by rw [hbooks.1]; exact helse.routes x hx
        charges := fun x hx => by rw [hbooks.2]; exact helse.charges x hx
        roundRobin := by rw [hbooks.2]; exact helse.roundRobin
        needsTokenIds := by rw [hbooks.2]; exact helse.needsTokenIds
        idle := fun h => by rw [hbooks.2]; exact helse.idle h }
    refine ⟨hreleased, fun _ => (hmid.trans helse').sameBooks hok hreleased fun id hid => ?_⟩
    have hid : id ∈ ids := (List.mem_append.mp hid).elim (fun h => h) fun h => h
    exact ⟨hfresh id hid, hgone id hid⟩

/-- A batch the accounts survive. -/
theorem keeps_batch {requests : List AddRequest} (hok : controller.Accounted)
    (hnodup : (requests.map AddRequest.requestId).Nodup)
    (hfresh : ∀ id ∈ requests.map AddRequest.requestId, id ∉ controller.routes)
    (hroutable : controller.policy.isRoundRobin = false →
      (∀ request ∈ requests, request.requestId ≠ "" ∧
        controller.policy.hashes request.promptTokenIds = true) ∨
      ∃ request ∈ requests.head?, controller.policy.hashes request.promptTokenIds = false)
    (messages : DataParallelController → (Nat → List AddRequest) → List (Nat × Command))
    (fault : Fault) :
    controller.Keeps (match routeBatch requests (fun _ => []) controller with
      | (.error raised, controller) => (some raised, controller)
      | (.ok grouped, controller) =>
        match controller.deliver (messages controller grouped) fault with
        | (none, controller) => (none, controller)
        | (some raised, controller) =>
          (some raised, (requests.map AddRequest.requestId).foldl release controller)) := by
  have hall : ((∀ request ∈ requests, controller.policy.hashes request.promptTokenIds = true ∧
        (controller.policy.isRoundRobin = false → request.requestId ≠ "") ∧
        request.requestId ∉ controller.routes)) ∨
      ∃ request ∈ requests.head?, controller.policy.hashes request.promptTokenIds = false := by
    cases hrobin : controller.policy.isRoundRobin with
    | true =>
      refine .inl fun request hmem => ⟨?_, fun h => (by cases h), hfresh _ (List.mem_map_of_mem hmem)⟩
      have hneeds : controller.policy.needsTokenIds = false := by
        unfold LoadPolicy.isRoundRobin at hrobin
        unfold LoadPolicy.needsTokenIds
        cases hkind : controller.policy.kind <;> simp_all
      rw [LoadPolicy.hashes, hneeds]
      rfl
    | false =>
      refine (hroutable hrobin).imp (fun h request hmem => ?_) id
      exact ⟨(h request hmem).2, fun _ => (h request hmem).1, hfresh _ (List.mem_map_of_mem hmem)⟩
  rcases hall with hall | ⟨request, hhead, hhashes⟩
  · obtain ⟨grouped, opened, hrun, hacc, helse⟩ :=
      routeBatch_ok (fun _ => []) hall hnodup
    rw [hrun]
    exact keeps_submission (hacc hok) hok helse hfresh (messages opened grouped) fault
  · -- nothing was recorded yet
    obtain ⟨raised, after, hroute, hsame, hacc⟩ := route_raises hhashes
    cases requests with
    | nil => cases hhead
    | cons first requests =>
      obtain rfl : first = request := Option.some.inj hhead
      have hrun : routeBatch (first :: requests) (fun _ => []) controller = (.error raised, after) := by
        simp only [routeBatch, hroute]
      rw [hrun]
      exact ⟨hacc hok, fun _ => hsame⟩

omit [BlockDigest] in
theorem keeps_deliver (h : controller.Accounted) (messages : List (Nat × Command)) (fault : Fault) :
    controller.Keeps (controller.deliver messages fault) := by
  obtain ⟨hsame, hiff⟩ := deliver_same controller messages fault
  exact ⟨hiff.mpr h, fun _ => hsame⟩

/-- **Step lemma.** A routable command keeps the accounts, and moves nothing if it raises. -/
theorem send_keeps {command : Command} (h : controller.Accounted)
    (hroutable : controller.Routable command) (fault : Fault) :
    controller.Keeps (controller.send command fault) := by
  unfold send
  split
  · exact .nothing h _
  rename_i hopen
  split
  · exact .nothing h _
  rename_i hfailure
  have hfailure : controller.failure = none := by
    cases hx : controller.failure with
    | none => rfl
    | some failure => exact absurd hx (hfailure failure)
  have haccepts : ∀ {requestIds : List RequestId}, requestIds.Nodup →
      (∀ id ∈ requestIds, id ∉ controller.routes) → controller.accepts requestIds = true := by
    intro requestIds hnodup hfresh
    simp only [Bool.not_eq_true] at hopen
    simp only [accepts, hopen, hfailure, Bool.not_false, Option.isNone_none, Bool.and_true,
      Bool.and_eq_true, decide_eq_true_eq, Bool.not_eq_true', List.any_eq_false, true_and]
    exact ⟨hnodup, fun id hid => by simpa using hfresh id hid⟩
  cases command with
  | addBatch requests =>
    simp only
    split
    · exact .nothing h _
    rename_i hnodup
    have hnodup := not_not.mp hnodup
    split
    · exact .nothing h _
    · rename_i hfind
      have hfresh : ∀ id ∈ requests.map AddRequest.requestId, id ∉ controller.routes := by
        intro id hid hmem
        cases hx : (requests.map AddRequest.requestId).find? (· ∈ controller.routes) with
        | some duplicate => exact hfind duplicate hx
        | none =>
          have := List.find?_eq_none.mp hx id hid
          simp only [decide_eq_true_eq] at this
          exact this hmem
      exact keeps_batch h hnodup hfresh (hroutable (haccepts hnodup hfresh))
        (fun controller grouped => (List.range controller.policy.dpSize).flatMap fun replica =>
          if grouped replica = [] then []
          else controller.replicaMessages replica (.addBatch (grouped replica))) fault
  | add request =>
    simp only
    split
    · exact .nothing h _
    · rename_i hfresh
      have hfresh' : ∀ id ∈ [request.requestId], id ∉ controller.routes := fun id hid => by
        rw [List.mem_singleton] at hid; rwa [hid]
      cases hhashes : controller.policy.hashes request.promptTokenIds with
      | false =>
        obtain ⟨raised, after, hroute, hsame, hacc⟩ := route_raises hhashes
        rw [hroute]
        exact ⟨hacc h, fun _ => hsame⟩
      | true =>
        have hname : controller.policy.isRoundRobin = false → request.requestId ≠ "" := by
          intro hrobin
          rcases hroutable (haccepts (List.nodup_singleton _) hfresh') hrobin with hall | hhead
          · exact (hall request (List.mem_singleton_self _)).1
          · obtain ⟨first, hfirst, hbad⟩ := hhead
            obtain rfl : request = first := Option.some.inj hfirst
            rw [hhashes] at hbad
            cases hbad
        obtain ⟨replica, opened, hroute, hacc, helse⟩ := route_ok hhashes hname hfresh
        rw [hroute]
        exact keeps_submission (hacc h) h helse hfresh' _ fault
  | abort requestId =>
    simp only
    split
    · exact .nothing h _
    · rename_i replica _
      have hkeeps := keeps_deliver h (controller.replicaMessages replica (.abort requestId)) fault
      split
      · rename_i raised after hdeliver
        rw [hdeliver] at hkeeps
        exact ⟨hkeeps.1, hkeeps.2⟩
      · rename_i after hdeliver
        rw [hdeliver] at hkeeps
        exact ⟨(release_accounted hkeeps.1 requestId).1, fun hne => absurd rfl hne⟩
  | utility callId method => exact keeps_deliver h _ fault
  | wake => exact keeps_deliver h _ fault
  | shutdown => exact keeps_deliver h _ fault
  | other typeName => exact .nothing h _

/-! ### What the condition excludes -/

theorem routeBatch_unnamed : ∀ {requests : List AddRequest} (grouped : Nat → List AddRequest)
    {controller : DataParallelController},
    (∀ request ∈ requests, controller.policy.hashes request.promptTokenIds = true) →
    controller.policy.isRoundRobin = false →
    ∃ grouped' controller', routeBatch requests grouped controller = (.ok grouped', controller') ∧
      (∀ id, id ∈ controller.routes ∨ id ∈ requests.map AddRequest.requestId →
        id ∈ controller'.routes) ∧
      controller'.policy.isRoundRobin = false ∧
      controller'.policy.ledger.accountOf "" = controller.policy.ledger.accountOf ""
  | [], grouped, controller, _, hrobin =>
    ⟨grouped, controller, rfl, fun id hid => hid.elim (fun h => h) fun h => (by cases h), hrobin, rfl⟩
  | request :: requests, grouped, controller, h, hrobin => by
      obtain ⟨replica, mid, hroute, hroutes, hclass, haccount⟩ :=
        route_unnamed (h request List.mem_cons_self) hrobin
      have hhashes : ∀ other ∈ requests, mid.policy.hashes other.promptTokenIds = true := by
        intro other hmem
        have := h other (List.mem_cons_of_mem _ hmem)
        rwa [LoadPolicy.hashes, hclass.needsTokenIds]
      obtain ⟨grouped', controller', hrun, hmem, hrobin', haccount'⟩ := routeBatch_unnamed
        (Function.update grouped replica (grouped replica ++ [request])) hhashes
        (hclass.roundRobin.trans hrobin)
      refine ⟨grouped', controller', by simp only [routeBatch, hroute, hrun], fun id hid => ?_, hrobin',
        haccount'.trans haccount⟩
      refine hmem id ?_
      rw [hroutes, Finmap.mem_insert]
      rcases hid with hid | hid
      · exact .inl (.inr hid)
      · exact (List.mem_cons.mp hid).elim (fun heq => .inl (.inl heq)) .inr

/-- A batch that stops halfway leaves its first request routed. -/
theorem routeBatch_stops : ∀ {requests : List AddRequest} (grouped : Nat → List AddRequest)
    {controller : DataParallelController},
    (∃ request ∈ requests, controller.policy.hashes request.promptTokenIds = false) →
    controller.policy.isRoundRobin = false →
    ∃ raised controller', routeBatch requests grouped controller = (.error raised, controller') ∧
      (∀ id ∈ controller.routes, id ∈ controller'.routes) ∧
      ∀ request ∈ requests.head?, controller.policy.hashes request.promptTokenIds = true →
        request.requestId ∈ controller'.routes
  | [], grouped, controller, h, _ => by
      obtain ⟨_, hmem, -⟩ := h
      cases hmem
  | request :: requests, grouped, controller, h, hrobin => by
      cases hhashes : controller.policy.hashes request.promptTokenIds with
      | false =>
        obtain ⟨raised, after, hroute, hsame, -⟩ := route_raises hhashes
        refine ⟨raised, after, by simp only [routeBatch, hroute],
          fun id hid => by rw [hsame.routes]; exact hid, fun first hfirst hok => ?_⟩
        obtain rfl : request = first := Option.some.inj hfirst
        rw [hhashes] at hok
        cases hok
      | true =>
        obtain ⟨replica, mid, hroute, hroutes, hclass, -⟩ := route_unnamed hhashes hrobin
        obtain ⟨other, hother, hbad⟩ := h
        have hrest : ∃ other ∈ requests, mid.policy.hashes other.promptTokenIds = false := by
          rcases List.mem_cons.mp hother with rfl | hother
          · rw [hhashes] at hbad; cases hbad
          · exact ⟨other, hother, by rw [LoadPolicy.hashes, hclass.needsTokenIds]; exact hbad⟩
        obtain ⟨raised, after, hrun, hkept, -⟩ := routeBatch_stops
          (Function.update grouped replica (grouped replica ++ [request])) hrest
          (hclass.roundRobin.trans hrobin)
        refine ⟨raised, after, by simp only [routeBatch, hroute, hrun], fun id hid => hkept id ?_,
          fun first hfirst _ => ?_⟩
        · rw [hroutes, Finmap.mem_insert]; exact .inr hid
        · obtain rfl : request = first := Option.some.inj hfirst
          refine hkept _ ?_
          rw [hroutes, Finmap.mem_insert]
          exact .inl rfl

omit [BlockDigest] in
/-- A routed request without a name has no charge. -/
theorem not_accounted_unnamed (hrobin : controller.policy.isRoundRobin = false)
    (hmem : "" ∈ controller.routes) (hnone : controller.policy.ledger.accountOf "" = none) :
    ¬ controller.Accounted := by
  intro hok
  have haccount := (hok hrobin).2 ""
  rw [hnone, Finmap.lookup_eq_none] at haccount
  exact haccount hmem

omit [BlockDigest] in
/-- What an accepted command finds. -/
theorem accepts_iff {requestIds : List RequestId} : controller.accepts requestIds = true ↔
    controller.closed = false ∧ controller.failure = none ∧ requestIds.Nodup ∧
      ∀ id ∈ requestIds, id ∉ controller.routes := by
  simp only [accepts, Bool.and_eq_true, Bool.not_eq_true', Option.isNone_iff_eq_none,
    decide_eq_true_eq, List.any_eq_false, and_assoc]

/-- An accepted batch goes through the selection loop. -/
theorem send_batch_eq (requests : List AddRequest)
    (h : controller.accepts (requests.map AddRequest.requestId) = true) (fault : Fault) :
    controller.send (.addBatch requests) fault =
      match routeBatch requests (fun _ => []) controller with
      | (.error raised, controller) => (some raised, controller)
      | (.ok grouped, controller) =>
        let messages := (List.range controller.policy.dpSize).flatMap fun replica =>
          if grouped replica = [] then []
          else controller.replicaMessages replica (.addBatch (grouped replica))
        match controller.deliver messages fault with
        | (none, controller) => (none, controller)
        | (some raised, controller) =>
          (some raised, (requests.map AddRequest.requestId).foldl release controller) := by
  obtain ⟨hopen, hfailure, hnodup, hfresh⟩ := accepts_iff.mp h
  have hfind : (requests.map AddRequest.requestId).find? (· ∈ controller.routes) = none :=
    List.find?_eq_none.mpr fun id hid => by simpa using hfresh id hid
  simp only [send, hopen, hfailure, hnodup, hfind, Bool.false_eq_true, if_false, not_true_eq_false]

/-- An accepted request is routed alone. -/
theorem send_add_eq (request : AddRequest) (h : controller.accepts [request.requestId] = true)
    (fault : Fault) : controller.send (.add request) fault =
      match controller.route request with
      | (.error raised, controller) => (some raised, controller)
      | (.ok replica, controller) =>
        match controller.deliver (controller.replicaMessages replica (.add request)) fault with
        | (none, controller) => (none, controller)
        | (some raised, controller) => (some raised, controller.release request.requestId) := by
  obtain ⟨hopen, hfailure, -, hfresh⟩ := accepts_iff.mp h
  have hmem := hfresh request.requestId (List.mem_singleton_self _)
  simp only [send, hopen, hfailure, hmem, Bool.false_eq_true, if_false]

/-- **Step lemma, the other way.** A command that is not routable breaks the accounts or what
a raising call promises. -/
theorem routable_of_keeps {command : Command} (hok : controller.Accounted)
    (hkeeps : ∀ fault, controller.Keeps (controller.send command fault)) :
    controller.Routable command := by
  intro haccepts hrobin
  by_contra hneither
  rw [not_or] at hneither
  obtain ⟨hall, hhead⟩ := hneither
  have hfresh := (accepts_iff.mp haccepts).2.2.2
  have hunnamed : controller.policy.ledger.accountOf "" = none ∨ "" ∈ controller.routes := by
    have haccount := (hok hrobin).2 ""
    by_cases hmem : "" ∈ controller.routes
    · exact .inr hmem
    · exact .inl (haccount ▸ Finmap.lookup_eq_none.mpr hmem)
  have hkeep := hkeeps none
  cases command with
  | addBatch batch =>
    rw [send_batch_eq batch haccepts] at hkeep
    by_cases hhashes : ∀ request ∈ batch, controller.policy.hashes request.promptTokenIds = true
    · -- somebody has no name
      have hempty : "" ∈ batch.map AddRequest.requestId := by
        by_contra hnone
        exact hall fun request hmem =>
          ⟨fun heq => hnone (heq ▸ List.mem_map_of_mem hmem), hhashes request hmem⟩
      obtain ⟨grouped, after, hrun, hmem, hrobin', haccount⟩ :=
        routeBatch_unnamed (fun _ => []) hhashes hrobin
      rw [hrun] at hkeep
      simp only [deliver] at hkeep
      obtain ⟨hroutes, hpolicy⟩ := deliver_books after
        ((List.range after.policy.dpSize).flatMap fun replica =>
          if grouped replica = [] then []
          else after.replicaMessages replica (.addBatch (grouped replica))) none
      refine not_accounted_unnamed ?_ ?_ ?_ hkeep.1
      · exact (congrArg LoadPolicy.isRoundRobin hpolicy).trans hrobin'
      · exact hroutes ▸ hmem "" (.inr hempty)
      · have hbefore := hunnamed.resolve_right (hfresh "" hempty)
        exact (congrArg (fun policy : LoadPolicy => policy.ledger.accountOf "") hpolicy).trans
          (haccount.trans hbefore)
    · -- the loop stops halfway
      obtain ⟨bad, hmem, hbad⟩ : ∃ request ∈ batch,
          controller.policy.hashes request.promptTokenIds = false := by
        by_contra hnone
        refine hhashes fun request hmem => ?_
        by_contra hfalse
        exact hnone ⟨request, hmem, Bool.eq_false_iff.mpr hfalse⟩
      obtain ⟨raised, after, hrun, -, hfirst⟩ :=
        routeBatch_stops (fun _ => []) ⟨bad, hmem, hbad⟩ hrobin
      rw [hrun] at hkeep
      cases batch with
      | nil => cases hmem
      | cons first batch =>
        have hok : controller.policy.hashes first.promptTokenIds = true := by
          by_contra hfalse
          exact hhead ⟨first, rfl, Bool.eq_false_iff.mpr hfalse⟩
        have hrouted := hfirst first rfl hok
        have hsame := (hkeep.2 (Option.some_ne_none raised)).routes
        rw [show after.routes = controller.routes from hsame] at hrouted
        exact hfresh first.requestId List.mem_cons_self hrouted
  | add request =>
    have hhashes : controller.policy.hashes request.promptTokenIds = true := by
      by_contra hfalse
      exact hhead ⟨request, rfl, Bool.eq_false_iff.mpr hfalse⟩
    have hempty : request.requestId = "" := by
      by_contra hne
      refine hall fun other hmem => ?_
      rw [List.mem_singleton.mp hmem]
      exact ⟨hne, hhashes⟩
    obtain ⟨replica, after, hroute, hroutes, hclass, haccount⟩ := route_unnamed hhashes hrobin
    rw [send_add_eq request haccepts, hroute] at hkeep
    simp only [deliver] at hkeep
    obtain ⟨hroutes', hpolicy⟩ := deliver_books after
      (after.replicaMessages replica (.add request)) none
    refine not_accounted_unnamed ?_ ?_ ?_ hkeep.1
    · exact (congrArg LoadPolicy.isRoundRobin hpolicy).trans (hclass.roundRobin.trans hrobin)
    · refine hroutes' ▸ ?_
      rw [hroutes, Finmap.mem_insert]
      exact .inl hempty.symm
    · have hbefore := hunnamed.resolve_right (hempty ▸ hfresh _ (List.mem_singleton_self _))
      exact (congrArg (fun policy : LoadPolicy => policy.ledger.accountOf "") hpolicy).trans
        (haccount.trans hbefore)
  | abort requestId => exact hall fun request hmem => (by cases hmem)
  | utility callId method => exact hall fun request hmem => (by cases hmem)
  | wake => exact hall fun request hmem => (by cases hmem)
  | shutdown => exact hall fun request hmem => (by cases hmem)
  | other typeName => exact hall fun request hmem => (by cases hmem)

omit [BlockDigest] in
theorem receive_accounted (h : controller.Accounted) (event : ReplicaEvent) :
    (controller.receive event).Accounted := by
  cases event with
  | failed globalRank message => exact h
  | events outputs =>
    have hfold : (controller.receive (.events outputs)) =
        ((outputs.filter fun output => output.finished || output.failed).map
          RequestOutput.requestId).foldl release controller := by
      rw [List.foldl_map]; rfl
    rw [hfold]
    exact (releaseAll_accounted _ h).1
  | ready => exact h
  | dead detail =>
    simp only [receive]
    split <;> exact h

/-! ### Runs -/

/-- What the owner of a controller does with it. -/
inductive Op
  | send (command : Command) (fault : Fault)
  | receive (event : ReplicaEvent)
  | close

/-- One call, whether it raised or not. -/
def Step (controller : DataParallelController) (op : Op) (controller' : DataParallelController) :
    Prop :=
  controller' = match op with
    | .send command fault => (controller.send command fault).2
    | .receive event => controller.receive event
    | .close => { controller with closed := true }

/-- The submissions among the calls are routable. -/
def StepRoutable (controller : DataParallelController) : Op → Prop
  | .send command _ => controller.Routable command
  | .receive _ | .close => True

/-- Run lemma. -/
theorem run_accounted {loadBalancer : String} {dpSize : Nat} {enableDpAttention : Bool}
    {ops : List Op} (hcreate : create loadBalancer dpSize enableDpAttention = .ok controller)
    (hrun : Run (Guarded Step StepRoutable) controller ops controller') : controller'.Accounted := by
  refine hrun.invariant (fun s op t hs hstep => ?_) ?_
  · obtain ⟨hstep, hroutable⟩ := hstep
    cases op with
    | send command fault => exact hstep ▸ (send_keeps hs hroutable fault).1
    | receive event => exact hstep ▸ receive_accounted hs event
    | close => exact hstep ▸ hs
  · simp only [create, bind_eq_ok] at hcreate
    obtain ⟨policy, hpolicy, hcreate⟩ := hcreate
    cases hcreate
    have hempty : policy.ledger = .empty := by
      unfold LoadPolicy.create at hpolicy
      simp only at hpolicy
      split at hpolicy
      · cases hpolicy
      · split at hpolicy <;> cases hpolicy
        rfl
    refine fun _ => ⟨hempty ▸ Ledger.balanced_empty, fun id => ?_⟩
    show (∅ : Finmap fun _ : RequestId => Nat).lookup id = policy.ledger.accountOf id
    rw [hempty, Finmap.lookup_empty]
    rfl

/-- **Routing accounts.** After every run of routable submissions a charging policy holds
exactly the routed requests, each on its replica, and its loads add up; and the next command
keeps that, and moves nothing if it raises, exactly if it is routable. -/
theorem run_books {loadBalancer : String} {dpSize : Nat} {enableDpAttention : Bool}
    {ops : List Op} (hcreate : create loadBalancer dpSize enableDpAttention = .ok controller)
    (hrun : Run (Guarded Step StepRoutable) controller ops controller') :
    (controller'.policy.isRoundRobin = false → controller'.policy.ledger.Balanced ∧
        ∀ id, controller'.routes.lookup id = controller'.policy.ledger.accountOf id) ∧
      ∀ command, (∀ fault, controller'.Keeps (controller'.send command fault)) ↔
        controller'.Routable command := by
  have hok := run_accounted hcreate hrun
  exact ⟨hok, fun command => ⟨routable_of_keeps hok, fun hroutable => send_keeps hok hroutable⟩⟩

/-- A batch whose second prompt holds a negative token id. -/
def halfBatch : Command :=
  .addBatch [⟨"a", [1, 2, 3]⟩, ⟨"b", [1, 2, 3, 4, 5, 6, 7, 8, 9, 10, 11, 12, 13, 14, 15, -1]⟩]

omit [BlockDigest] in
/-- The batch raises, and its first request stays routed and charged. -/
theorem half_batch_leaks : ∃ controller, create "cache_aware" 2 false = .ok controller ∧
    (@send pairingDigest controller halfBatch none).1 = some packError ∧
    controller.routes.lookup "a" = none ∧
    (@send pairingDigest controller halfBatch none).2.routes.lookup "a" = some 0 ∧
    (@send pairingDigest controller halfBatch none).2.policy.ledger.load 0 = 3 ∧
    ¬ controller.Keeps (@send pairingDigest controller halfBatch none) := by
  let _ : BlockDigest := pairingDigest
  refine ⟨_, rfl, by decide +kernel, by decide +kernel, by decide +kernel, by decide +kernel,
    fun hkeeps => ?_⟩
  have hsame := (hkeeps.2 (by decide +kernel)).routes
  have hlookup := congrArg (fun routes : Finmap fun _ : RequestId => Nat => routes.lookup "a") hsame
  revert hlookup
  decide +kernel

omit [BlockDigest] in
/-- A request that is routed and finishes. -/
theorem run_books_small : ∃ controller controller' ops,
    create "total_tokens" 2 false = .ok controller ∧
    Run (Guarded (@Step pairingDigest) StepRoutable) controller ops controller' ∧
    (controller'.policy.isRoundRobin = false → controller'.policy.ledger.Balanced ∧
        ∀ id, controller'.routes.lookup id = controller'.policy.ledger.accountOf id) ∧
      ∀ command, (∀ fault, controller'.Keeps (@send pairingDigest controller' command fault)) ↔
        controller'.Routable command := by
  let _ : BlockDigest := pairingDigest
  let first : Op := .send (.add ⟨"a", [1, 2, 3]⟩) none
  let last : Op := .receive (.events [⟨"a", true, false⟩])
  obtain ⟨controller, hcreate⟩ : ∃ controller, create "total_tokens" 2 false = .ok controller :=
    ⟨_, rfl⟩
  have hrun : Run (Guarded Step StepRoutable) controller ([] ++ [first] ++ [last]) _ :=
    .snoc (.snoc .nil ⟨rfl, fun _ _ => .inl fun request hmem => ?_⟩) ⟨rfl, trivial⟩
  · exact ⟨controller, _, _, hcreate, hrun, run_books hcreate hrun⟩
  · cases hcreate
    rw [List.mem_singleton.mp hmem]
    exact ⟨by decide, by decide⟩

end DataParallelController

end

end RapidLlm
