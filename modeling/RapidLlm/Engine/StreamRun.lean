import RapidLlm.Engine.StreamIsolation

/-!
# RapidLlm.Engine.StreamRun

**Whose an output is.** `Owned` says how the traces of a submission, its stream, its route and its
client belong together. Every action keeps it, if no client takes an id before it is quiet
(`owned_step`), and so the logs of a run are straight (`run_isolated`). Without that a late abort
cancels the route of the next submission, and a late output goes to the stream of the next
(`reuse_mixes_streams`).
-/

namespace RapidLlm

namespace StreamWorld

variable {world world' : StreamWorld} {engine engine' : AsyncLLMEngine} {requestId x : RequestId}
  {k ref : StreamRef}

/-- What every action keeps. -/
structure Owned (world : StreamWorld) : Prop where
  table : world.engine.tracker.WellFormed
  fresh : ∀ ref, world.engine.tracker.nextRef ≤ ref → world.engine.consumers ref = {}
  outbox : ∀ r, world.engine.backend.queue r = []
  hands : ∀ outputs, world.engine.receiverPc = .deliver outputs → outputs = world.hand.map Prod.fst
  /-- A client that has not left has its stream in the table. -/
  present : world.engine.state = .running → ∀ ref < world.engine.tracker.nextRef,
    (world.engine.consumers ref).left = false →
      ((world.engine.tracker.objects ref).requestId, ref) ∈ world.engine.tracker.streams
  closing : world.engine.shutdownPc ≠ .notCalled → world.engine.state ≠ .running
  /-- What is left of a submission belongs to the stream under its id. -/
  traced : ∀ x k, world.Trace x k → ∀ ref, (x, ref) ∈ world.engine.tracker.streams → k = ref
  /-- And to the owner of the route under its id. -/
  routed : ∀ x k, world.Trace x k → world.engine.backend.Routed x → world.owner x = k
  claims : world.engine.state = .running → ∀ ref other, Claims world.engine ref →
    Claims world.engine other → (world.engine.tracker.objects ref).requestId =
      (world.engine.tracker.objects other).requestId → ref = other
  /-- A client that may send an abort owns the route that the abort would close. -/
  aborts : world.engine.state = .running → ∀ ref, Claims world.engine ref →
    (world.engine.consumers ref).submitted = true →
    world.engine.backend.Routed (world.engine.tracker.objects ref).requestId →
      world.owner (world.engine.tracker.objects ref).requestId = ref
  isolated : world.Isolated

theorem owned_create {backend : Backend} (hqueue : ∀ r, backend.queue r = []) :
    Owned { engine := .create backend } := by
  have hnone : ∀ x k, ¬ Trace { engine := .create backend } x k := by
    rintro x k (⟨replica, command, hmem, _⟩ | ⟨replica, request, hmem, _⟩ | ⟨outputs, hmem, _⟩ |
      ⟨output, hmem, _⟩) <;> exact absurd hmem List.not_mem_nil
  have hclaims : ∀ ref, ¬ Claims (.create backend) ref := fun ref h => Nat.not_lt_zero ref h.1
  exact {
    table := RequestTracker.wellFormed_empty
    fresh := fun _ _ => rfl
    outbox := hqueue
    hands := fun _ => ReceiverPc.noConfusion
    present := fun _ ref hlt => absurd hlt (Nat.not_lt_zero ref)
    closing := fun h => absurd rfl h
    traced := fun x k h => absurd h (hnone x k)
    routed := fun x k h => absurd h (hnone x k)
    claims := fun _ ref _ h => absurd h (hclaims ref)
    aborts := fun _ ref h => absurd h (hclaims ref)
    isolated := ⟨fun _ h => absurd h List.not_mem_nil, fun _ h => absurd h List.not_mem_nil⟩ }

/-! ### Frame -/

theorem Narrows.claims (h : Narrows engine engine') (hclaims : Claims engine' ref) :
    Claims engine ref := by
  obtain ⟨hlt, hrest⟩ := hclaims
  refine ⟨h.nextRef ▸ hlt, hrest.imp (h.left ref) fun ⟨hsubmitted, hended, hfinished⟩ => ?_⟩
  exact ⟨h.submitted ref ▸ hsubmitted, h.ended ref hended, h.finished ref hfinished⟩

/-- Once everything put has gone out. -/
theorem Calm.emptied (h : Calm engine engine') :
    Calm engine { engine' with backend := engine'.backend.emptied } :=
  { h with
    routed := fun x hrouted => h.routed x (Backend.emptied_routed.mp hrouted)
    queue := fun _ r command hmem => by
      change command ∈ engine'.backend.emptied.queue r at hmem
      rw [Backend.emptied_queue] at hmem
      exact absurd hmem List.not_mem_nil }

/-- An action that narrows the engine, and leaves no new trace. -/
theorem Owned.frame (h : world.Owned) (hnarrows : Narrows world.engine world'.engine)
    (howner : world'.owner = world.owner) (houtbox : ∀ r, world'.engine.backend.queue r = [])
    (hhands : ∀ outputs, world'.engine.receiverPc = .deliver outputs →
      outputs = world'.hand.map Prod.fst)
    (htrace : ∀ x k, world'.Trace x k → world.Trace x k) (hisolated : world'.Isolated) :
    world'.Owned where
  table := hnarrows.table h.table
  fresh := fun ref hle => hnarrows.fresh h.fresh ref (hnarrows.nextRef ▸ hle)
  outbox := houtbox
  hands := hhands
  present := fun hrunning ref hlt hleft => by
    rw [hnarrows.ids]
    exact hnarrows.kept h.table hrunning _
      (h.present (hnarrows.running hrunning) ref (hnarrows.nextRef ▸ hlt) (hnarrows.left ref hleft))
      hleft
  closing := hnarrows.closing h.closing
  traced := fun x k ht ref hmem => h.traced x k (htrace x k ht) ref (hnarrows.streams hmem)
  routed := fun x k ht hrouted => by
    rw [howner]
    exact h.routed x k (htrace x k ht) (hnarrows.routed x hrouted)
  claims := fun hrunning ref other href hother hid =>
    h.claims (hnarrows.running hrunning) ref other (hnarrows.claims href) (hnarrows.claims hother)
      (by rw [← hnarrows.ids, ← hnarrows.ids, hid])
  aborts := fun hrunning ref href hsubmitted hrouted => by
    rw [howner, hnarrows.ids]
    rw [hnarrows.ids] at hrouted
    exact h.aborts (hnarrows.running hrunning) ref (hnarrows.claims href)
      (hnarrows.submitted ref ▸ hsubmitted) (hnarrows.routed _ hrouted)
  isolated := hisolated

/-- What goes out without requests leaves no trace. -/
theorem trace_flush (world : StreamWorld) (sender : StreamRef)
    (hnone : ∀ r, ∀ command ∈ world.engine.backend.queue r,
      DataParallelController.requestsOf command = [])
    (h : (flush world sender).Trace x k) : world.Trace x k := by
  rcases h with ⟨replica, command, hmem, hid⟩ | hrest
  · rcases List.mem_append.mp hmem with hold | hnew
    · exact .inl ⟨replica, command, hold, hid⟩
    · obtain ⟨sent, hsent, heq⟩ := List.mem_map.mp hnew
      obtain ⟨rfl, _⟩ := Prod.mk.inj heq
      obtain ⟨request, hrequest, _⟩ := hid
      rw [hnone replica sent hsent] at hrequest
      exact absurd hrequest List.not_mem_nil
  · exact .inr hrest

/-- A calm section. -/
theorem Owned.calm (h : world.Owned) (hcalm : Calm world.engine engine') (sender : StreamRef) :
    (flush { world with engine := engine' } sender).Owned := by
  refine h.frame hcalm.emptied.toNarrows rfl (fun r => Backend.emptied_queue r)
    (fun outputs hpc => h.hands outputs (hcalm.hand outputs hpc)) (fun x k ht => ?_) h.isolated
  exact trace_flush { world with engine := engine' } sender (hcalm.queue h.outbox) ht

/-! ### The engine -/

/-- Starting the receiver and naming the request, as `generate` does. -/
theorem named_cases (engine : AsyncLLMEngine) (requestId : RequestId) :
    ∃ requestIds receiver receiverPc, engine.startReceiver.nameRequest requestId =
        ((engine.nameRequest requestId).1, { engine with
          requestIds
          receiver
          receiverPc }) ∧
      ∀ outputs, receiverPc = .deliver outputs → engine.receiverPc = .deliver outputs := by
  unfold AsyncLLMEngine.startReceiver AsyncLLMEngine.nameRequest
  split
  · split
    · exact ⟨_, _, _, rfl, fun _ => id⟩
    · exact ⟨_, _, _, rfl, fun _ => ReceiverPc.noConfusion⟩
  · split
    · exact ⟨_, _, _, rfl, fun _ => id⟩
    · exact ⟨_, _, _, rfl, fun _ => ReceiverPc.noConfusion⟩

/-- `generate` registers a stream, or does nothing that matters here. -/
theorem generate_cases (engine : AsyncLLMEngine) (requestId : RequestId) :
    Calm engine (engine.generate requestId).2 ∨
      (engine.state = .running ∧ ∃ ref tracker requestIds receiver receiverPc,
        engine.tracker.register (engine.nameRequest requestId).1 = (.ok ref, tracker) ∧
        engine.generate requestId = (.ok ref, { engine with
          tracker
          requestIds
          receiver
          receiverPc }) ∧
        ∀ outputs, receiverPc = .deliver outputs → engine.receiverPc = .deliver outputs) := by
  unfold AsyncLLMEngine.generate
  split
  · rename_i hrunning
    obtain ⟨requestIds, receiver, receiverPc, hnamed, hpc⟩ := named_cases engine requestId
    rw [hnamed]
    cases hregister : engine.tracker.register (engine.nameRequest requestId).1 with
    | mk result tracker =>
      cases result with
      | error raised =>
        refine .inl ?_
        dsimp only
        rw [hregister, RequestTracker.register_error hregister]
        exact { Calm.refl engine with hand := hpc }
      | ok ref =>
        refine .inr ⟨hrunning, ref, tracker, requestIds, receiver, receiverPc, rfl, ?_, hpc⟩
        dsimp only
        rw [hregister]
  · exact .inl (.refl engine)

/-- A stream that is registered is new, and nothing of an earlier submission claims its id. -/
theorem Owned.generate (h : world.Owned) {sender : StreamRef}
    (hquiet : ∀ ref, (world.engine.generate requestId).1 = .ok ref →
      world.Quiet (world.engine.nameRequest requestId).1) :
    (flush { world with engine := (world.engine.generate requestId).2 } sender).Owned := by
  rcases generate_cases world.engine requestId with hcalm | ⟨hrunning, ref, tracker, requestIds,
    receiver, receiverPc, hregister, hgenerate, hpc⟩
  · exact h.calm hcalm sender
  rw [hgenerate] at hquiet ⊢
  obtain ⟨hnotrace, hleft⟩ := hquiet ref rfl
  have htable := h.table.register hregister
  obtain ⟨rfl, hfresh, rfl⟩ := RequestTracker.register_ok hregister
  generalize (world.engine.nameRequest requestId).1 = named at *
  have htrace : ∀ x k, Trace (flush world sender) x k → world.Trace x k :=
    fun x k ht => trace_flush world sender (fun r command hmem => by
      rw [h.outbox r] at hmem
      exact absurd hmem List.not_mem_nil) ht
  -- the new stream is known, and the old ones are as they were
  have hself : Function.update world.engine.tracker.objects world.engine.tracker.nextRef
      { requestId := named } world.engine.tracker.nextRef = { requestId := named } :=
    Function.update_self _ _ _
  have hold : ∀ other, other < world.engine.tracker.nextRef →
      Function.update world.engine.tracker.objects world.engine.tracker.nextRef
        { requestId := named } other = world.engine.tracker.objects other :=
    fun other hlt => Function.update_of_ne hlt.ne _ _
  have hnew : ∀ other, Claims world.engine other →
      (world.engine.tracker.objects other).requestId ≠ named := by
    intro other hother hid
    have hmem := h.present hrunning other hother.1 (hleft other hother hid)
    rw [hid] at hmem
    exact hfresh (List.mem_map_of_mem hmem)
  have hwas : ∀ {other}, other < world.engine.tracker.nextRef + 1 →
      (world.engine.consumers other).left = false ∨
        ((world.engine.consumers other).submitted = true ∧
          (world.engine.consumers other).ended = false ∧
          (Function.update world.engine.tracker.objects world.engine.tracker.nextRef
            { requestId := named } other).finished = false) →
      other = world.engine.tracker.nextRef ∨ Claims world.engine other := by
    intro other hlt hclaims
    rcases Nat.lt_succ_iff_lt_or_eq.mp hlt with hlt | heq
    · rw [hold other hlt] at hclaims
      exact .inr ⟨hlt, hclaims⟩
    · exact .inl heq
  exact {
    table := htable
    fresh := fun other hle => h.fresh other (Nat.le_of_succ_le hle)
    outbox := fun r => Backend.emptied_queue r
    hands := fun outputs hdeliver => h.hands outputs (hpc outputs hdeliver)
    present := fun _ other hlt hother => by
      dsimp only [flush]
      rcases Nat.lt_succ_iff_lt_or_eq.mp hlt with hlt | rfl
      · rw [hold other hlt]
        exact List.mem_append_left _ (h.present hrunning other hlt hother)
      · rw [hself]
        exact List.mem_append_right _ (List.mem_singleton_self _)
    closing := h.closing
    traced := fun x k ht other hmem => by
      rcases List.mem_append.mp hmem with hmem | hmem
      · exact h.traced x k (htrace x k ht) other hmem
      · obtain ⟨rfl, _⟩ := Prod.mk.inj (List.mem_singleton.mp hmem)
        exact absurd (htrace _ k ht) (hnotrace k)
    routed := fun x k ht hrouted => h.routed x k (htrace x k ht) (Backend.emptied_routed.mp hrouted)
    claims := fun _ one other hone hother hid => by
      dsimp only [flush] at hid
      rcases hwas hone.1 hone.2 with rfl | hone <;> rcases hwas hother.1 hother.2 with rfl | hother
      · rfl
      · rw [hself, hold other hother.1] at hid
        exact absurd hid.symm (hnew other hother)
      · rw [hself, hold one hone.1] at hid
        exact absurd hid (hnew one hone)
      · rw [hold one hone.1, hold other hother.1] at hid
        exact h.claims hrunning one other hone hother hid
    aborts := fun _ other hother hsubmitted hrouted => by
      dsimp only [flush] at hrouted ⊢
      rcases hwas hother.1 hother.2 with rfl | hother
      · change (world.engine.consumers world.engine.tracker.nextRef).submitted = true at hsubmitted
        rw [h.fresh _ le_rfl] at hsubmitted
        cases hsubmitted
      · rw [hold other hother.1] at hrouted ⊢
        exact h.aborts hrunning other hother hsubmitted (Backend.emptied_routed.mp hrouted)
    isolated := h.isolated }

/-- `submit` puts nothing, or opens the route under an id that has none. -/
theorem submit_cases [BlockDigest] (hqueue : ∀ r, engine.backend.queue r = [])
    (promptTokenIds : List Int) (fault : DataParallelController.Fault) :
    engine.submit ref promptTokenIds fault = engine ∨
      (engine.state = .running ∧ ¬ engine.backend.Routed (engine.tracker.objects ref).requestId ∧
        ∃ backend consumer, engine.submit ref promptTokenIds fault = { engine with
            backend
            consumers := Function.update engine.consumers ref consumer } ∧
          consumer.left = (engine.consumers ref).left ∧
          (∀ x, backend.Routed x → x = (engine.tracker.objects ref).requestId ∨
            engine.backend.Routed x) ∧
          ∀ r, ∀ command ∈ backend.queue r,
            command = .add ⟨(engine.tracker.objects ref).requestId, promptTokenIds⟩ ∨
              command = .wake) := by
  unfold AsyncLLMEngine.submit
  split
  · exact .inl rfl
  rename_i hgo
  have hrunning : engine.state = .running := by
    by_contra hne
    exact hgo (.inr hne)
  by_cases hrouted : engine.backend.Routed (engine.tracker.objects ref).requestId
  · obtain ⟨raised, hput⟩ : ∃ raised, engine.backend.put
        (.add ⟨(engine.tracker.objects ref).requestId, promptTokenIds⟩) fault =
          (some raised, engine.backend) := Backend.put_add_routed hrouted
    refine .inl ?_
    dsimp only
    rw [hput]
    rfl
  · refine .inr ⟨hrunning, hrouted, ?_⟩
    have hqueue' : ∀ r, ∀ command ∈ (engine.backend.put
        (.add ⟨(engine.tracker.objects ref).requestId, promptTokenIds⟩) fault).2.queue r,
        command = .add ⟨(engine.tracker.objects ref).requestId, promptTokenIds⟩ ∨
          command = .wake :=
      fun r command hmem => Backend.put_mem hqueue (fun _ heq => by cases heq) hmem
    have hrouted' : ∀ x, (engine.backend.put
        (.add ⟨(engine.tracker.objects ref).requestId, promptTokenIds⟩) fault).2.Routed x →
        x = (engine.tracker.objects ref).requestId ∨ engine.backend.Routed x := by
      intro x hx
      refine or_iff_not_imp_left.mpr fun hne => Backend.put_routed (fun _ heq => by cases heq) hx ?_
      intro request heq
      cases heq
      exact hne
    dsimp only
    split
    · refine ⟨_, engine.consumers ref, ?_, rfl, hrouted', hqueue'⟩
      rw [Function.update_eq_self]
    · exact ⟨_, _, rfl, rfl, hrouted', hqueue'⟩

/-- A request goes out under an id that has no route. The only trace under its id is its own, and so
is the route that it opens. -/
theorem Owned.opened (h : world.Owned) (hrunning : world.engine.state = .running)
    (hlt : ref < world.engine.tracker.nextRef) (hconsumer : world.engine.consumers ref = {})
    {backend : Backend} {consumer : Consumer} {owner : RequestId → StreamRef}
    (hleft : consumer.left = (world.engine.consumers ref).left)
    (hroutes : ∀ x, backend.Routed x → x = (world.engine.tracker.objects ref).requestId ∨
      world.engine.backend.Routed x)
    (hcommands : ∀ r, ∀ command ∈ backend.queue r, ∀ request ∈
      DataParallelController.requestsOf command,
        request.requestId = (world.engine.tracker.objects ref).requestId)
    (howner : backend.Routed (world.engine.tracker.objects ref).requestId →
      owner (world.engine.tracker.objects ref).requestId = ref)
    (hothers : ∀ x, x ≠ (world.engine.tracker.objects ref).requestId → owner x = world.owner x) :
    (flush { world with
      engine := { world.engine with
        backend
        consumers := Function.update world.engine.consumers ref consumer }
      owner } ref).Owned := by
  have hstays : (world.engine.consumers ref).left = false := by rw [hconsumer]
  have hpresent := h.present hrunning ref hlt hstays
  have hme : Claims world.engine ref := ⟨hlt, .inl hstays⟩
  have hmine : ∀ {other}, (world.engine.tracker.objects ref).requestId =
      (world.engine.tracker.objects other).requestId → Claims world.engine other → other = ref :=
    fun hid hother => h.claims hrunning _ _ hother hme hid.symm
  generalize hnamed : (world.engine.tracker.objects ref).requestId = named at *
  -- traces under the id are its own, and the others are old
  have htrace : ∀ x k, (flush { world with
      engine := { world.engine with
        backend
        consumers := Function.update world.engine.consumers ref consumer }
      owner } ref).Trace x k → (x = named ∧ k = ref) ∨ (x ≠ named ∧ world.Trace x k) := by
    intro x k ht
    have hown : world.Trace x k → (x = named ∧ k = ref) ∨ (x ≠ named ∧ world.Trace x k) := by
      intro hold
      by_cases hid : x = named
      · exact .inl ⟨hid, h.traced x k hold ref (hid ▸ hpresent)⟩
      · exact .inr ⟨hid, hold⟩
    rcases ht with ⟨replica, command, hmem, hid⟩ | hrest
    · rcases List.mem_append.mp hmem with hold | hnew
      · exact hown (.inl ⟨replica, command, hold, hid⟩)
      · obtain ⟨sent, hsent, heq⟩ := List.mem_map.mp hnew
        obtain ⟨rfl, rfl⟩ := Prod.mk.inj heq
        obtain ⟨request, hrequest, rfl⟩ := hid
        exact .inl ⟨hcommands replica sent hsent request hrequest, rfl⟩
    · exact hown (.inr hrest)
  have hconsumers : ∀ other, other ≠ ref → Function.update world.engine.consumers ref consumer other =
      world.engine.consumers other := fun other hne => Function.update_of_ne hne _ _
  have hleaves : ∀ other, (Function.update world.engine.consumers ref consumer other).left =
      (world.engine.consumers other).left := by
    intro other
    by_cases heq : other = ref
    · rw [heq, Function.update_self, hleft]
    · rw [hconsumers other heq]
  have hclaims : ∀ {other}, Claims (flush { world with
      engine := { world.engine with
        backend
        consumers := Function.update world.engine.consumers ref consumer }
      owner } ref).engine other → Claims world.engine other := by
    intro other hother
    by_cases heq : other = ref
    · exact heq ▸ hme
    · refine ⟨hother.1, hother.2.imp (fun hl => hleaves other ▸ hl) fun hr => ?_⟩
      exact hconsumers other heq ▸ hr
  exact {
    table := h.table
    fresh := fun other hle => by
      dsimp only [flush]
      rw [hconsumers other (hlt.trans_le hle).ne']
      exact h.fresh other hle
    outbox := fun r => Backend.emptied_queue r
    hands := h.hands
    present := fun _ other hother hl => h.present hrunning other hother (hleaves other ▸ hl)
    closing := h.closing
    traced := fun x k ht other hmem => by
      rcases htrace x k ht with ⟨rfl, rfl⟩ | ⟨_, hold⟩
      · have hone := (RequestTracker.lookup_eq_some_iff h.table.keys).mpr hpresent
        rw [(RequestTracker.lookup_eq_some_iff h.table.keys).mpr hmem] at hone
        exact (Option.some.inj hone).symm
      · exact h.traced x k hold other hmem
    routed := fun x k ht hrouted => by
      have hrouted := Backend.emptied_routed.mp hrouted
      rcases htrace x k ht with ⟨rfl, rfl⟩ | ⟨hne, hold⟩
      · exact howner hrouted
      · exact (hothers x hne).trans
          (h.routed x k hold ((hroutes x hrouted).resolve_left hne))
    claims := fun _ one other hone hother hid => h.claims hrunning one other (hclaims hone)
      (hclaims hother) hid
    aborts := fun _ other hother hsubmitted hrouted => by
      have hrouted := Backend.emptied_routed.mp hrouted
      by_cases hid : named = (world.engine.tracker.objects other).requestId
      · obtain rfl := hmine hid (hclaims hother)
        show owner (world.engine.tracker.objects other).requestId = other
        rw [← hid]
        exact howner (hid ▸ hrouted)
      · have hne : other ≠ ref := fun heq => hid (heq ▸ hnamed.symm)
        show owner (world.engine.tracker.objects other).requestId = other
        rw [hothers _ (Ne.symm hid)]
        exact h.aborts hrunning other (hclaims hother) (hconsumers other hne ▸ hsubmitted)
          ((hroutes _ hrouted).resolve_left (Ne.symm hid))
    isolated := h.isolated }

/-- `submit` keeps it. -/
theorem Owned.submit [BlockDigest] (h : world.Owned) (hlt : ref < world.engine.tracker.nextRef)
    (hconsumer : world.engine.consumers ref = {}) (promptTokenIds : List Int)
    (fault : DataParallelController.Fault) : (world.submit ref promptTokenIds fault).Owned := by
  unfold StreamWorld.submit
  dsimp only
  rcases submit_cases h.outbox promptTokenIds fault with hsame | ⟨hrunning, hclosed, backend,
    consumer, hsubmit, hleft, hroutes, hcommands⟩
  · rw [hsame, if_neg fun hopened => hopened.2 hopened.1]
    exact h.calm (.refl _) ref
  rw [hsubmit]
  refine h.opened hrunning hlt hconsumer hleft hroutes (fun r command hmem request hrequest => ?_)
    (fun hrouted => ?_) fun x hne => ?_
  · rcases hcommands r command hmem with rfl | rfl
    · rw [List.mem_singleton.mp hrequest]
    · exact absurd hrequest List.not_mem_nil
  · rw [if_pos ⟨hrouted, hclosed⟩, Function.update_self]
  · split
    · exact Function.update_of_ne hne _ _
    · rfl

/-- The abort of a client that has left closes no route but its own. -/
theorem Owned.endLeave [BlockDigest] (h : world.Owned)
    (hleft : (world.engine.consumers ref).left = true)
    (hended : (world.engine.consumers ref).ended = false) (fault : DataParallelController.Fault) :
    (world.endLeave ref fault).Owned := by
  have hlt : ref < world.engine.tracker.nextRef := by
    by_contra hge
    rw [h.fresh ref (Nat.le_of_not_lt hge)] at hleft
    cases hleft
  have hcalm := calm_endLeave hlt fault
  unfold StreamWorld.endLeave
  dsimp only
  split
  · rename_i hclosed
    have hstay := h.calm hcalm ref
    refine { hstay with isolated := ⟨h.isolated.1, fun entry hentry => ?_⟩ }
    rcases List.mem_append.mp hentry with hold | hnew
    · exact h.isolated.2 entry hold
    · rw [List.mem_singleton.mp hnew]
      -- the route is closed, so the abort was put
      have hput : world.engine.state = .running ∧ (world.engine.consumers ref).submitted = true ∧
          (world.engine.tracker.objects ref).finished = false := by
        by_contra hnot
        refine hclosed.2 ?_
        unfold AsyncLLMEngine.endLeave AsyncLLMEngine.abort
        dsimp only
        split
        · rename_i hboth
          rw [if_neg fun hrunning => hnot ⟨hrunning, hboth⟩]
          exact hclosed.1
        · exact hclosed.1
      exact h.aborts hput.1 ref ⟨hlt, .inr ⟨hput.2.1, hended, hput.2.2⟩⟩ hput.2.1 hclosed.1
  · exact h.calm hcalm ref

/-! ### The receiver -/

theorem pushEvent_finished [Tokenizer] {stream : RequestStream} {event : RequestEvent}
    (h : (stream.pushEvent event).finished = false) : stream.finished = false := by
  unfold RequestStream.pushEvent at h
  split at h
  · cases h
  · dsimp only at h
    split at h
    · exact (Bool.or_eq_false_iff.mp h).1
    · exact (Bool.or_eq_false_iff.mp h).1

theorem narrows_deliver [Tokenizer] (engine : AsyncLLMEngine) (output : RequestEvent)
    (receiverPc : ReceiverPc) : Narrows engine { engine with
      tracker := engine.tracker.deliver output
      receiverPc } := by
  unfold RequestTracker.deliver
  split
  · exact { (Calm.refl engine).toNarrows with }
  · rename_i ref _
    have hpush : Calm engine { engine with
        tracker := engine.tracker.modify ref fun stream => stream.pushEvent output } :=
      .modify ref (fun stream => stream.pushEvent_requestId output) fun _ => pushEvent_finished
    exact { hpush.toNarrows with }

/-- An output in hand is pushed to the stream of its own submission. -/
theorem Owned.push [BlockDigest] [Tokenizer] (h : world.Owned) {output : RequestEvent}
    {outputs : List RequestEvent} (hpc : world.engine.receiverPc = .deliver (output :: outputs))
    (hpush : world.push output = some world') : world'.Owned := by
  have hhands := h.hands _ hpc
  unfold StreamWorld.push AsyncLLMEngine.receiverOn at hpush
  rw [hpc] at hpush
  split at hpush
  · cases hpush
  · rename_i origin hand hhand
    cases hpush
    rw [hhand] at hhands
    obtain ⟨rfl, rfl⟩ := List.cons.inj hhands
    have hin : world.Trace output.requestId origin :=
      .inr (.inr (.inr ⟨output, hhand ▸ List.mem_cons_self, rfl⟩))
    refine h.frame (narrows_deliver _ _ _) rfl h.outbox (fun outputs hpc => ?_) ?_ ⟨?_, h.isolated.2⟩
    · exact (ReceiverPc.deliver.inj hpc).symm
    · rintro x k (hcommand | hlive | hcarries | ⟨other, hmem, hid⟩)
      · exact .inl hcommand
      · exact .inr (.inl hlive)
      · exact .inr (.inr (.inl hcarries))
      · exact .inr (.inr (.inr ⟨other, hhand ▸ List.mem_cons_of_mem _ hmem, hid⟩))
    · intro entry hentry
      rcases List.mem_append.mp hentry with hold | hnew
      · exact h.isolated.1 entry hold
      · obtain ⟨ref, hget, rfl⟩ := List.mem_map.mp hnew
        have hmem := (RequestTracker.get_eq_some_iff h.table).mp (Option.mem_toList.mp hget)
        exact (h.traced _ _ hin ref hmem).symm

/-- What `releasesOf` logs: an output of the event, and a route that was open. -/
theorem releasesOf_mem {owner : RequestId → StreamRef} {outputs : List (RequestEvent × StreamRef)}
    {entry : StreamRef × StreamRef} : ∀ {routed : RequestId → Bool},
    entry ∈ releasesOf owner routed outputs → ∃ output, (output, entry.2) ∈ outputs ∧
      routed output.requestId = true ∧ entry.1 = owner output.requestId := by
  induction outputs with
  | nil => exact fun h => absurd h List.not_mem_nil
  | cons first rest ih =>
    obtain ⟨output, origin⟩ := first
    intro routed h
    unfold releasesOf at h
    split at h
    · rename_i hends
      rcases List.mem_cons.mp h with rfl | hlater
      · exact ⟨output, List.mem_cons_self, (Bool.and_eq_true_iff.mp hends).2, rfl⟩
      · obtain ⟨other, hmem, hrouted, hentry⟩ := ih hlater
        refine ⟨other, List.mem_cons_of_mem _ hmem, ?_, hentry⟩
        by_cases heq : other.requestId = output.requestId
        · rw [heq, Function.update_self] at hrouted
          cases hrouted
        · rwa [Function.update_of_ne heq] at hrouted
    · obtain ⟨other, hmem, hrest⟩ := ih h
      exact ⟨other, List.mem_cons_of_mem _ hmem, hrest⟩

/-- The receiver has the outputs of the event that it got in hand. -/
theorem receive_hands {backend : Backend} {message : Message} {outputs : List RequestEvent}
    (h : (backend.receive message.event).1 = .events outputs) :
    outputs = message.tagged.map Prod.fst := by
  cases backend <;> cases message <;> cases h <;> rfl

/-- An event that is received closes no route but those of its own submissions. -/
theorem Owned.get [BlockDigest] [Tokenizer] (h : world.Owned) (hget : world.get = some world') :
    world'.Owned := by
  unfold StreamWorld.get at hget
  split at hget
  · cases hget
  rename_i message events hevents
  cases hget
  have hcarries : ∀ {output origin}, (output, origin) ∈ message.tagged →
      world.Trace output.requestId origin := by
    intro output origin hmem
    cases message with
    | outputs tagged =>
      exact .inr (.inr (.inl ⟨tagged, hevents ▸ List.mem_cons_self, output, hmem, rfl⟩))
    | failed message => exact absurd hmem List.not_mem_nil
    | replicaFailed globalRank message => exact absurd hmem List.not_mem_nil
    | other => exact absurd hmem List.not_mem_nil
  have hbackend : Calm world.engine { world.engine with
      backend := (world.engine.backend.receive message.event).2 } :=
    .backend_queue (fun _ => Backend.receive_routed) (Backend.receive_queue message.event)
  refine h.frame { hbackend.toNarrows with } rfl (fun r => ?_) (fun outputs hpc => ?_) ?_
    ⟨h.isolated.1, fun entry hentry => ?_⟩
  · exact (Backend.receive_queue message.event r).trans (h.outbox r)
  · dsimp only at hpc
    split at hpc
    · cases hpc
    · rename_i got heq
      obtain rfl := ReceiverPc.deliver.inj hpc
      exact receive_hands heq
    · cases hpc
  · rintro x k (hcommand | hlive | ⟨tagged, hmem, hout⟩ | ⟨output, hmem, rfl⟩)
    · exact .inl hcommand
    · exact .inr (.inl hlive)
    · exact .inr (.inr (.inl ⟨tagged, hevents ▸ List.mem_cons_of_mem _ hmem, hout⟩))
    · exact hcarries hmem
  · rcases List.mem_append.mp hentry with hold | hnew
    · exact h.isolated.2 entry hold
    · obtain ⟨output, hmem, hrouted, howner⟩ := releasesOf_mem hnew
      exact howner.trans (h.routed _ _ (hcarries hmem) (of_decide_eq_true hrouted))

/-! ### The schedulers -/

/-- A command that is applied turns from a trace into what the loop has or answers. -/
theorem Owned.apply (h : world.Owned) {replica : Nat} {refusal : Option String} {command : Command}
    {origin : StreamRef} {commands : List (Command × StreamRef)} {loop : SchedulerLoop}
    {messages : List Message} (hcommands : world.commands replica = (command, origin) :: commands)
    (happly : (world.schedulers replica).apply command origin refusal = some (loop, messages)) :
    Owned { world with
      commands := Function.update world.commands replica commands
      schedulers := Function.update world.schedulers replica loop
      events := world.events ++ messages } := by
  have hspec : ∀ {x k}, loop.Live x k ∨ SchedulerLoop.Carries messages x k → world.Trace x k := by
    intro x k hboth
    rcases SchedulerLoop.apply_spec happly hboth with hlive | ⟨hadds, rfl⟩
    · exact .inr (.inl ⟨replica, hlive⟩)
    · exact .inl ⟨replica, command, hcommands ▸ List.mem_cons_self, hadds⟩
  refine h.frame (Calm.refl _).toNarrows rfl h.outbox h.hands ?_ h.isolated
  rintro x k (⟨r, other, hmem, hid⟩ | ⟨r, hlive⟩ | hcarries | hhand)
  · dsimp only at hmem
    by_cases heq : r = replica
    · rw [heq, Function.update_self] at hmem
      exact .inl ⟨replica, other, hcommands ▸ List.mem_cons_of_mem _ hmem, hid⟩
    · rw [Function.update_of_ne heq] at hmem
      exact .inl ⟨r, other, hmem, hid⟩
  · dsimp only at hlive
    by_cases heq : r = replica
    · rw [heq, Function.update_self] at hlive
      exact hspec (.inl hlive)
    · rw [Function.update_of_ne heq] at hlive
      exact .inr (.inl ⟨r, hlive⟩)
  · rcases hcarries.append with hold | hnew
    · exact .inr (.inr (.inl hold))
    · exact hspec (.inr hnew)
  · exact .inr (.inr (.inr hhand))

/-- So does a step of a scheduler with what it publishes. -/
theorem Owned.work (h : world.Owned) (replica : Nat) (advanced : List Advanced) :
    Owned { world with
      schedulers := Function.update world.schedulers replica
        ((world.schedulers replica).work advanced).1
      events := world.events ++ ((world.schedulers replica).work advanced).2 } := by
  refine h.frame (Calm.refl _).toNarrows rfl h.outbox h.hands ?_ h.isolated
  rintro x k (hcommand | ⟨r, hlive⟩ | hcarries | hhand)
  · exact .inl hcommand
  · dsimp only at hlive
    by_cases heq : r = replica
    · rw [heq, Function.update_self] at hlive
      exact .inr (.inl ⟨replica, SchedulerLoop.work_spec (.inl hlive)⟩)
    · rw [Function.update_of_ne heq] at hlive
      exact .inr (.inl ⟨r, hlive⟩)
  · rcases hcarries.append with hold | hnew
    · exact .inr (.inr (.inl hold))
    · exact .inr (.inl ⟨replica, SchedulerLoop.work_spec (.inr hnew)⟩)
  · exact .inr (.inr (.inr hhand))

/-- A message without outputs is about nobody. -/
theorem Owned.report (h : world.Owned) {message : Message} (hnone : message.tagged = []) :
    Owned { world with events := world.events ++ [message] } := by
  refine h.frame (Calm.refl _).toNarrows rfl h.outbox h.hands ?_ h.isolated
  rintro x k (hcommand | hlive | hcarries | hhand)
  · exact .inl hcommand
  · exact .inr (.inl hlive)
  · rcases hcarries.append with hold | ⟨outputs, hmem, output, hout, _⟩
    · exact .inr (.inr (.inl hold))
    · rw [← List.mem_singleton.mp hmem] at hnone
      rw [show outputs = [] from hnone] at hout
      exact absurd hout List.not_mem_nil
  · exact .inr (.inr (.inr hhand))

/-! ### Runs -/

section

variable [BlockDigest] [Tokenizer]

/-- Step lemma. -/
theorem owned_step {action : StreamAction} (h : world.Owned) (hstep : Step world action world')
    (hcond : world.Unhurried action) : world'.Owned := by
  unfold Step act at hstep
  cases action with
  | apply replica refusal =>
    dsimp only at hstep
    split at hstep
    · cases hstep
    rename_i command origin commands hcommands
    split at hstep
    · cases hstep
    obtain ⟨⟨loop, messages⟩, happly, rfl⟩ := Option.map_eq_some_iff.mp hstep
    exact h.apply hcommands happly
  | work replica advanced =>
    dsimp only at hstep
    split at hstep
    · cases hstep
      exact h.work replica advanced
    · cases hstep
  | report message =>
    dsimp only at hstep
    split at hstep
    · cases hstep
      exact h.report ‹_›
    · cases hstep
  | engine action =>
    cases action with
    | arrive event => cases hstep
    | start =>
      cases hstep
      refine h.calm ?_ 0
      split
      · exact calm_startReceiver
      · exact .refl _
    | generate requestId =>
      cases hstep
      exact h.generate hcond
    | submit ref promptTokenIds fault =>
      dsimp only at hstep
      split at hstep
      · rename_i hturn
        cases hstep
        exact h.submit hturn.1 hturn.2 promptTokenIds fault
      · cases hstep
    | leave ref =>
      obtain ⟨engine', hact, rfl⟩ := Option.map_eq_some_iff.mp hstep
      unfold AsyncLLMEngine.act at hact
      dsimp only at hact
      split at hact
      · rename_i hturn
        cases hact
        exact h.calm (calm_leave hturn.1) 0
      · cases hact
    | endLeave ref fault =>
      dsimp only at hstep
      split at hstep
      · rename_i hturn
        cases hstep
        exact h.endLeave hturn.1 hturn.2 fault
      · cases hstep
    | abort requestId fault =>
      cases hstep
      exact h.calm (calm_abort requestId fault) 0
    | shutdown fault =>
      cases hstep
      exact h.calm (calm_shutdown fault) 0
    | shutdownOn fault =>
      obtain ⟨engine', hact, rfl⟩ := Option.map_eq_some_iff.mp hstep
      exact h.calm (calm_shutdownOn h.closing hact) 0
    | die worker code =>
      cases hstep
      exact h.calm (calm_die worker code) 0
    | receive arrival =>
      by_cases hevent : arrival = .event
      · subst hevent
        dsimp only at hstep
        split at hstep
        · exact h.get hstep
        · cases hstep
      · have hsome : ((world.engine.act (.receive arrival)).map fun engine =>
            flush { world with engine } 0) = some world' := by
          cases arrival with
          | event => exact absurd rfl hevent
          | timeout => exact hstep
          | dead detail => exact hstep
          | closed => exact hstep
        obtain ⟨engine', hact, rfl⟩ := Option.map_eq_some_iff.mp hsome
        unfold AsyncLLMEngine.act at hact
        dsimp only at hact
        split at hact
        · exact h.calm (calm_receive hevent hact) 0
        · cases hact
    | stats due fault =>
      obtain ⟨engine', hact, rfl⟩ := Option.map_eq_some_iff.mp hstep
      unfold AsyncLLMEngine.act at hact
      dsimp only at hact
      split at hact
      · cases hact
        exact h.calm (calm_stats due fault) 0
      · cases hact
    | receiver =>
      dsimp only at hstep
      split at hstep
      · exact h.push ‹_› hstep
      · rename_i hidle
        obtain ⟨engine', hact, rfl⟩ := Option.map_eq_some_iff.mp hstep
        exact h.calm (calm_receiverOn hidle hact) 0

/-- **Stream isolation.** If no client takes an id before it is quiet, every output that is pushed
to a stream came from the submission of that stream, and every route is released by its own. -/
theorem run_isolated {backend : Backend} {actions : List StreamAction}
    (hqueue : ∀ r, backend.queue r = [])
    (hrun : Run (Guarded Step Unhurried) { engine := .create backend } actions world) :
    world.Isolated := by
  have howned : world.Owned :=
    hrun.invariant (fun _ _ _ hs hstep => owned_step hs hstep.1 hstep.2) (owned_create hqueue)
  exact howned.isolated

end

theorem quiet_create {backend : Backend} (requestId : RequestId) :
    Quiet { engine := .create backend } requestId := by
  refine ⟨fun k => ?_, fun ref hclaims => absurd hclaims.1 (Nat.not_lt_zero ref)⟩
  rintro (⟨replica, command, hmem, _⟩ | ⟨replica, request, hmem, _⟩ | ⟨outputs, hmem, _⟩ |
    ⟨output, hmem, _⟩) <;> exact absurd hmem List.not_mem_nil

/-- Two replicas that are charged by tokens. -/
def twoByTokens : Backend :=
  .grid ⟨⟨2, .tokenCount, 0, .empty⟩, ∅, false, false, none, fun _ => []⟩ [none, none]

/-- A client that gets its output, and leaves. -/
def firstVisit : List StreamAction :=
  [.engine (.generate "r"), .engine (.submit 0 [1, 2] none), .apply 0 none,
    .work 0 [⟨"r", [5], some "eos"⟩], .engine .receiver, .engine (.receive .event),
    .engine .receiver, .engine (.leave 0), .engine (.endLeave 0 none)]

/-- Its output and its route are its own. -/
theorem run_isolated_visit : ∃ world,
    Run (Guarded (@Step pairingDigest spellingTokenizer) Unhurried)
      { engine := .create twoByTokens } firstVisit world ∧
    world.delivered = [(0, 0)] ∧ world.released = [(0, 0)] ∧ world.Isolated := by
  let _ : BlockDigest := pairingDigest
  let _ : Tokenizer := spellingTokenizer
  have hstep : ∀ {world world' : StreamWorld} {action : StreamAction},
      world.act action = some world' → Step world action world' := fun h => h
  have hrun : Run (Guarded Step Unhurried) { engine := .create twoByTokens } firstVisit _ :=
    .snoc (.snoc (.snoc (.snoc (.snoc (.snoc (.snoc (.snoc (.snoc .nil
      ⟨hstep rfl, fun _ _ => quiet_create _⟩) ⟨hstep rfl, trivial⟩) ⟨hstep rfl, trivial⟩)
      ⟨hstep rfl, trivial⟩) ⟨hstep rfl, trivial⟩) ⟨hstep rfl, trivial⟩) ⟨hstep rfl, trivial⟩)
      ⟨hstep rfl, trivial⟩) ⟨hstep rfl, trivial⟩
  exact ⟨_, hrun, by decide +kernel, by decide +kernel, run_isolated (fun _ => rfl) hrun⟩

/-- A client that leaves at once, and takes its id again while an output of its first request is
still to be received. -/
def hurriedReuse : List StreamAction :=
  [.engine (.generate "r"), .engine (.submit 0 [1, 2] none), .apply 0 none,
    .work 0 [⟨"r", [5], some "eos"⟩], .engine (.leave 0), .engine (.endLeave 0 none),
    .engine (.generate "r"), .engine (.submit 1 [3] none), .engine .receiver,
    .engine (.receive .event), .engine .receiver]

/-- Its second stream gets the output of the first, which has closed the route of the second. -/
theorem reuse_mixes_streams : ∃ world,
    Run (@Step pairingDigest spellingTokenizer) { engine := .create twoByTokens } hurriedReuse world ∧
    world.delivered = [(1, 0)] ∧ world.released = [(0, 0), (1, 0)] ∧ ¬ world.Isolated := by
  let _ : BlockDigest := pairingDigest
  let _ : Tokenizer := spellingTokenizer
  have hstep : ∀ {world world' : StreamWorld} {action : StreamAction},
      world.act action = some world' → Step world action world' := fun h => h
  have hrun : Run Step { engine := .create twoByTokens } hurriedReuse _ :=
    .snoc (.snoc (.snoc (.snoc (.snoc (.snoc (.snoc (.snoc (.snoc (.snoc (.snoc .nil
      (hstep rfl)) (hstep rfl)) (hstep rfl)) (hstep rfl)) (hstep rfl)) (hstep rfl)) (hstep rfl))
      (hstep rfl)) (hstep rfl)) (hstep rfl)) (hstep rfl)
  refine ⟨_, hrun, by decide +kernel, by decide +kernel, fun h => ?_⟩
  exact absurd (h.1 (1, 0) (by decide +kernel)) (by decide)

end StreamWorld

end RapidLlm
