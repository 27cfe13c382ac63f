import RapidLlm.Engine.KVCacheSpec
import RapidLlm.Engine.Detokenizer

/-!
# RapidLlm.Engine.RequestTracker

What the parent process keeps of a request (`_RequestStream` and `RequestTracker` in
`engine/async_engine.py`), and the events that reach it.

* A stream object has an identity, its `StreamRef`; the table maps request ids to it.
* `queue` is everything that was pushed to a stream, oldest first.
* `remove` is the only method that asks whether the object under an id is the one it means.
  `Settled` is a stream whose client will not wait forever.
-/

namespace RapidLlm

/-- `RequestEvent`, without its logprob records. -/
structure RequestEvent where
  requestId : RequestId
  newTokenIds : List Token
  finishReason : Option String := none
  promptLen : Nat := 0
  error : Option String := none
  deriving DecidableEq, Repr

/-- `RequestEvent.finished` -/
def RequestEvent.finished (event : RequestEvent) : Bool := event.finishReason.isSome

/-- `StreamedOutput`, without its logprob records. -/
structure StreamedOutput where
  requestId : RequestId
  delta : Text
  text : Text
  finishReason : Option String
  promptTokens : Nat := 0
  completionTokens : Nat := 0
  deriving DecidableEq, Repr

/-- What a stream's queue holds: an output, an exception, or `None`. -/
inductive StreamItem
  | output (output : StreamedOutput)
  | error (raised : Raised)
  | closed
  deriving DecidableEq, Repr

/-- After this item the client stops waiting. -/
def StreamItem.terminal : StreamItem → Bool
  | output chunk => chunk.finishReason.isSome
  | error _ => true
  | closed => true

/-- `_RequestStream` -/
structure RequestStream where
  requestId : RequestId
  detokenizer : IncrementalDetokenizer := .create 1
  text : Text := []
  completionTokens : Nat := 0
  finished : Bool := false
  queue : List StreamItem := []
  deriving DecidableEq, Repr

namespace RequestStream

variable {stream : RequestStream} {item : StreamItem}

/-- `push` -/
def push (stream : RequestStream) (item : StreamItem) : RequestStream :=
  { stream with queue := stream.queue ++ [item] }

/-- What `fail_all` and `clear` do with a stream. -/
def fail (stream : RequestStream) (item : StreamItem) : RequestStream :=
  { stream with finished := true }.push item

/-- `push_event` -/
def pushEvent [Tokenizer] (stream : RequestStream) (event : RequestEvent) : RequestStream :=
  match event.error with
  | some message => stream.fail (.error (.valueError message))
  | none =>
      let appended := stream.detokenizer.appendAll 0 event.newTokenIds
      let stream : RequestStream := { stream with
        detokenizer := appended.2
        completionTokens := stream.completionTokens + event.newTokenIds.length
        text := stream.text ++ appended.1
        finished := stream.finished || event.finished }
      if appended.1 = [] ∧ event.finished = false then stream
      else stream.push (.output {
        requestId := stream.requestId
        delta := appended.1
        text := stream.text
        finishReason := event.finishReason
        promptTokens := event.promptLen
        completionTokens := stream.completionTokens })

/-- Something terminal was pushed. -/
def Settled (stream : RequestStream) : Prop := ∃ item ∈ stream.queue, item.terminal = true

instance : Decidable stream.Settled :=
  inferInstanceAs (Decidable (∃ item ∈ stream.queue, item.terminal = true))

theorem Settled.push (h : stream.Settled) (item : StreamItem) : (stream.push item).Settled := by
  obtain ⟨earlier, hmem, hterminal⟩ := h
  exact ⟨earlier, List.mem_append_left _ hmem, hterminal⟩

theorem settled_push (h : item.terminal = true) : (stream.push item).Settled :=
  ⟨item, List.mem_append_right _ (List.mem_singleton_self item), h⟩

/-- What was pushed stays pushed, whatever else happens. -/
theorem Settled.pushEvent [Tokenizer] (h : stream.Settled) (event : RequestEvent) :
    (stream.pushEvent event).Settled := by
  unfold RequestStream.pushEvent
  split
  · exact h.push _
  · dsimp only
    split
    · exact h
    · exact h.push _

@[simp] theorem fail_requestId (stream : RequestStream) (item : StreamItem) :
    (stream.fail item).requestId = stream.requestId := rfl

@[simp] theorem pushEvent_requestId [Tokenizer] (stream : RequestStream) (event : RequestEvent) :
    (stream.pushEvent event).requestId = stream.requestId := by
  unfold pushEvent
  split
  · rfl
  · dsimp only
    split <;> rfl

end RequestStream

/-- The identity of a stream object. -/
abbrev StreamRef := Nat

/-- `RequestTracker`. `objects` is where the stream objects live, `nextRef` the next of them. -/
structure RequestTracker where
  streams : List (RequestId × StreamRef) := []
  snapshot : List (RequestId × StreamRef) := []
  objects : StreamRef → RequestStream := fun _ => { requestId := "" }
  nextRef : StreamRef := 0

namespace RequestTracker

variable {tracker : RequestTracker} {requestId : RequestId} {ref : StreamRef}

/-- The object under an id. -/
def lookup (table : List (RequestId × StreamRef)) (requestId : RequestId) : Option StreamRef :=
  (table.find? fun entry => entry.1 == requestId).map Prod.snd

/-- `register` -/
def register (tracker : RequestTracker) (requestId : RequestId) :
    Except Raised StreamRef × RequestTracker :=
  match lookup tracker.streams requestId with
  | some _ => (.error (.valueError s!"request id '{requestId}' is already active"), tracker)
  | none =>
      let streams := tracker.streams ++ [(requestId, tracker.nextRef)]
      (.ok tracker.nextRef, {
        streams
        snapshot := streams
        objects := Function.update tracker.objects tracker.nextRef { requestId }
        nextRef := tracker.nextRef + 1 })

/-- `get` -/
def get (tracker : RequestTracker) (requestId : RequestId) : Option StreamRef :=
  lookup tracker.snapshot requestId

/-- `remove` -/
def remove (tracker : RequestTracker) (requestId : RequestId) (ref : StreamRef) : RequestTracker :=
  if lookup tracker.streams requestId = some ref then
    let streams := tracker.streams.filter fun entry => entry.1 != requestId
    { tracker with
      streams
      snapshot := streams }
  else tracker

/-- A change to one stream object. -/
def modify (tracker : RequestTracker) (ref : StreamRef) (f : RequestStream → RequestStream) :
    RequestTracker :=
  { tracker with objects := Function.update tracker.objects ref (f (tracker.objects ref)) }

/-- The locked part of `clear`: the table is emptied, what it held is still to be failed. -/
def takeAll (tracker : RequestTracker) : List StreamRef × RequestTracker :=
  (tracker.streams.map Prod.snd, { tracker with
    streams := []
    snapshot := [] })

/-- What the receiver does with one output of an event. -/
def deliver [Tokenizer] (tracker : RequestTracker) (event : RequestEvent) : RequestTracker :=
  match tracker.get event.requestId with
  | none => tracker
  | some ref => tracker.modify ref fun stream => stream.pushEvent event

/-! ### The table -/

/-- The ids are keys, the snapshot is current, and every entry is an object with its id. -/
structure WellFormed (tracker : RequestTracker) : Prop where
  keys : (tracker.streams.map Prod.fst).Nodup
  snapshot : tracker.snapshot = tracker.streams
  entry : ∀ entry ∈ tracker.streams, entry.2 < tracker.nextRef ∧
    (tracker.objects entry.2).requestId = entry.1

theorem lookup_eq_some_iff {table : List (RequestId × StreamRef)}
    (hkeys : (table.map Prod.fst).Nodup) : lookup table requestId = some ref ↔ (requestId, ref) ∈ table := by
  unfold lookup
  rw [Option.map_eq_some_iff]
  constructor
  · rintro ⟨entry, hfind, rfl⟩
    have hid : entry.1 = requestId := by simpa using List.find?_some hfind
    rw [← hid]
    exact List.mem_of_find?_eq_some hfind
  · intro hmem
    refine ⟨(requestId, ref), ?_, rfl⟩
    induction table with
    | nil => cases hmem
    | cons entry table ih =>
      rw [List.map_cons, List.nodup_cons] at hkeys
      by_cases hid : entry.1 = requestId
      · rcases List.mem_cons.mp hmem with heq | htail
        · rw [List.find?_cons_of_pos (by rw [beq_iff_eq, hid]), heq]
        · exact absurd (hid ▸ List.mem_map_of_mem htail) hkeys.1
      · rw [List.find?_cons_of_neg (by simpa using hid)]
        refine ih hkeys.2 ((List.mem_cons.mp hmem).resolve_left ?_)
        intro heq
        exact hid (congrArg Prod.fst heq).symm

theorem lookup_eq_none_iff {table : List (RequestId × StreamRef)} :
    lookup table requestId = none ↔ requestId ∉ table.map Prod.fst := by
  unfold lookup
  rw [Option.map_eq_none_iff, List.find?_eq_none]
  constructor
  · intro h hmem
    obtain ⟨entry, hentry, rfl⟩ := List.mem_map.mp hmem
    exact h entry hentry (beq_self_eq_true _)
  · intro h entry hentry hid
    exact h (eq_of_beq hid ▸ List.mem_map_of_mem hentry)

theorem wellFormed_empty : ({} : RequestTracker).WellFormed :=
  ⟨List.nodup_nil, rfl, fun _ h => nomatch h⟩

theorem get_eq_some_iff (h : tracker.WellFormed) :
    tracker.get requestId = some ref ↔ (requestId, ref) ∈ tracker.streams := by
  rw [get, h.snapshot]
  exact lookup_eq_some_iff h.keys

/-- A stream that is registered is new, and so is its id. -/
theorem register_ok {tracker' : RequestTracker}
    (h : tracker.register requestId = (.ok ref, tracker')) :
    ref = tracker.nextRef ∧ requestId ∉ tracker.streams.map Prod.fst ∧ tracker' = {
      streams := tracker.streams ++ [(requestId, tracker.nextRef)]
      snapshot := tracker.streams ++ [(requestId, tracker.nextRef)]
      objects := Function.update tracker.objects tracker.nextRef { requestId }
      nextRef := tracker.nextRef + 1 } := by
  unfold register at h
  cases hfind : lookup tracker.streams requestId with
  | some _ =>
    rw [hfind] at h
    cases h
  | none =>
    rw [hfind] at h
    cases h
    exact ⟨rfl, lookup_eq_none_iff.mp hfind, rfl⟩

/-- A register that raises changes nothing. -/
theorem register_error {tracker' : RequestTracker} {raised : Raised}
    (h : tracker.register requestId = (.error raised, tracker')) : tracker' = tracker := by
  unfold register at h
  cases hfind : lookup tracker.streams requestId with
  | some _ =>
    rw [hfind] at h
    cases h
    rfl
  | none =>
    rw [hfind] at h
    cases h

theorem WellFormed.register {tracker' : RequestTracker} (h : tracker.WellFormed)
    (hregister : tracker.register requestId = (.ok ref, tracker')) : tracker'.WellFormed := by
  obtain ⟨rfl, hfresh, rfl⟩ := register_ok hregister
  refine ⟨?_, rfl, fun entry hentry => ?_⟩
  · rw [List.map_append, List.nodup_append]
    refine ⟨h.keys, List.nodup_singleton _, fun x hx y hy => ?_⟩
    intro heq
    rw [heq, List.mem_singleton.mp hy] at hx
    exact hfresh hx
  · rcases List.mem_append.mp hentry with hold | hnew
    · have hlt := (h.entry entry hold).1
      refine ⟨Nat.lt_succ_of_lt hlt, ?_⟩
      dsimp only
      rw [Function.update_of_ne hlt.ne]
      exact (h.entry entry hold).2
    · rw [List.mem_singleton.mp hnew]
      exact ⟨Nat.lt_succ_self _, by dsimp only; rw [Function.update_self]⟩

theorem mem_remove (h : tracker.WellFormed) {entry : RequestId × StreamRef}
    (hentry : entry ∈ tracker.streams) (hne : entry.2 ≠ ref) :
    entry ∈ (tracker.remove requestId ref).streams := by
  unfold remove
  split
  · rename_i hlookup
    refine List.mem_filter.mpr ⟨hentry, bne_iff_ne.mpr fun hid => hne ?_⟩
    have hsome := (lookup_eq_some_iff h.keys).mpr (show (entry.1, entry.2) ∈ tracker.streams from hentry)
    rw [hid, hlookup] at hsome
    exact (Option.some.inj hsome).symm
  · exact hentry

theorem remove_subset : (tracker.remove requestId ref).streams ⊆ tracker.streams := by
  unfold remove
  split
  · exact fun _ h => (List.mem_filter.mp h).1
  · exact fun _ h => h

@[simp] theorem remove_objects : (tracker.remove requestId ref).objects = tracker.objects := by
  unfold remove
  split <;> rfl

@[simp] theorem remove_nextRef : (tracker.remove requestId ref).nextRef = tracker.nextRef := by
  unfold remove
  split <;> rfl

theorem WellFormed.remove (h : tracker.WellFormed) (requestId : RequestId) (ref : StreamRef) :
    (tracker.remove requestId ref).WellFormed := by
  refine ⟨?_, ?_, fun entry hentry => ?_⟩
  · unfold RequestTracker.remove
    split
    · exact h.keys.sublist (List.filter_sublist.map _)
    · exact h.keys
  · unfold RequestTracker.remove
    split
    · rfl
    · exact h.snapshot
  · rw [remove_objects, remove_nextRef]
    exact h.entry entry (remove_subset hentry)

theorem WellFormed.modify (h : tracker.WellFormed) {f : RequestStream → RequestStream}
    (hf : ∀ stream, (f stream).requestId = stream.requestId) (ref : StreamRef) :
    (tracker.modify ref f).WellFormed := by
  refine ⟨h.keys, h.snapshot, fun entry hentry => ⟨(h.entry entry hentry).1, ?_⟩⟩
  show (Function.update tracker.objects ref (f (tracker.objects ref)) entry.2).requestId = _
  by_cases heq : entry.2 = ref
  · rw [heq, Function.update_self, hf, ← heq]
    exact (h.entry entry hentry).2
  · rw [Function.update_of_ne heq]
    exact (h.entry entry hentry).2

theorem WellFormed.takeAll (_ : tracker.WellFormed) : tracker.takeAll.2.WellFormed :=
  ⟨List.nodup_nil, rfl, fun _ h => nomatch h⟩

theorem WellFormed.deliver [Tokenizer] (h : tracker.WellFormed) (event : RequestEvent) :
    (tracker.deliver event).WellFormed := by
  unfold RequestTracker.deliver
  split
  · exact h
  · exact h.modify (fun stream => stream.pushEvent_requestId event) _

/-! ### What the streams hold -/

/-- A change that keeps what is settled. -/
theorem settled_modify {f : RequestStream → RequestStream}
    (hf : ∀ stream : RequestStream, stream.Settled → (f stream).Settled) {ref' : StreamRef}
    (h : (tracker.objects ref').Settled) : ((tracker.modify ref f).objects ref').Settled := by
  show (Function.update tracker.objects ref (f (tracker.objects ref)) ref').Settled
  by_cases heq : ref' = ref
  · subst heq
    rw [Function.update_self]
    exact hf _ h
  · rw [Function.update_of_ne heq]
    exact h

theorem settled_deliver [Tokenizer] {ref' : StreamRef} (event : RequestEvent)
    (h : (tracker.objects ref').Settled) : ((tracker.deliver event).objects ref').Settled := by
  unfold deliver
  split
  · exact h
  · exact settled_modify (fun stream hsettled => hsettled.pushEvent event) h

@[simp] theorem deliver_streams [Tokenizer] (event : RequestEvent) :
    (tracker.deliver event).streams = tracker.streams := by
  unfold deliver
  split <;> rfl

@[simp] theorem deliver_requestId [Tokenizer] (event : RequestEvent) (ref : StreamRef) :
    ((tracker.deliver event).objects ref).requestId = (tracker.objects ref).requestId := by
  unfold deliver
  split
  · rfl
  · rename_i target _
    show (Function.update tracker.objects target _ ref).requestId = _
    by_cases heq : ref = target
    · rw [heq, Function.update_self, RequestStream.pushEvent_requestId]
    · rw [Function.update_of_ne heq]

@[simp] theorem deliver_nextRef [Tokenizer] (event : RequestEvent) :
    (tracker.deliver event).nextRef = tracker.nextRef := by
  unfold deliver
  split <;> rfl

end RequestTracker

end RapidLlm
