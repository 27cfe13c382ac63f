import RapidLlm.Engine.KVOffload

/-!
# RapidLlm.Engine.OffloadWorld

The CPU tier with its copies: a `CPUTier`, the copies that have landed, and what every CPU block
holds. A step is one call of the scheduler, or one copy landing; any order of them is a run.

`Safe` is the invariant: the tier's moves are those of its pending transfers (`Carries`), a block
that carries a key holds that key's rows, and so does the block of a store that has landed and is
not drained yet. `step_safe` keeps it step by step, `run_safe` over runs.
-/

namespace RapidLlm

/-- The tier and what the code cannot see: `landed` are the copies whose event has fired, `contents`
the key whose rows a CPU block holds (`none` while a copy writes it), `stored` the keys whose store
copy landed and that the pool has not evicted since, `jobs` and `events` everything `prepare_load`
and `take_events` have returned. -/
structure OffloadWorld where
  tier : CPUTier
  nextEvent : Nat := 0
  landed : Finset Nat := ∅
  contents : BlockId → Option OffloadKey := fun _ => none
  stored : Finset OffloadKey := ∅
  jobs : List LoadSpec := []
  events : List OffloadEvent := []

/-- A call, or a copy landing. `sync` is a copier that is done when `submit` returns. -/
inductive OffloadOp
  | prepareStore (entries : List (Nat × OffloadKey)) (sync : Bool)
  | prepareLoad (keys : List OffloadKey) (gpuBlocks : List Nat) (sync : Bool)
  | touch (keys : List OffloadKey)
  | lookup (key : OffloadKey)
  | takeEvents
  | land (event : Nat)

/-- The blocks of these pairs now hold their keys' rows. -/
def writeBlocks (pairs : List (OffloadKey × BlockId)) (contents : BlockId → Option OffloadKey) :
    BlockId → Option OffloadKey := fun b =>
  match pairs.find? fun p => decide (p.2 = b) with
  | some p => some p.1
  | none => contents b

/-- The pool dropped this key between the two. -/
def Evicted (pool pool' : BlockPool) (key : OffloadKey) : Bool :=
  (pool.getCachedBlock key).isSome && (pool'.getCachedBlock key).isNone

namespace OffloadWorld

def create (numBlocks blockSize : Nat) : Except Raised OffloadWorld := do
  return { tier := ← CPUTier.create numBlocks blockSize }

/-- What the copier's `submit` returns. -/
def ticket (w : OffloadWorld) (sync : Bool) : Option Nat := if sync then none else some w.nextEvent

/-- The world after `prepare_store` returned `spec` and `tier`. -/
def afterStore (w : OffloadWorld) (sync : Bool) (spec : StoreSpec) (tier : CPUTier) : OffloadWorld :=
  let targets := spec.moves.map CopyRun.cpuBlock
  let begun := fun b => if b ∈ targets then none else w.contents b
  let kept := w.stored.filter fun key => !Evicted w.tier.pool tier.pool key
  { w with
    tier
    nextEvent := w.nextEvent + 1
    contents := if sync then writeBlocks (spec.keys.zip targets) begun else begun
    stored := if sync then kept ∪ spec.keys.toFinset else kept }

/-- The copy of one event lands. -/
def land (w : OffloadWorld) (event : Nat) : OffloadWorld :=
  let pairs := pairsOf .store (w.tier.pending.filter fun t => decide (t.event = some event))
  { w with
    landed := insert event w.landed
    contents := writeBlocks pairs w.contents
    stored := w.stored ∪ (pairs.map Prod.fst).toFinset }

def step (w : OffloadWorld) : OffloadOp → Except Raised OffloadWorld
  | .prepareStore entries sync => do
      let (spec, tier) ← w.tier.prepareStore entries (w.ticket sync)
      return w.afterStore sync spec tier
  | .prepareLoad keys gpuBlocks sync => do
      let (spec, tier) ← w.tier.prepareLoad keys gpuBlocks (w.ticket sync)
      return { w with tier, nextEvent := w.nextEvent + 1, jobs := w.jobs ++ spec.toList }
  | .touch keys => do
      let tier ← w.tier.touch keys
      return { w with tier }
  | .lookup _ => return w
  | .takeEvents => do
      let (events, tier) ← w.tier.takeEvents w.landed
      return { w with tier, events := w.events ++ events }
  | .land event => return w.land event

/-- The keys of one `prepare_store` call are distinct, and a copy lands once, after its
submission. -/
def Allowed (w : OffloadWorld) : OffloadOp → Prop
  | .prepareStore entries _ => (entries.map Prod.snd).Nodup
  | .land event => event < w.nextEvent ∧ event ∉ w.landed
  | _ => True

/-! ### The invariant -/

/-- The load events owed for the pending transfers. -/
def owed (ts : List Transfer) : List OffloadEvent :=
  (ts.filter fun t => decide (t.kind = .load)).map Transfer.toEvent

structure Safe (numBlocks : Nat) (w : OffloadWorld) : Prop where
  size : w.tier.pool.numBlocks = numBlocks
  carries : w.tier.Carries w.tier.pending
  parallel : Parallel w.tier.pending
  resident : ∀ b key, w.tier.pool.hashOf b = some key → w.contents b = some key ∧ key ∈ w.stored
  written : ∀ t ∈ w.tier.pending, t.kind = .store → t.isDone w.landed = true →
    ∀ p ∈ t.pairs, w.contents p.2 = some p.1 ∧ p.1 ∈ w.stored
  landed_lt : ∀ event ∈ w.landed, event < w.nextEvent
  jobs : (w.jobs.map LoadSpec.toEvent).Perm
    (w.events.filter (fun e => decide (e.kind = .load)) ++ owed w.tier.pending)

theorem writeBlocks_of_pair {pairs : List (OffloadKey × BlockId)}
    {contents : BlockId → Option OffloadKey} {p : OffloadKey × BlockId}
    (hp : p ∈ pairs ∨ contents p.2 = some p.1) (huniq : ∀ q ∈ pairs, q.2 = p.2 → q = p) :
    writeBlocks pairs contents p.2 = some p.1 := by
  unfold writeBlocks
  cases hfind : pairs.find? fun q => decide (q.2 = p.2) with
  | some q =>
    have hq : q.2 = p.2 := by simpa using List.find?_some hfind
    rw [huniq q (List.mem_of_find?_eq_some hfind) hq]
  | none =>
    rcases hp with hp | hp
    · have := List.find?_eq_none.mp hfind p hp
      simp at this
    · exact hp

theorem writeBlocks_of_ne {pairs : List (OffloadKey × BlockId)}
    {contents : BlockId → Option OffloadKey} {b : BlockId} (h : ∀ p ∈ pairs, p.2 ≠ b) :
    writeBlocks pairs contents b = contents b := by
  unfold writeBlocks
  rw [List.find?_eq_none.mpr fun p hp => by simpa using h p hp]

theorem owed_append (ts ts' : List Transfer) : owed (ts ++ ts') = owed ts ++ owed ts' := by
  simp [owed]

theorem numBlocks_of_geometry {pool pool' : BlockPool} (h : pool'.geometry = pool.geometry) :
    pool'.numBlocks = pool.numBlocks := congrArg Prod.fst h

variable {numBlocks : Nat} {w w' : OffloadWorld}

/-- A fresh tier is safe: it holds nothing. -/
theorem create_safe {blockSize : Nat} (h : create numBlocks blockSize = .ok w) : w.Safe numBlocks := by
  obtain ⟨tier, htier, hw⟩ := bind_eq_ok.mp h
  cases hw
  unfold CPUTier.create at htier
  split at htier
  · cases htier
  obtain ⟨pool, hpool, hm⟩ := bind_eq_ok.mp htier
  cases hm
  obtain ⟨-, hgeo, hnone⟩ := BlockPool.create_holds hpool
  exact {
    size := congrArg Prod.fst hgeo
    carries := Pinned.create hpool
    parallel := fun t ht => by cases ht
    resident := fun b key hb => by rw [hnone b] at hb; cases hb
    written := fun t ht => by cases ht
    landed_lt := fun event hevent => by cases hevent
    jobs := List.Perm.refl _ }

/-- The blocks of pending transfers are held. -/
theorem held_of_pairs {m : CPUTier} {kind : TransferKind} {p : OffloadKey × BlockId}
    (hp : p ∈ pairsOf kind m.pending) :
    p.2 ∈ (pairsOf .store m.pending : Multiset (OffloadKey × BlockId)).map Prod.snd +
      (pairsOf .load m.pending : Multiset (OffloadKey × BlockId)).map Prod.snd := by
  rw [Multiset.mem_add]
  cases kind with
  | store => exact .inl (Multiset.mem_map_of_mem _ (Multiset.mem_coe.mpr hp))
  | load => exact .inr (Multiset.mem_map_of_mem _ (Multiset.mem_coe.mpr hp))

/-- Every block of a pending transfer is one of its pairs'. -/
theorem exists_pair {ts : List Transfer} (hlen : Parallel ts) {t : Transfer} (ht : t ∈ ts)
    {b : BlockId} (hb : b ∈ t.cpuBlocks) : ∃ p ∈ pairsOf t.kind ts, p.2 = b := by
  have hsnd : t.pairs.map Prod.snd = t.cpuBlocks := by
    rw [Transfer.pairs, List.map_snd_zip (hlen t ht).ge]
  rw [← hsnd] at hb
  obtain ⟨p, hp, rfl⟩ := List.mem_map.mp hb
  exact ⟨p, mem_pairsOf.mpr ⟨t, ht, rfl, hp⟩, rfl⟩

/-! ### One step -/

/-- A block handed out is nobody's: no pending transfer reads or writes it. -/
theorem not_mem_of_grew {pool' : BlockPool} {blocks : List BlockId}
    (hgrew : BlockPool.Grew w.tier.pool pool'
      ((pairsOf .store w.tier.pending : Multiset (OffloadKey × BlockId)).map Prod.snd +
        (pairsOf .load w.tier.pending : Multiset (OffloadKey × BlockId)).map Prod.snd) blocks)
    {kind : TransferKind} {p : OffloadKey × BlockId} (hp : p ∈ pairsOf kind w.tier.pending) :
    p.2 ∉ blocks := fun hmem =>
  Multiset.count_eq_zero.mp (hgrew.unheld _ hmem) (held_of_pairs hp)

theorem storeTransfer_targets {fresh : List (Nat × OffloadKey)} {blocks : List BlockId}
    (hlen : (fresh.map Prod.snd).length = blocks.length) (event : Option Nat) :
    (CPUTier.storeTransfer fresh blocks event).moves.map CopyRun.cpuBlock = blocks := by
  have hlen' : (fresh.map Prod.fst).length = blocks.length := by
    rw [List.length_map, ← hlen, List.length_map]
  have hzip := List.map_snd_zip hlen'.ge
  rw [List.zip, List.map_zipWith] at hzip
  simpa only [CPUTier.storeTransfer, List.map_zipWith] using hzip

/-- Submitting a store keeps the invariant. -/
theorem Safe.afterStore (h : w.Safe numBlocks) {sync : Bool} {blocks : List BlockId} {tier : CPUTier}
    {fresh : List (Nat × OffloadKey)} {spec : StoreSpec}
    (htargets : spec.moves.map CopyRun.cpuBlock = blocks) (hkeys : spec.keys = fresh.map Prod.snd)
    (hpending : tier.pending =
      w.tier.pending ++ [CPUTier.storeTransfer fresh blocks (w.ticket sync)])
    (hlen : (fresh.map Prod.snd).length = blocks.length) (hcarries : tier.Carries tier.pending)
    (hgrew : BlockPool.Grew w.tier.pool tier.pool
      ((pairsOf .store w.tier.pending : Multiset (OffloadKey × BlockId)).map Prod.snd +
        (pairsOf .load w.tier.pending : Multiset (OffloadKey × BlockId)).map Prod.snd) blocks) :
    (w.afterStore sync spec tier).Safe numBlocks := by
  have hnew : ∀ p ∈ (fresh.map Prod.snd).zip blocks, p ∈ pairsOf .store tier.pending := fun p hp => by
    rw [hpending, pairsOf_append]
    exact List.mem_append_right _ (by simpa [pairsOf, Transfer.pairs, CPUTier.storeTransfer] using hp)
  -- what a block holds after the step, if it is none of the targets, is what it held before
  have hcontents : ∀ b ∉ blocks, (w.afterStore sync spec tier).contents b = w.contents b := by
    intro b hb
    simp only [OffloadWorld.afterStore, htargets]
    cases sync with
    | false => simp only [Bool.false_eq_true, if_false, hb]
    | true =>
      have hne : ∀ p ∈ spec.keys.zip blocks, p.2 ≠ b := fun p hp heq => by
        have hmem : p.2 ∈ blocks := (List.of_mem_zip hp).2
        exact hb (heq ▸ hmem)
      simp only [if_true, writeBlocks_of_ne hne, if_neg hb]
  have hstored : ∀ key ∈ w.stored, Evicted w.tier.pool tier.pool key = false →
      key ∈ (w.afterStore sync spec tier).stored := by
    intro key hkey hkeep
    have hkept : key ∈ w.stored.filter fun key => !Evicted w.tier.pool tier.pool key :=
      Finset.mem_filter.mpr ⟨hkey, by simp [hkeep]⟩
    cases sync with
    | false => exact hkept
    | true => exact Finset.mem_union_left _ hkept
  refine { size := (numBlocks_of_geometry hgrew.geometry).trans h.size
           carries := hcarries, parallel := ?_, resident := ?_, written := ?_
           landed_lt := fun event he => Nat.lt_succ_of_lt (h.landed_lt event he), jobs := ?_ }
  · intro t ht
    rcases List.mem_append.mp (hpending ▸ ht) with ht | ht
    · exact h.parallel t ht
    · rw [List.mem_singleton.mp ht]
      exact hlen
  · intro b key (hb : tier.pool.hashOf b = some key)
    have hkey := hgrew.hashOf_some hb
    have hnotin : b ∉ blocks := fun hmem => by
      rw [hgrew.unhashed b hmem] at hb
      cases hb
    have hkept : Evicted w.tier.pool tier.pool key = false := by
      simp [Evicted, hcarries.getCachedBlock_iff.mpr hb]
    exact ⟨(hcontents b hnotin).trans (h.resident b key hkey).1,
      hstored key (h.resident b key hkey).2 hkept⟩
  · intro t ht hkind hdone p hp
    rcases List.mem_append.mp (hpending ▸ ht) with ht | ht
    · -- an earlier store: its block is not handed out, its key is not resident
      have hpair : p ∈ pairsOf .store w.tier.pending := mem_pairsOf.mpr ⟨t, ht, hkind, hp⟩
      obtain ⟨hc, hs⟩ := h.written t ht hkind hdone p hp
      have hkept : Evicted w.tier.pool tier.pool p.1 = false := by
        cases hb : w.tier.pool.getCachedBlock p.1 with
        | none => simp [Evicted, hb]
        | some b => exact absurd (h.carries.getCachedBlock_iff.mp hb) (h.carries.unindexed p hpair b)
      exact ⟨(hcontents p.2 (not_mem_of_grew hgrew hpair)).trans hc, hstored p.1 hs hkept⟩
    · -- the new store is done only if its copy was
      rw [List.mem_singleton.mp ht] at hdone hp
      cases sync with
      | false =>
        have hmem : w.nextEvent ∈ w.landed := of_decide_eq_true hdone
        exact absurd (h.landed_lt _ hmem) (Nat.lt_irrefl _)
      | true =>
        have hpzip : p ∈ (fresh.map Prod.snd).zip blocks := hp
        simp only [OffloadWorld.afterStore, htargets, hkeys, if_true]
        refine ⟨writeBlocks_of_pair (.inl hpzip) fun q hq heq => ?_, ?_⟩
        · exact hcarries.store_key (hnew q hq) (hnew p hpzip) heq
        · exact Finset.mem_union_right _ (List.mem_toFinset.mpr (List.of_mem_zip hpzip).1)
  · have howed : owed tier.pending = owed w.tier.pending := by
      rw [hpending, owed_append]
      simp [owed, CPUTier.storeTransfer]
    exact howed ▸ h.jobs

/-- A copy that lands keeps the invariant. -/
theorem Safe.land (h : w.Safe numBlocks) {event : Nat} (hlt : event < w.nextEvent) :
    (w.land event).Safe numBlocks := by
  have hpair : ∀ p ∈ pairsOf .store (w.tier.pending.filter fun t => decide (t.event = some event)),
      p ∈ pairsOf .store w.tier.pending := by
    intro p hp
    obtain ⟨t, ht, hkind, hpt⟩ := mem_pairsOf.mp hp
    exact mem_pairsOf.mpr ⟨t, (List.mem_filter.mp ht).1, hkind, hpt⟩
  refine { size := h.size, carries := h.carries, parallel := h.parallel, resident := ?_
           written := ?_, landed_lt := ?_, jobs := h.jobs }
  · intro b key hb
    obtain ⟨hc, hs⟩ := h.resident b key hb
    refine ⟨(writeBlocks_of_ne fun p hp heq => ?_).trans hc, Finset.mem_union_left _ hs⟩
    -- a block that carries a key is no store's target
    have hnone := h.carries.unhashed p (hpair p hp)
    rw [heq] at hnone
    exact absurd (hnone.symm.trans hb) (by simp)
  · intro t ht hkind hdone p hp
    have hpt : p ∈ pairsOf .store w.tier.pending := mem_pairsOf.mpr ⟨t, ht, hkind, hp⟩
    have hcase : p ∈ pairsOf .store (w.tier.pending.filter fun t => decide (t.event = some event)) ∨
        t.isDone w.landed = true := by
      cases hevent : t.event with
      | none => exact .inr (by simp [Transfer.isDone, hevent])
      | some event' =>
        by_cases heq : event' = event
        · refine .inl (mem_pairsOf.mpr ⟨t, List.mem_filter.mpr ⟨ht, ?_⟩, hkind, hp⟩)
          simp [hevent, heq]
        · refine .inr ?_
          have hmem : event' ∈ insert event w.landed := by
            simpa [Transfer.isDone, hevent, OffloadWorld.land] using hdone
          simpa [Transfer.isDone, hevent] using Finset.mem_of_mem_insert_of_ne hmem heq
    constructor
    · exact writeBlocks_of_pair (hcase.imp_right fun hd => (h.written t ht hkind hd p hp).1)
        fun q hq heq => h.carries.store_key (hpair q hq) hpt heq
    · rcases hcase with hland | hd
      · exact Finset.mem_union_right _ (List.mem_toFinset.mpr (List.mem_map_of_mem hland))
      · exact Finset.mem_union_left _ (h.written t ht hkind hd p hp).2
  · intro event' hevent'
    rcases Finset.mem_insert.mp hevent' with rfl | hmem
    · exact hlt
    · exact h.landed_lt _ hmem

/-- The invariant reads the tier through its moves, its hashes and its pending transfers. -/
theorem Safe.congr (h : w.Safe numBlocks) {tier : CPUTier} (hcarries : tier.Carries tier.pending)
    (hgeo : tier.pool.geometry = w.tier.pool.geometry)
    (hhash : ∀ b, tier.pool.hashOf b = w.tier.pool.hashOf b)
    (hpending : tier.pending = w.tier.pending) : { w with tier }.Safe numBlocks where
  size := (numBlocks_of_geometry hgeo).trans h.size
  carries := hcarries
  parallel := by rw [hpending]; exact h.parallel
  resident b key hb := h.resident b key ((hhash b).symm.trans hb)
  written := by rw [hpending]; exact h.written
  landed_lt := h.landed_lt
  jobs := by rw [hpending]; exact h.jobs

/-- Submitting a load keeps the invariant, and owes its event. -/
theorem Safe.afterLoad (h : w.Safe numBlocks) {tier : CPUTier} {keys : List OffloadKey}
    {gpuBlocks : List Nat} {blocks : List BlockId} {event : Option Nat}
    (hpending : tier.pending = w.tier.pending ++ [CPUTier.loadTransfer keys gpuBlocks blocks event])
    (hlen : keys.length = blocks.length) (hcarries : tier.Carries tier.pending)
    (hgeo : tier.pool.geometry = w.tier.pool.geometry)
    (hhash : ∀ b, tier.pool.hashOf b = w.tier.pool.hashOf b) :
    { w with
      tier
      nextEvent := w.nextEvent + 1
      jobs := w.jobs ++ [(⟨blocks, gpuBlocks, keys⟩ : LoadSpec)] }.Safe numBlocks where
  size := (numBlocks_of_geometry hgeo).trans h.size
  carries := hcarries
  parallel t ht := by
    rcases List.mem_append.mp (hpending ▸ ht) with ht | ht
    · exact h.parallel t ht
    · rw [List.mem_singleton.mp ht]
      exact hlen
  resident b key hb := h.resident b key ((hhash b).symm.trans hb)
  written t ht hkind hdone := by
    rcases List.mem_append.mp (hpending ▸ ht) with ht | ht
    · exact h.written t ht hkind hdone
    · rw [List.mem_singleton.mp ht] at hkind
      cases hkind
  landed_lt event he := Nat.lt_succ_of_lt (h.landed_lt event he)
  jobs := by
    have howed : owed tier.pending = owed w.tier.pending ++ [⟨.load, keys, blocks, gpuBlocks⟩] := by
      rw [hpending, owed_append]
      rfl
    rw [howed, List.map_append, ← List.append_assoc]
    exact h.jobs.append_right _

/-- Kind by kind, the events of a drain are those of its transfers. -/
theorem filter_toEvent (ts : List Transfer) :
    (ts.map Transfer.toEvent).filter (fun e => decide (e.kind = .load)) = owed ts := by
  induction ts with
  | nil => rfl
  | cons t ts ih =>
    by_cases hk : t.kind = .load <;> simp_all [owed, Transfer.toEvent]

/-- The events handed out and the events still owed are those owed before. -/
theorem owed_drain (landed : Finset Nat) (ts : List Transfer) :
    (owed (ts.filter fun t => t.isDone landed) ++ owed (ts.filter fun t => !t.isDone landed)).Perm
      (owed ts) := by
  rw [← owed_append]
  exact ((List.filter_append_perm (fun t : Transfer => t.isDone landed) ts).filter _).map _

/-- Draining keeps the invariant: what lands becomes resident, and its loads are paid. -/
theorem Safe.afterDrain (h : w.Safe numBlocks) {tier : CPUTier} (hcarries : tier.Carries tier.pending)
    (hpending : tier.pending = w.tier.pending.filter (fun t => !t.isDone w.landed))
    (hgeo : tier.pool.geometry = w.tier.pool.geometry)
    (hhash : ∀ b key, tier.pool.hashOf b = some key ↔ w.tier.pool.hashOf b = some key ∨
      (key, b) ∈ pairsOf .store (w.tier.pending.filter fun t => t.isDone w.landed)) :
    { w with
      tier
      events := w.events ++
        (w.tier.pending.filter fun t : Transfer => t.isDone w.landed).map Transfer.toEvent }.Safe
      numBlocks where
  size := (numBlocks_of_geometry hgeo).trans h.size
  carries := hcarries
  parallel t ht := h.parallel t (List.mem_filter.mp (hpending ▸ ht)).1
  resident b key hb := by
    rcases (hhash b key).mp hb with hb | hb
    · exact h.resident b key hb
    · obtain ⟨t, ht, hkind, hp⟩ := mem_pairsOf.mp hb
      obtain ⟨hmem, hdone⟩ := List.mem_filter.mp ht
      exact h.written t hmem hkind hdone _ hp
  written t ht := h.written t (List.mem_filter.mp (hpending ▸ ht)).1
  landed_lt := h.landed_lt
  jobs := by
    have hpaid := (owed_drain w.landed w.tier.pending).append_left
      (w.events.filter fun e => decide (e.kind = .load))
    have hgoal := h.jobs.trans hpaid.symm
    simpa only [hpending, List.filter_append, filter_toEvent, List.append_assoc] using hgoal

/-- The two block lists of a `prepare_load` describe the same blocks. -/
def Matched : OffloadOp → Prop
  | .prepareLoad keys gpuBlocks _ => keys.length = gpuBlocks.length
  | _ => True

/-- **One step.** An allowed call returns unless a `prepare_load` is handed lists of two lengths,
and keeps the invariant. -/
theorem step_safe (h : w.Safe numBlocks) {op : OffloadOp} (hallowed : w.Allowed op)
    (hmatched : Matched op) : ∃ w', w.step op = .ok w' ∧ w'.Safe numBlocks := by
  cases op with
  | prepareStore entries sync =>
    rcases CPUTier.prepareStore_ok h.carries hallowed (w.ticket sync) with
      hnone | ⟨blocks, tier, hsome, hpending, hlen, hcarries, hgrew⟩
    · refine ⟨w.afterStore sync {} w.tier, by simp only [step, hnone, ok_bind, pure_eq_ok], ?_⟩
      -- nothing submitted: only the ticket counter moves
      have hevicted : ∀ key, Evicted w.tier.pool w.tier.pool key = false := fun key => by
        cases hc : w.tier.pool.getCachedBlock key <;> simp [Evicted, hc]
      have hstored : (w.afterStore sync {} w.tier).stored = w.stored := by
        cases sync <;> simp [OffloadWorld.afterStore, hevicted]
      have hcontents : (w.afterStore sync {} w.tier).contents = w.contents := by
        cases sync <;> exact funext fun b => by simp [OffloadWorld.afterStore, writeBlocks]
      exact {
        size := h.size
        carries := h.carries
        parallel := h.parallel
        resident := by rw [hstored, hcontents]; exact h.resident
        written := by rw [hstored, hcontents]; exact h.written
        landed_lt := fun event he => Nat.lt_succ_of_lt (h.landed_lt event he)
        jobs := h.jobs }
    · refine ⟨_, by simp only [step, hsome, ok_bind, pure_eq_ok]; rfl, ?_⟩
      exact h.afterStore (storeTransfer_targets hlen (w.ticket sync)) rfl hpending hlen hcarries hgrew
  | prepareLoad keys gpuBlocks sync =>
    rcases CPUTier.prepareLoad_ok h.carries hmatched (w.ticket sync) with
      hnone | ⟨blocks, tier, hsome, hpending, hlen, hcarries, hgeo, hhash⟩
    · refine ⟨{ w with nextEvent := w.nextEvent + 1, jobs := w.jobs ++ [] },
        by simp only [step, hnone, ok_bind, pure_eq_ok]; rfl, ?_⟩
      exact { h with
        landed_lt := fun event he => Nat.lt_succ_of_lt (h.landed_lt event he)
        jobs := by simpa using h.jobs }
    · refine ⟨_, by simp only [step, hsome, ok_bind, pure_eq_ok]; rfl, ?_⟩
      exact h.afterLoad hpending hlen hcarries hgeo hhash
  | touch keys =>
    obtain ⟨pool, hpool, hpinned, hgeo, hhash⟩ := Pinned.touchKeys keys h.carries
    refine ⟨{ w with tier := { w.tier with pool } }, ?_, h.congr hpinned hgeo hhash rfl⟩
    simp only [step, CPUTier.touch, hpool, ok_bind, pure_eq_ok]
  | lookup key => exact ⟨w, rfl, h⟩
  | takeEvents =>
    obtain ⟨tier, htake, hpending, hcarries, hgeo, hhash⟩ :=
      CPUTier.takeEvents_ok w.landed h.parallel h.carries
    refine ⟨_, by simp only [step, htake, ok_bind, pure_eq_ok]; rfl, ?_⟩
    exact h.afterDrain hcarries hpending hgeo hhash
  | land event => exact ⟨w.land event, rfl, h.land hallowed.1⟩

/-- A `prepare_load` with lists of two lengths raises. -/
theorem step_raises {keys : List OffloadKey} {gpuBlocks : List Nat} {sync : Bool}
    (hlen : keys.length ≠ gpuBlocks.length) :
    w.step (.prepareLoad keys gpuBlocks sync) =
      .error (.valueError "keys and gpu_blocks must describe the same blocks") := by
  simp only [step, CPUTier.prepareLoad, if_pos hlen]
  rfl

/-- **Runs.** Whatever the order of calls and landings, the invariant holds. -/
theorem run_safe (h : w.Safe numBlocks) {ops : List OffloadOp}
    (hrun : Run (Guarded (fun w op w' => w.step op = .ok w') Allowed) w ops w') :
    w'.Safe numBlocks := by
  refine hrun.invariant (fun w op w' hw hstep => ?_) h
  have hmatched : Matched op := by
    cases op with
    | prepareLoad keys gpuBlocks sync =>
      by_contra hne
      cases hstep.1.symm.trans (step_raises hne)
    | _ => trivial
  obtain ⟨w₁, hw₁, hsafe⟩ := step_safe hw hstep.2 hmatched
  rw [hstep.1] at hw₁
  cases hw₁
  exact hsafe

/-! ### What a safe world gives -/

/-- A key `lookup` answers `hit` for was stored, and not evicted since. -/
theorem Safe.stored_of_hit (h : w.Safe numBlocks) {key : OffloadKey}
    (hhit : w.tier.lookup key = .hit) : key ∈ w.stored := by
  unfold CPUTier.lookup at hhit
  cases hb : w.tier.pool.getCachedBlock key with
  | none => simp [hb] at hhit
  | some b => exact (h.resident b key (h.carries.getCachedBlock_iff.mp hb)).2

/-- A pending load reads blocks that hold its keys. -/
theorem Safe.contents_of_load (h : w.Safe numBlocks) {t : Transfer} (ht : t ∈ w.tier.pending)
    (hkind : t.kind = .load) {p : OffloadKey × BlockId} (hp : p ∈ t.pairs) :
    w.tier.pool.hashOf p.2 = some p.1 ∧ w.contents p.2 = some p.1 := by
  have hhash := h.carries.hashed p (mem_pairsOf.mpr ⟨t, ht, hkind, hp⟩)
  exact ⟨hhash, (h.resident _ _ hhash).1⟩

/-- What `prepare_store` hands out, no pending transfer uses. -/
theorem Safe.handed_out (h : w.Safe numBlocks) {entries : List (Nat × OffloadKey)}
    (hdistinct : (entries.map Prod.snd).Nodup) {event : Option Nat} {spec : StoreSpec} {tier : CPUTier}
    (hstore : w.tier.prepareStore entries event = .ok (spec, tier)) {move : CopyRun}
    (hmove : move ∈ spec.moves) {t : Transfer} (ht : t ∈ w.tier.pending) :
    move.cpuBlock ∉ t.cpuBlocks := by
  rcases CPUTier.prepareStore_ok h.carries hdistinct event with
    hnone | ⟨blocks, tier', hsome, -, hlen, -, hgrew⟩
  · cases hnone.symm.trans hstore
    cases hmove
  · cases hsome.symm.trans hstore
    intro hmem
    obtain ⟨p, hp, heq⟩ := exists_pair h.parallel ht hmem
    refine not_mem_of_grew hgrew hp ?_
    rw [heq, ← storeTransfer_targets hlen event]
    exact List.mem_map_of_mem hmove

/-- The blocks without a key and the blocks with one are all the blocks but the null block. -/
theorem numCachedBlocks_add {pool : BlockPool} {held : Multiset BlockId} (h : pool.Holds held)
    {queue : List BlockId} (hqueue : queue.Perm (List.range pool.numBlocks).tail) :
    queue.countP (fun b => (pool.hashOf b).isNone) + pool.numCachedBlocks = pool.numBlocks - 1 := by
  have hcached : pool.cachedBlocks =
      (List.range pool.numBlocks).filter fun b => (pool.hashOf b).isSome := by
    refine List.filter_congr fun b _ => ?_
    cases hb : pool.hashOf b with
    | none => rfl
    | some key => simpa using (h.index_iff key b).mpr hb
  have hrange : List.range pool.numBlocks = nullBlockId :: (List.range pool.numBlocks).tail := by
    obtain ⟨m, hm⟩ : ∃ m, pool.numBlocks = m + 1 := ⟨pool.numBlocks - 1, by have := h.two_le; omega⟩
    rw [hm, List.range_succ_eq_map, List.tail_cons]
  have hnull : pool.hashOf nullBlockId = none := h.null_hash
  have htail : pool.numCachedBlocks = queue.countP fun b => (pool.hashOf b).isSome := by
    rw [BlockPool.numCachedBlocks, hcached, hrange, List.filter_cons_of_neg (by simp [hnull]),
      ← List.countP_eq_length_filter, hqueue.countP_eq]
  have hnot : (fun b => (pool.hashOf b).isNone) =
      fun b => decide ¬(pool.hashOf b).isSome = true := by
    funext b
    cases pool.hashOf b <;> rfl
  have hlen : queue.length = pool.numBlocks - 1 := by
    rw [hqueue.length_eq, List.length_tail, List.length_range]
  rw [htail, hnot, add_comm, ← List.length_eq_countP_add_countP, hlen]

/-- With nothing pending, nobody holds a block: all are free, with or without a key. -/
theorem Safe.idle (h : w.Safe numBlocks) (hpending : w.tier.pending = []) :
    (∀ b, b ≠ nullBlockId → (w.tier.pool.blocks b).refCnt = 0) ∧
      w.tier.pool.freeBlockQueue.Perm (List.range numBlocks).tail ∧
      w.tier.pool.freeBlockQueue.countP (fun b => (w.tier.pool.hashOf b).isNone) +
        w.tier.pool.numCachedBlocks = numBlocks - 1 := by
  have hholds : w.tier.pool.Holds 0 := by
    have hholds := h.carries.holds
    rw [hpending] at hholds
    exact hholds
  have hqueue : w.tier.pool.freeBlockQueue.Perm (List.range numBlocks).tail := by
    refine (List.perm_ext_iff_of_nodup hholds.queue_nodup List.nodup_range.tail).mpr fun b => ?_
    rw [hholds.queue_iff, h.size]
    have hmem : b ∈ List.range numBlocks ↔ b = 0 ∨ b ∈ (List.range numBlocks).tail := by
      obtain ⟨m, rfl⟩ : ∃ m, numBlocks = m + 1 :=
        ⟨numBlocks - 1, by have := h.size ▸ hholds.two_le; omega⟩
      rw [List.range_succ_eq_map, List.tail_cons, List.mem_cons]
    rw [List.mem_range] at hmem
    by_cases hb : b = 0
    · simp [hb]
    · simp [hb, hmem]
  refine ⟨fun b hb => by rw [hholds.ref b hb]; rfl, hqueue, ?_⟩
  rw [← h.size] at hqueue ⊢
  exact numCachedBlocks_add hholds hqueue

/-- **CPU-tier safety.** After any run of calls and landings from a fresh tier:
a hit was stored and not evicted since; a load in flight reads the rows of its keys; a block handed
out is none that a transfer in flight uses; the load events handed back and those still owed are
those of the jobs returned, one each; a drain hands back exactly what has landed; every further call
returns; and once everything has landed, a drain leaves every block free and every job paid. -/
theorem run_tier_safe {blockSize : Nat} (hstart : create numBlocks blockSize = .ok w)
    {ops : List OffloadOp}
    (hrun : Run (Guarded (fun w op w' => w.step op = .ok w') Allowed) w ops w') :
    (∀ key, w'.tier.lookup key = .hit → key ∈ w'.stored) ∧
    (∀ t ∈ w'.tier.pending, t.kind = .load → ∀ p ∈ t.pairs,
      w'.tier.pool.hashOf p.2 = some p.1 ∧ w'.contents p.2 = some p.1) ∧
    (∀ entries event spec tier, (entries.map Prod.snd).Nodup →
      w'.tier.prepareStore entries event = .ok (spec, tier) →
      ∀ move ∈ spec.moves, ∀ t ∈ w'.tier.pending, move.cpuBlock ∉ t.cpuBlocks) ∧
    (w'.jobs.map LoadSpec.toEvent).Perm
      (w'.events.filter (fun e => decide (e.kind = .load)) ++ owed w'.tier.pending) ∧
    (∃ tier, w'.tier.takeEvents w'.landed =
        .ok ((w'.tier.pending.filter (·.isDone w'.landed)).map Transfer.toEvent, tier) ∧
      tier.pending = w'.tier.pending.filter fun t => !t.isDone w'.landed) ∧
    (∀ op, w'.Allowed op → Matched op → ∃ w'', w'.step op = .ok w'') ∧
    ((∀ t ∈ w'.tier.pending, t.isDone w'.landed = true) →
      ∃ w'', w'.step .takeEvents = .ok w'' ∧ w''.tier.pending = [] ∧
        (∀ b, b ≠ nullBlockId → (w''.tier.pool.blocks b).refCnt = 0) ∧
        w''.tier.pool.freeBlockQueue.Perm (List.range numBlocks).tail ∧
        w''.tier.pool.freeBlockQueue.countP (fun b => (w''.tier.pool.hashOf b).isNone) +
          w''.tier.pool.numCachedBlocks = numBlocks - 1 ∧
        (w''.jobs.map LoadSpec.toEvent).Perm
          (w''.events.filter fun e => decide (e.kind = .load))) := by
  have hsafe : w'.Safe numBlocks := run_safe (create_safe hstart) hrun
  obtain ⟨tier, htake, hpending, -⟩ := CPUTier.takeEvents_ok w'.landed hsafe.parallel hsafe.carries
  refine ⟨fun key => hsafe.stored_of_hit, fun t ht hkind p => hsafe.contents_of_load ht hkind,
    fun entries event spec tier hdistinct hstore move hmove t => hsafe.handed_out hdistinct hstore hmove,
    hsafe.jobs, ⟨tier, htake, hpending⟩, fun op hallowed hmatched => ?_, fun hlanded => ?_⟩
  · obtain ⟨w'', hstep, -⟩ := step_safe hsafe hallowed hmatched
    exact ⟨w'', hstep⟩
  · obtain ⟨w'', hstep, hsafe'⟩ : ∃ w'', w'.step .takeEvents = .ok w'' ∧ w''.Safe numBlocks :=
      step_safe hsafe trivial trivial
    have hempty : w''.tier.pending = [] := by
      simp only [step, htake, ok_bind, pure_eq_ok, Except.ok.injEq] at hstep
      rw [← hstep, hpending, List.filter_eq_nil_iff]
      intro t ht
      simp [hlanded t ht]
    obtain ⟨href, hqueue, hcount⟩ := hsafe'.idle hempty
    refine ⟨w'', hstep, hempty, href, hqueue, hcount, ?_⟩
    have hjobs := hsafe'.jobs
    rwa [hempty, show owed [] = [] from rfl, List.append_nil] at hjobs

/-- A fresh tier of two blocks. -/
def freshTier : OffloadWorld where
  tier.pool.numBlocks := 3
  tier.pool.blockSize := 16
  tier.pool.enableCaching := true
  tier.pool.blocks := Function.update (fun _ => {}) nullBlockId { refCnt := 1 }
  tier.pool.freeBlockQueue := [1, 2]
  tier.pool.cachedBlockHashToBlock := fun _ => []

/-- One key stored, landed and drained, then two loads of it in flight at once. -/
theorem run_tier_safe_overlap : ∃ w : OffloadWorld, w.tier.pending.length = 2 ∧
    w.tier.lookup 77 = .hit ∧ 77 ∈ w.stored := by
  have hstart : create 3 16 = .ok freshTier := rfl
  have hstore : Run (Guarded (fun (w : OffloadWorld) op w' => w.step op = .ok w') Allowed) freshTier
      [.prepareStore [(5, 77)] false] _ := .single ⟨rfl, List.nodup_singleton _⟩
  have hland := hstore.snoc (show Guarded _ Allowed _ (.land 0) _ from
    ⟨rfl, Nat.one_pos, Finset.notMem_empty 0⟩)
  have hdrain := hland.snoc (show Guarded _ Allowed _ .takeEvents _ from ⟨rfl, trivial⟩)
  have hload := hdrain.snoc (show Guarded _ Allowed _ (.prepareLoad [77] [9] false) _ from
    ⟨rfl, trivial⟩)
  have hrun := hload.snoc (show Guarded _ Allowed _ (.prepareLoad [77] [4] false) _ from
    ⟨rfl, trivial⟩)
  refine ⟨_, ?_, ?_, (run_tier_safe hstart hrun).1 77 ?_⟩
  all_goals rfl

end OffloadWorld

end RapidLlm
