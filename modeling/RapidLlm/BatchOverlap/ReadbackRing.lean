import Mathlib.Data.List.Nodup
import Mathlib.Data.List.Perm.Subperm
import Mathlib.Logic.Function.Basic
import RapidLlm.Lib.Run

/-!
# RapidLlm.BatchOverlap.ReadbackRing

**The readback ring** (`StreamPool` of `batch_overlap/overlap.py`).

A readback takes a pinned buffer out of the ring and holds it in the in-use map until the view
it handed out is released. The map is keyed on the address of that view, and the view of an
empty result has none: it is at 0, wherever its buffer is. `Sound` is the condition under which
an empty readback still finds its buffer again; `disciplined_iff` says that the ring keeps its
discipline on exactly the runs that meet it.
-/

namespace RapidLlm

variable {D : Type} [DecidableEq D]

/-- A flat pinned buffer. `serial` numbers the allocations. -/
structure PinnedBuffer (D : Type) where
  serial : Nat
  address : Nat
  dtype : D
  numel : Nat
  deriving DecidableEq

/-- `buffer[:numel]`, with or without a shape of its own. -/
structure HostView (D : Type) where
  buffer : PinnedBuffer D
  numel : Nat
  deriving DecidableEq

/-- `buffer.data_ptr()`: an empty tensor has no address. -/
def PinnedBuffer.dataPtr (buffer : PinnedBuffer D) : Nat :=
  if buffer.numel = 0 then 0 else buffer.address

/-- `view.data_ptr()`. -/
def HostView.dataPtr (view : HostView D) : Nat :=
  if view.numel = 0 then 0 else view.buffer.address

/-- The readback half of the pool: `_spill` and `_in_use`. -/
structure StreamPool (D : Type) where
  enabled : Bool
  spill : List (PinnedBuffer D × Option Nat)
  inUse : Nat → Option (PinnedBuffer D × Option Nat)

namespace StreamPool

/-- `event is not None and not event.query()`. -/
def inFlight (completed : List Nat) (event : Option Nat) : Bool :=
  event.any fun e => e ∉ completed

/-- The loop of `_acquire` over what is left of the ring. -/
def acquireLoop (completed : List Nat) (dtype : D) (numel : Nat) :
    Nat → List (PinnedBuffer D × Option Nat) →
      Option (PinnedBuffer D) × List (PinnedBuffer D × Option Nat)
  | 0, ring => (none, ring)
  | _ + 1, [] => (none, [])
  | n + 1, (buffer, event) :: ring =>
      if inFlight completed event then
        acquireLoop completed dtype numel n (ring ++ [(buffer, event)])
      else if buffer.dtype = dtype ∧ numel ≤ buffer.numel then (some buffer, ring)
      else acquireLoop completed dtype numel n ring

/-- `_acquire`: a free buffer of the ring that holds `numel` elements of `dtype`, if there is
one, and what stays in the ring. -/
def acquire (completed : List Nat) (dtype : D) (numel : Nat)
    (ring : List (PinnedBuffer D × Option Nat)) :
    Option (PinnedBuffer D) × List (PinnedBuffer D × Option Nat) :=
  acquireLoop completed dtype numel ring.length ring

variable (pool : StreamPool D)

/-- `readback_async`: the view handed out and the event of its copy. `fresh` is what an
allocation would return. -/
def readbackAsync (completed : List Nat) (fresh : PinnedBuffer D) (event : Nat) (dtype : D)
    (numel : Nat) : StreamPool D × HostView D × Option Nat :=
  if ¬ pool.enabled then (pool, ⟨fresh, numel⟩, none)
  else
    let (found, ring) := acquire completed dtype numel pool.spill
    let pinned := found.getD fresh
    ({ pool with
        spill := ring
        inUse := Function.update pool.inUse pinned.dataPtr (some (pinned, some event)) },
      ⟨pinned, numel⟩, some event)

/-- `release_readback`. -/
def releaseReadback (view : HostView D) : StreamPool D :=
  match pool.inUse view.dataPtr with
  | none => pool
  | some entry =>
      { pool with
        spill := pool.spill ++ [entry]
        inUse := Function.update pool.inUse view.dataPtr none }

omit [DecidableEq D] in
/-- A release leaves the entries at other keys. -/
theorem releaseReadback_inUse_of_ne {view : HostView D} {key : Nat} (h : key ≠ view.dataPtr) :
    (pool.releaseReadback view).inUse key = pool.inUse key := by
  rw [releaseReadback]
  split
  · rfl
  · exact Function.update_of_ne h ..

end StreamPool

/-! ### The world around the pool -/

/-- The pool with what it cannot see: the copies that have completed, the views that have not
been released, the last copy into every buffer, and how many buffers and events there have
been. -/
structure ReadbackWorld (D : Type) where
  pool : StreamPool D
  completed : List Nat
  views : List (HostView D)
  lastCopy : Nat → Option Nat
  allocated : Nat
  events : Nat

/-- A call, or a copy landing. `address` is where an allocation would be. -/
inductive ReadbackOp (D : Type)
  | readback (dtype : D) (numel address : Nat)
  | complete (event : Nat)
  | release (view : HostView D)

namespace ReadbackWorld

open StreamPool

/-- A new pool. -/
def start (enabled : Bool) : ReadbackWorld D where
  pool := ⟨enabled, [], fun _ => none⟩
  completed := []
  views := []
  lastCopy := fun _ => none
  allocated := 0
  events := 0

variable (w : ReadbackWorld D)

/-- The buffers in the ring. -/
def ring : List (PinnedBuffer D) := w.pool.spill.map Prod.fst

/-- The buffer at a key of the in-use map. -/
def lentAt (key : Nat) : Option (PinnedBuffer D) := (w.pool.inUse key).map Prod.fst

/-- `torch.empty(numel, dtype=dtype, pin_memory=True)`. -/
def fresh (dtype : D) (numel address : Nat) : PinnedBuffer D := ⟨w.allocated, address, dtype, numel⟩

/-- The world after a call. -/
def apply : ReadbackOp D → ReadbackWorld D
  | .readback dtype numel address =>
      let (pool, view, event) := w.pool.readbackAsync w.completed (w.fresh dtype numel address)
        w.events dtype numel
      { w with
        pool := pool
        views := w.views ++ [view]
        lastCopy := Function.update w.lastCopy view.buffer.serial event
        allocated := w.allocated + 1
        events := w.events + 1 }
  | .complete event => { w with completed := event :: w.completed }
  | .release view =>
      { w with
        pool := w.pool.releaseReadback view
        views := w.views.erase view }

/-- What may happen: an allocation with elements has an address of its own among the buffers
that are still referenced, and a view is released once. -/
def Legal : ReadbackOp D → Prop
  | .readback dtype numel address => 0 < numel → address ≠ 0 ∧
      (∀ entry ∈ (acquire w.completed dtype numel w.pool.spill).2,
        0 < entry.1.numel → entry.1.address ≠ address) ∧
      (∀ key buffer, w.lentAt key = some buffer → 0 < buffer.numel → buffer.address ≠ address) ∧
      ∀ view ∈ w.views, 0 < view.buffer.numel → view.buffer.address ≠ address
  | .complete event => event < w.events
  | .release view => view ∈ w.views

def Step (w : ReadbackWorld D) (op : ReadbackOp D) (w' : ReadbackWorld D) : Prop :=
  w.Legal op ∧ w' = w.apply op

/-! ### The discipline -/

/-- Referenced by the ring, by the in-use map or by a view. -/
def Live (buffer : PinnedBuffer D) : Prop :=
  buffer ∈ w.ring ∨ (∃ key, w.lentAt key = some buffer) ∨ ∃ view ∈ w.views, view.buffer = buffer

/-- What the pool promises. -/
structure Disciplined (w : ReadbackWorld D) : Prop where
  /-- a live buffer is in exactly one of the ring and the in-use map, and there once -/
  owned : ∀ buffer, w.Live buffer →
    (w.ring.count buffer = 1 ∧ ∀ key, w.lentAt key ≠ some buffer) ∨
      (buffer ∉ w.ring ∧ ∃! key, w.lentAt key = some buffer)
  /-- no two views are of one buffer -/
  once : (w.views.map HostView.buffer).Nodup
  /-- whatever is asked for next, a buffer of the ring is handed out only when no view is of it
  and its last copy has completed -/
  next : ∀ dtype numel buffer, (acquire w.completed dtype numel w.pool.spill).1 = some buffer →
    (∀ view ∈ w.views, view.buffer ≠ buffer) ∧
      ∀ event, w.lastCopy buffer.serial = some event → event ∈ w.completed
  /-- with every view released nothing is in use -/
  drained : w.views = [] → ∀ key, w.pool.inUse key = none

/-- The first buffer of a dtype in the ring that no copy is writing. -/
def firstFree (dtype : D) : Option (PinnedBuffer D × Option Nat) :=
  w.pool.spill.find? fun entry => !inFlight w.completed entry.2 && entry.1.dtype = dtype

/-- An empty result is read back only when no empty view is out and the ring does not offer a
buffer with elements for it. -/
def Sound : ReadbackOp D → Prop
  | .readback dtype numel _ => numel = 0 →
      (∀ view ∈ w.views, view.numel ≠ 0) ∧ ∀ entry ∈ w.firstFree dtype, entry.1.numel = 0
  | .complete _ => True
  | .release _ => True

end ReadbackWorld

/-! ### What `_acquire` finds -/

namespace StreamPool

variable {completed : List Nat} {dtype : D} {numel : Nat}

/-- What is found was free and is out of the ring; the ring is only rotated and thinned. -/
theorem acquireLoop_cases : ∀ (n : Nat) (ring : List (PinnedBuffer D × Option Nat)),
    (∃ buffer event, (acquireLoop completed dtype numel n ring).1 = some buffer ∧
      inFlight completed event = false ∧ buffer.dtype = dtype ∧ numel ≤ buffer.numel ∧
      ((buffer, event) :: (acquireLoop completed dtype numel n ring).2).Subperm ring) ∨
    ((acquireLoop completed dtype numel n ring).1 = none ∧
      (acquireLoop completed dtype numel n ring).2.Subperm ring)
  | 0, ring => .inr ⟨rfl, List.Subperm.refl ring⟩
  | _ + 1, [] => .inr ⟨rfl, List.Subperm.refl []⟩
  | n + 1, (buffer, event) :: ring => by
      rw [acquireLoop]
      split
      · -- still in flight: back to the end
        have hperm : (ring ++ [(buffer, event)]).Subperm ((buffer, event) :: ring) :=
          (List.perm_append_singleton _ _).subperm
        rcases acquireLoop_cases n (ring ++ [(buffer, event)]) with
          ⟨found, mark, hfound, hfree, hdtype, hnumel, hrest⟩ | ⟨hnone, hrest⟩
        · exact .inl ⟨found, mark, hfound, hfree, hdtype, hnumel, hrest.trans hperm⟩
        · exact .inr ⟨hnone, hrest.trans hperm⟩
      · next hfree =>
          split
          · next hfits =>
              exact .inl ⟨buffer, event, rfl, Bool.eq_false_iff.mpr hfree, hfits.1, hfits.2,
                List.Subperm.refl _⟩
          · have htail : ring.Subperm ((buffer, event) :: ring) :=
              (List.sublist_cons_self _ _).subperm
            rcases acquireLoop_cases n ring with
              ⟨found, mark, hfound, hfree, hdtype, hnumel, hrest⟩ | ⟨hnone, hrest⟩
            · exact .inl ⟨found, mark, hfound, hfree, hdtype, hnumel, hrest.trans htail⟩
            · exact .inr ⟨hnone, hrest.trans htail⟩

theorem acquire_cases (completed : List Nat) (dtype : D) (numel : Nat)
    (ring : List (PinnedBuffer D × Option Nat)) :
    (∃ buffer event, (acquire completed dtype numel ring).1 = some buffer ∧
      inFlight completed event = false ∧ numel ≤ buffer.numel ∧
      ((buffer, event) :: (acquire completed dtype numel ring).2).Subperm ring) ∨
    ((acquire completed dtype numel ring).1 = none ∧
      (acquire completed dtype numel ring).2.Subperm ring) := by
  rcases acquireLoop_cases ring.length ring with
    ⟨buffer, event, hfound, hfree, -, hnumel, hrest⟩ | hnone
  · exact .inl ⟨buffer, event, hfound, hfree, hnumel, hrest⟩
  · exact .inr hnone

/-- Asked for nothing, the loop takes the first free buffer of the dtype. -/
theorem acquireLoop_zero : ∀ (front back : List (PinnedBuffer D × Option Nat)),
    (acquireLoop completed dtype 0 front.length (front ++ back)).1 =
      (front.find? fun entry =>
        !inFlight completed entry.2 && entry.1.dtype = dtype).map Prod.fst
  | [], back => rfl
  | (buffer, event) :: front, back => by
      rw [List.length_cons, List.cons_append, acquireLoop]
      by_cases hbusy : inFlight completed event = true
      · rw [if_pos hbusy, List.append_assoc, acquireLoop_zero front,
          List.find?_cons_of_neg (by simp [hbusy])]
      · rw [if_neg hbusy]
        by_cases hdtype : buffer.dtype = dtype
        · rw [if_pos ⟨hdtype, Nat.zero_le _⟩, List.find?_cons_of_pos (by simp [hbusy, hdtype])]
          rfl
        · rw [if_neg fun h => hdtype h.1, acquireLoop_zero front,
            List.find?_cons_of_neg (by simp [hdtype])]

theorem acquire_zero (completed : List Nat) (dtype : D)
    (ring : List (PinnedBuffer D × Option Nat)) :
    (acquire completed dtype 0 ring).1 = (ring.find? fun entry =>
      !inFlight completed entry.2 && entry.1.dtype = dtype).map Prod.fst := by
  have hloop : (acquireLoop completed dtype 0 ring.length (ring ++ [])).1 = _ :=
    acquireLoop_zero ring []
  rwa [List.append_nil] at hloop

end StreamPool

namespace ReadbackWorld

open StreamPool

variable {w w' : ReadbackWorld D}

/-! ### Ownership -/

/-- The buffers in the ring, and those of the views. -/
def held (w : ReadbackWorld D) : List (PinnedBuffer D) := w.ring ++ w.views.map HostView.buffer

/-- How the pool keeps track: every view is found at its address. -/
structure Owned (w : ReadbackWorld D) : Prop where
  enabled : w.pool.enabled = true
  apart : (w.held.map PinnedBuffer.serial).Nodup
  keys : (w.views.map HostView.dataPtr).Nodup
  handed : ∀ key buffer, w.lentAt key = some buffer ↔
    ∃ view ∈ w.views, view.dataPtr = key ∧ view.buffer = buffer
  whole : ∀ view ∈ w.views, view.numel = 0 ↔ view.buffer.numel = 0
  addressed : ∀ buffer ∈ w.held, 0 < buffer.numel → buffer.address ≠ 0
  distinct : ∀ buffer ∈ w.held, ∀ other ∈ w.held, 0 < buffer.numel → 0 < other.numel →
    buffer.address = other.address → buffer = other
  marked : ∀ entry ∈ w.pool.spill, entry.2 = w.lastCopy entry.1.serial
  lentMarked : ∀ key entry, w.pool.inUse key = some entry → entry.2 = w.lastCopy entry.1.serial
  numbered : ∀ buffer ∈ w.held, buffer.serial < w.allocated

namespace Owned

omit [DecidableEq D] in
theorem start : (start true : ReadbackWorld D).Owned where
  enabled := rfl
  apart := List.nodup_nil
  keys := List.nodup_nil
  handed := by simp [lentAt, ReadbackWorld.start]
  whole := by simp [ReadbackWorld.start]
  addressed := by simp [held, ring, ReadbackWorld.start]
  distinct := by simp [held, ring, ReadbackWorld.start]
  marked := by simp [ReadbackWorld.start]
  lentMarked := by simp [ReadbackWorld.start]
  numbered := by simp [held, ring, ReadbackWorld.start]

omit [DecidableEq D] in
/-- A view is at the address of its buffer. -/
theorem dataPtr_eq (h : w.Owned) {view : HostView D} (hview : view ∈ w.views) :
    view.dataPtr = view.buffer.dataPtr := by
  simp only [HostView.dataPtr, PinnedBuffer.dataPtr, h.whole view hview]

omit [DecidableEq D] in
theorem held_nodup (h : w.Owned) : w.held.Nodup :=
  List.Nodup.of_map _ h.apart

omit [DecidableEq D] in
theorem ring_nodup (h : w.Owned) : w.ring.Nodup := (List.nodup_append.mp h.held_nodup).1

omit [DecidableEq D] in
theorem once (h : w.Owned) : (w.views.map HostView.buffer).Nodup :=
  (List.nodup_append.mp h.held_nodup).2.1

omit [DecidableEq D] in
/-- A buffer of the ring has no view. -/
theorem ring_ne (h : w.Owned) {buffer : PinnedBuffer D} (hring : buffer ∈ w.ring)
    {view : HostView D} (hview : view ∈ w.views) : view.buffer ≠ buffer := fun heq =>
  (List.nodup_append.mp h.held_nodup).2.2 buffer hring view.buffer
    (List.mem_map_of_mem hview) heq.symm

/-- What is found in the ring. -/
theorem of_acquire (h : w.Owned) {dtype : D} {numel : Nat} {buffer : PinnedBuffer D}
    (hfound : (acquire w.completed dtype numel w.pool.spill).1 = some buffer) :
    buffer ∈ w.ring ∧ numel ≤ buffer.numel ∧
      ∀ event, w.lastCopy buffer.serial = some event → event ∈ w.completed := by
  rcases acquire_cases w.completed dtype numel w.pool.spill with
    ⟨found, mark, heq, hfree, hnumel, hrest⟩ | ⟨hnone, -⟩
  · obtain rfl : found = buffer := Option.some.inj (heq.symm.trans hfound)
    have hmem : (found, mark) ∈ w.pool.spill := hrest.subset (List.mem_cons_self ..)
    refine ⟨List.mem_map_of_mem hmem, hnumel, fun event hlast => ?_⟩
    have hmark : mark = some event := (h.marked _ hmem).trans hlast
    rw [hmark] at hfree
    simpa [inFlight] using hfree
  · exact absurd (hnone.symm.trans hfound) (by simp)

/-- **A pool that finds every view keeps its discipline.** -/
theorem disciplined (h : w.Owned) : w.Disciplined where
  owned := by
    intro buffer hlive
    by_cases hring : buffer ∈ w.ring
    · refine .inl ⟨List.count_eq_one_of_mem h.ring_nodup hring, fun key hkey => ?_⟩
      obtain ⟨view, hview, -, heq⟩ := (h.handed key buffer).mp hkey
      exact h.ring_ne hring hview heq
    · refine .inr ⟨hring, ?_⟩
      obtain ⟨view, hview, heq⟩ : ∃ view ∈ w.views, view.buffer = buffer := by
        rcases hlive with hmem | ⟨key, hkey⟩ | hview
        · exact absurd hmem hring
        · obtain ⟨view, hview, -, heq⟩ := (h.handed key buffer).mp hkey
          exact ⟨view, hview, heq⟩
        · exact hview
      refine ⟨view.dataPtr, (h.handed _ _).mpr ⟨view, hview, rfl, heq⟩, fun key hkey => ?_⟩
      obtain ⟨other, hother, rfl, hsame⟩ := (h.handed key buffer).mp hkey
      exact congrArg HostView.dataPtr
        (List.inj_on_of_nodup_map h.once hother hview (hsame.trans heq.symm))
  once := h.once
  next := fun dtype numel buffer hfound =>
    have hacquired := h.of_acquire hfound
    ⟨fun _ hview => h.ring_ne hacquired.1 hview, hacquired.2.2⟩
  drained := by
    intro hviews key
    cases hentry : w.pool.inUse key with
    | none => rfl
    | some entry =>
      obtain ⟨view, hview, -⟩ := (h.handed key entry.1).mp (by simp [lentAt, hentry])
      rw [hviews] at hview
      exact absurd hview List.not_mem_nil

end Owned

/-! ### What a step keeps -/

/-- The world once a buffer is lent out and `rest` is left in the ring. -/
def lend (w : ReadbackWorld D) (rest : List (PinnedBuffer D × Option Nat))
    (buffer : PinnedBuffer D) (numel : Nat) : ReadbackWorld D where
  pool :=
    { w.pool with
      spill := rest
      inUse := Function.update w.pool.inUse buffer.dataPtr (some (buffer, some w.events)) }
  completed := w.completed
  views := w.views ++ [⟨buffer, numel⟩]
  lastCopy := Function.update w.lastCopy buffer.serial (some w.events)
  allocated := w.allocated + 1
  events := w.events + 1

section

variable (rest : List (PinnedBuffer D × Option Nat)) (buffer : PinnedBuffer D) (numel : Nat)

omit [DecidableEq D]

@[simp] theorem lend_views : (w.lend rest buffer numel).views = w.views ++ [⟨buffer, numel⟩] := rfl

@[simp] theorem lend_inUse : (w.lend rest buffer numel).pool.inUse =
    Function.update w.pool.inUse buffer.dataPtr (some (buffer, some w.events)) := rfl

@[simp] theorem lend_lastCopy : (w.lend rest buffer numel).lastCopy =
    Function.update w.lastCopy buffer.serial (some w.events) := rfl

@[simp] theorem lend_ring : (w.lend rest buffer numel).ring = rest.map Prod.fst := rfl

end

/-- What a readback does with the policy on. -/
theorem apply_readback (hon : w.pool.enabled = true) (dtype : D) (numel address : Nat) :
    w.apply (.readback dtype numel address) =
      w.lend (acquire w.completed dtype numel w.pool.spill).2
        ((acquire w.completed dtype numel w.pool.spill).1.getD (w.fresh dtype numel address))
        numel := by
  have hnot : ¬ ¬ w.pool.enabled = true := fun h => h hon
  simp only [apply, readbackAsync, if_neg hnot]
  rfl

/-- A buffer that may be lent: out of the ring, no view of it, its address its own, and the
view of it as long as the buffer where that matters. -/
structure Lendable (w : ReadbackWorld D) (rest : List (PinnedBuffer D × Option Nat))
    (buffer : PinnedBuffer D) (numel : Nat) : Prop where
  left : rest.Subperm w.pool.spill
  apart : ∀ other ∈ rest.map Prod.fst ++ w.views.map HostView.buffer,
    other.serial ≠ buffer.serial
  fits : numel ≤ buffer.numel
  empty : numel = 0 → buffer.numel = 0
  alone : buffer.numel = 0 → ∀ view ∈ w.views, view.buffer.numel ≠ 0
  addressed : 0 < buffer.numel → buffer.address ≠ 0
  distinct : ∀ other ∈ rest.map Prod.fst ++ w.views.map HostView.buffer, 0 < buffer.numel →
    0 < other.numel → other.address ≠ buffer.address
  numbered : buffer.serial ≤ w.allocated

namespace Owned

omit [DecidableEq D] in
/-- Lending such a buffer keeps track of it. -/
theorem lend (h : w.Owned) {rest : List (PinnedBuffer D × Option Nat)} {buffer : PinnedBuffer D}
    {numel : Nat} (hlend : w.Lendable rest buffer numel) : (w.lend rest buffer numel).Owned := by
  have hrest : (rest.map Prod.fst ++ w.views.map HostView.buffer).Subperm w.held := by
    obtain ⟨l, hperm, hsub⟩ := hlend.left
    exact (List.subperm_append_right _).mpr ⟨l.map Prod.fst, hperm.map _, hsub.map _⟩
  have hheld : (w.lend rest buffer numel).held.Perm
      (buffer :: (rest.map Prod.fst ++ w.views.map HostView.buffer)) := by
    rw [held, ring, ReadbackWorld.lend, List.map_append, ← List.append_assoc]
    exact List.perm_append_singleton _ _
  have hmem : ∀ other ∈ (w.lend rest buffer numel).held, other = buffer ∨
      other ∈ rest.map Prod.fst ++ w.views.map HostView.buffer := fun other hother =>
    List.mem_cons.mp (hheld.subset hother)
  have hviews : ∀ view ∈ w.views, view.buffer ∈ rest.map Prod.fst ++ w.views.map HostView.buffer :=
    fun view hview => List.mem_append_right _ (List.mem_map_of_mem hview)
  have hzero : numel = 0 ↔ buffer.numel = 0 :=
    ⟨hlend.empty, fun hempty => Nat.le_zero.mp (hempty ▸ hlend.fits)⟩
  have hview : (⟨buffer, numel⟩ : HostView D).dataPtr = buffer.dataPtr := by
    simp only [HostView.dataPtr, PinnedBuffer.dataPtr, hzero]
  have hkey : ∀ view ∈ w.views, view.dataPtr ≠ buffer.dataPtr := by
    intro view hv
    rw [h.dataPtr_eq hv]
    have hheld : view.buffer ∈ w.held := List.mem_append_right _ (List.mem_map_of_mem hv)
    simp only [PinnedBuffer.dataPtr]
    by_cases hzero : buffer.numel = 0
    · rw [if_pos hzero, if_neg (hlend.alone hzero view hv)]
      exact h.addressed _ hheld (Nat.pos_of_ne_zero (hlend.alone hzero view hv))
    · rw [if_neg hzero]
      have hpos := Nat.pos_of_ne_zero hzero
      split
      · exact (hlend.addressed hpos).symm
      · next hne => exact hlend.distinct _ (hviews view hv) hpos (Nat.pos_of_ne_zero hne)
  have hother : ∀ key entry, w.pool.inUse key = some entry →
      key ≠ buffer.dataPtr ∧ entry.1.serial ≠ buffer.serial := by
    intro key entry hentry
    obtain ⟨view, hv, rfl, heq⟩ := (h.handed key entry.1).mp (by simp [lentAt, hentry])
    exact ⟨hkey view hv, heq ▸ hlend.apart _ (hviews view hv)⟩
  have hold : ∀ other ∈ rest.map Prod.fst ++ w.views.map HostView.buffer, other ∈ w.held :=
    fun other hother => hrest.subset hother
  exact
    { enabled := h.enabled
      apart := by
        rw [(hheld.map _).nodup_iff, List.map_cons, List.nodup_cons]
        refine ⟨fun hmem => ?_, ?_⟩
        · obtain ⟨other, hother, heq⟩ := List.mem_map.mp hmem
          exact hlend.apart other hother heq
        · obtain ⟨l, hperm, hsub⟩ := hrest
          exact (hperm.map _).nodup_iff.mp ((hsub.map _).nodup h.apart)
      keys := by
        rw [ReadbackWorld.lend, List.map_append, List.nodup_append]
        refine ⟨h.keys, List.nodup_singleton _, fun key hmem other hsingle => ?_⟩
        obtain ⟨view, hv, rfl⟩ := List.mem_map.mp hmem
        rw [List.mem_singleton.mp hsingle, hview]
        exact hkey view hv
      handed := by
        intro key other
        have hviews' : ∀ view, view ∈ (w.lend rest buffer numel).views ↔
            view ∈ w.views ∨ view = ⟨buffer, numel⟩ := fun view => by
          rw [lend_views, List.mem_append, List.mem_singleton]
        rw [lentAt, lend_inUse]
        by_cases heq : key = buffer.dataPtr
        · subst heq
          rw [Function.update_self, Option.map_some, Option.some.injEq]
          constructor
          · rintro rfl
            exact ⟨_, (hviews' _).mpr (.inr rfl), hview, rfl⟩
          · rintro ⟨view, hv, hptr, rfl⟩
            rcases (hviews' view).mp hv with hv | rfl
            · exact absurd hptr (hkey view hv)
            · rfl
        · rw [Function.update_of_ne heq]
          refine (h.handed key other).trans ⟨?_, ?_⟩
          · rintro ⟨view, hv, hptr⟩
            exact ⟨view, (hviews' view).mpr (.inl hv), hptr⟩
          · rintro ⟨view, hv, hptr, rfl⟩
            rcases (hviews' view).mp hv with hv | rfl
            · exact ⟨view, hv, hptr, rfl⟩
            · exact absurd (hptr.symm.trans hview) heq
      whole := by
        intro view hv
        rcases List.mem_append.mp hv with hv | hv
        · exact h.whole view hv
        · rw [List.mem_singleton.mp hv]
          exact hzero
      addressed := by
        intro other hother hpos
        rcases hmem other hother with rfl | hother
        · exact hlend.addressed hpos
        · exact h.addressed other (hold other hother) hpos
      distinct := by
        intro a ha b hb hposA hposB heq
        rcases hmem a ha with hA | hA <;> rcases hmem b hb with hB | hB
        · rw [hA, hB]
        · subst hA
          exact absurd heq.symm (hlend.distinct b hB hposA hposB)
        · subst hB
          exact absurd heq (hlend.distinct a hA hposB hposA)
        · exact h.distinct a (hold a hA) b (hold b hB) hposA hposB heq
      marked := by
        intro entry hentry
        have hne := hlend.apart entry.1 (List.mem_append_left _ (List.mem_map_of_mem hentry))
        rw [lend_lastCopy, Function.update_of_ne hne]
        exact h.marked entry (hlend.left.subset hentry)
      lentMarked := by
        intro key entry hentry
        rw [lend_inUse] at hentry
        rw [lend_lastCopy]
        by_cases heq : key = buffer.dataPtr
        · rw [heq, Function.update_self] at hentry
          obtain rfl := Option.some.inj hentry
          rw [Function.update_self]
        · rw [Function.update_of_ne heq] at hentry
          rw [Function.update_of_ne (hother key entry hentry).2]
          exact h.lentMarked key entry hentry
      numbered := by
        intro other hother
        rcases hmem other hother with rfl | hother
        · exact Nat.lt_succ_of_le hlend.numbered
        · exact Nat.lt_succ_of_lt (h.numbered other (hold other hother)) }

/-- A sound readback lends a buffer that may be lent. -/
theorem lendable (h : w.Owned) {dtype : D} {numel address : Nat}
    (hlegal : w.Legal (.readback dtype numel address))
    (hsound : w.Sound (.readback dtype numel address)) :
    w.Lendable (acquire w.completed dtype numel w.pool.spill).2
      ((acquire w.completed dtype numel w.pool.spill).1.getD (w.fresh dtype numel address))
      numel := by
  have halone : numel = 0 → ∀ view ∈ w.views, view.buffer.numel ≠ 0 := fun hzero view hview =>
    fun hempty => (hsound hzero).1 view hview ((h.whole view hview).mpr hempty)
  rcases acquire_cases w.completed dtype numel w.pool.spill with
    ⟨buffer, mark, hfound, -, hfits, hrest⟩ | ⟨hnone, hrest⟩
  · -- a buffer of the ring
    rw [hfound, Option.getD_some]
    have hring : buffer ∈ w.ring := List.mem_map_of_mem (hrest.subset (List.mem_cons_self ..))
    have hheld : buffer ∈ w.held := List.mem_append_left _ hring
    have hempty : numel = 0 → buffer.numel = 0 := by
      intro hzero
      have hfirst := acquire_zero w.completed dtype w.pool.spill
      subst hzero
      rw [hfound] at hfirst
      obtain ⟨entry, hentry, heq⟩ := Option.map_eq_some_iff.mp hfirst.symm
      rw [← heq]
      exact (hsound rfl).2 entry hentry
    have hall : ∃ l : List (PinnedBuffer D), l.Perm (buffer :: ((acquire w.completed dtype numel w.pool.spill).2.map
        Prod.fst ++ w.views.map HostView.buffer)) ∧ l.Sublist w.held := by
      obtain ⟨l, hperm, hsub⟩ := hrest
      exact ⟨l.map Prod.fst ++ w.views.map HostView.buffer, (hperm.map _).append_right _,
        (hsub.map _).append_right _⟩
    obtain ⟨l, hperm, hsub⟩ := hall
    have hnodup := (hperm.map PinnedBuffer.serial).nodup_iff.mp ((hsub.map _).nodup h.apart)
    have hold : ∀ other ∈ (acquire w.completed dtype numel w.pool.spill).2.map Prod.fst ++
        w.views.map HostView.buffer, other ∈ w.held := fun other hother =>
      hsub.subset (hperm.symm.subset (.tail _ hother))
    have hapart : ∀ other ∈ (acquire w.completed dtype numel w.pool.spill).2.map Prod.fst ++
        w.views.map HostView.buffer, other.serial ≠ buffer.serial := fun other hother heq =>
      (List.nodup_cons.mp hnodup).1 (heq ▸ List.mem_map_of_mem hother)
    exact
      { left := (List.sublist_cons_self _ _).subperm.trans hrest
        apart := hapart
        fits := hfits
        empty := hempty
        alone := fun hzero => halone (Nat.le_zero.mp (hzero ▸ hfits))
        addressed := h.addressed buffer hheld
        distinct := fun other hother hpos hpos' heq =>
          hapart other hother (congrArg _ (h.distinct other (hold other hother) buffer hheld
            hpos' hpos heq))
        numbered := Nat.le_of_lt (h.numbered buffer hheld) }
  · -- a new one
    rw [hnone, Option.getD_none]
    have hold : ∀ other ∈ (acquire w.completed dtype numel w.pool.spill).2.map Prod.fst ++
        w.views.map HostView.buffer, other.serial < w.allocated := by
      intro other hother
      refine h.numbered other ?_
      rcases List.mem_append.mp hother with hmem | hmem
      · obtain ⟨entry, hentry, rfl⟩ := List.mem_map.mp hmem
        exact List.mem_append_left _ (List.mem_map_of_mem (hrest.subset hentry))
      · exact List.mem_append_right _ hmem
    exact
      { left := hrest
        apart := fun other hother => Nat.ne_of_lt (hold other hother)
        fits := Nat.le_refl _
        empty := id
        alone := halone
        addressed := fun hpos => (hlegal hpos).1
        distinct := by
          intro other hother hpos hpos'
          rcases List.mem_append.mp hother with hmem | hmem
          · obtain ⟨entry, hentry, rfl⟩ := List.mem_map.mp hmem
            exact (hlegal hpos).2.1 entry hentry hpos'
          · obtain ⟨view, hview, rfl⟩ := List.mem_map.mp hmem
            exact (hlegal hpos).2.2.2 view hview hpos'
        numbered := Nat.le_refl _ }

/-- A view that is released is found, and its buffer goes back to the ring. -/
theorem release (h : w.Owned) {view : HostView D} (hview : view ∈ w.views) :
    (w.apply (.release view)).Owned := by
  obtain ⟨entry, hentry, hbuffer⟩ : ∃ entry, w.pool.inUse view.dataPtr = some entry ∧
      entry.1 = view.buffer :=
    Option.map_eq_some_iff.mp ((h.handed _ _).mpr ⟨view, hview, rfl, rfl⟩)
  have hpool : w.pool.releaseReadback view =
      { w.pool with
        spill := w.pool.spill ++ [entry]
        inUse := Function.update w.pool.inUse view.dataPtr none } := by
    rw [releaseReadback, hentry]
  have hheld : (w.apply (.release view)).held.Perm w.held := by
    rw [held, ring, apply, hpool, held, ring, List.map_append, List.map_singleton, hbuffer,
      List.append_assoc]
    exact ((List.perm_cons_erase hview).map _).symm.append_left _
  have hin : ∀ buffer ∈ (w.apply (.release view)).held, buffer ∈ w.held := fun buffer hmem =>
    hheld.subset hmem
  have hviews : w.views.Nodup := List.Nodup.of_map _ h.keys
  have hlent : ∀ key, (w.apply (.release view)).pool.inUse key =
      if key = view.dataPtr then none else w.pool.inUse key := fun key => by
    rw [apply, hpool]
    exact Function.update_apply ..
  exact
    { enabled := by
        rw [apply, hpool]
        exact h.enabled
      apart := (hheld.map _).nodup_iff.mpr h.apart
      keys := h.keys.sublist (List.erase_sublist.map _)
      handed := by
        intro key buffer
        rw [lentAt, hlent]
        split
        · next heq =>
            refine iff_of_false (by simp) ?_
            rintro ⟨other, hother, hptr, -⟩
            have hmem := (hviews.mem_erase_iff).mp hother
            exact hmem.1 (List.inj_on_of_nodup_map h.keys hmem.2 hview (hptr.trans heq))
        · next hne =>
            refine (h.handed key buffer).trans ⟨?_, ?_⟩
            · rintro ⟨other, hother, hptr, heq⟩
              have hother' : other ≠ view := fun hsame => hne (hsame ▸ hptr.symm)
              exact ⟨other, hviews.mem_erase_iff.mpr ⟨hother', hother⟩, hptr, heq⟩
            · rintro ⟨other, hother, hptr, heq⟩
              exact ⟨other, List.mem_of_mem_erase hother, hptr, heq⟩
      whole := fun other hother => h.whole other (List.mem_of_mem_erase hother)
      addressed := fun buffer hmem => h.addressed buffer (hin buffer hmem)
      distinct := fun a ha b hb => h.distinct a (hin a ha) b (hin b hb)
      marked := by
        intro other hother
        rw [apply, hpool] at hother
        rcases List.mem_append.mp hother with hmem | hmem
        · exact h.marked other hmem
        · rw [List.mem_singleton.mp hmem]
          exact h.lentMarked _ _ hentry
      lentMarked := by
        intro key other hother
        rw [hlent] at hother
        split at hother
        · exact absurd hother (by simp)
        · exact h.lentMarked key other hother
      numbered := fun buffer hmem => h.numbered buffer (hin buffer hmem) }

/-- **What a sound step keeps.** -/
theorem step (h : w.Owned) {op : ReadbackOp D} (hstep : w.Step op w') (hsound : w.Sound op) :
    w'.Owned := by
  obtain ⟨hlegal, rfl⟩ := hstep
  cases op with
  | readback dtype numel address =>
    rw [apply_readback h.enabled]
    exact h.lend (h.lendable hlegal hsound)
  | complete event => exact ⟨h.1, h.2, h.3, h.4, h.5, h.6, h.7, h.8, h.9, h.10⟩
  | release view => exact h.release hlegal

end Owned

/-! ### Releasing what is out -/

/-- Only releases. -/
def Releases (ops : List (ReadbackOp D)) : Prop := ∀ op ∈ ops, ∃ view, op = .release view

theorem Owned.releases (h : w.Owned) {ops : List (ReadbackOp D)} (hops : Releases ops)
    (hrun : Run Step w ops w') : w'.Owned := by
  have hguarded : Run (Guarded Step Sound) w ops w' := hrun.guarded fun s op hop => by
    obtain ⟨view, rfl⟩ := hops op hop
    exact trivial
  exact hguarded.invariant (fun _ _ _ hI hst => hI.step hst.1 hst.2) h

/-- Releasing every view leaves an entry that no view is at the address of. -/
theorem drain {key : Nat} {entry : PinnedBuffer D × Option Nat} : ∀ (views : List (HostView D))
    (w : ReadbackWorld D), w.views = views → w.pool.inUse key = some entry →
    (∀ view ∈ views, view.dataPtr ≠ key) → ∃ ops w', Releases ops ∧ Run Step w ops w' ∧
      w'.views = [] ∧ w'.pool.inUse key = some entry
  | [], w, hviews, hkey, _ => ⟨[], w, fun _ hop => absurd hop List.not_mem_nil, .nil, hviews, hkey⟩
  | view :: views, w, hviews, hkey, hne => by
      have hstep : Step w (.release view) (w.apply (.release view)) :=
        ⟨show view ∈ w.views from hviews.symm ▸ List.mem_cons_self .., rfl⟩
      have hkept : (w.apply (.release view)).pool.inUse key = some entry :=
        (w.pool.releaseReadback_inUse_of_ne (hne view (List.mem_cons_self ..)).symm).trans hkey
      obtain ⟨ops, w', hops, hrun, hempty, hleft⟩ := drain views (w.apply (.release view))
        (by rw [apply, hviews, List.erase_cons_head]) hkept fun other hother =>
          hne other (.tail view hother)
      refine ⟨.release view :: ops, w', ?_, (Run.single hstep).trans hrun, hempty, hleft⟩
      intro op hop
      rcases List.mem_cons.mp hop with rfl | hop
      · exact ⟨view, rfl⟩
      · exact hops op hop

/-- After the call the pool keeps its discipline, however its views are released. -/
def Keeps (w : ReadbackWorld D) (op : ReadbackOp D) : Prop :=
  ∀ releases w', Releases releases → Run Step (w.apply op) releases w' → w'.Disciplined

/-- The view of an empty result is not at the address of a buffer with elements: the buffer is
never found again. -/
theorem not_keeps_of_stranded (h : w.Owned) {dtype : D} {address : Nat}
    {buffer : PinnedBuffer D} (hpos : 0 < buffer.numel)
    (hfound : (acquire w.completed dtype 0 w.pool.spill).1 = some buffer) :
    ¬ w.Keeps (.readback dtype 0 address) := by
  intro hkeeps
  have hring := (h.of_acquire hfound).1
  have hheld : buffer ∈ w.held := List.mem_append_left _ hring
  have haddress := h.addressed buffer hheld hpos
  have hptr : buffer.dataPtr = buffer.address := if_neg (Nat.ne_of_gt hpos)
  have hviews : ∀ view ∈ w.views ++ [(⟨buffer, 0⟩ : HostView D)],
      view.dataPtr ≠ buffer.dataPtr := by
    intro view hmem
    rcases List.mem_append.mp hmem with hview | hview
    · rw [h.dataPtr_eq hview]
      have hother : view.buffer ∈ w.held := List.mem_append_right _ (List.mem_map_of_mem hview)
      rw [hptr, PinnedBuffer.dataPtr]
      split
      · exact haddress.symm
      · next hzero =>
          exact fun heq => h.ring_ne hring hview
            (h.distinct _ hother _ hheld (Nat.pos_of_ne_zero hzero) hpos heq)
    · rw [List.mem_singleton.mp hview, hptr]
      exact haddress.symm
  unfold Keeps at hkeeps
  rw [apply_readback h.enabled, hfound, Option.getD_some] at hkeeps
  obtain ⟨ops, w', hops, hrun, hempty, hleft⟩ := drain _
    (w.lend (acquire w.completed dtype 0 w.pool.spill).2 buffer 0) rfl
    (by rw [lend_inUse, Function.update_self]) hviews
  have hdrained := (hkeeps ops w' hops hrun).drained hempty buffer.dataPtr
  rw [hleft] at hdrained
  exact absurd hdrained (by simp)

/-- Two empty views are at one address: the entry of the first is lost. -/
theorem not_keeps_of_overwritten (h : w.Owned) {dtype : D} {address : Nat} {view : HostView D}
    (hview : view ∈ w.views) (hempty : view.numel = 0)
    (hbuffer : ((acquire w.completed dtype 0 w.pool.spill).1.getD
      (w.fresh dtype 0 address)).numel = 0) : ¬ w.Keeps (.readback dtype 0 address) := by
  intro hkeeps
  let pinned := (acquire w.completed dtype 0 w.pool.spill).1.getD (w.fresh dtype 0 address)
  have hptr : pinned.dataPtr = 0 := if_pos hbuffer
  have hzero : view.dataPtr = 0 := if_pos hempty
  have hheld : view.buffer ∈ w.held := List.mem_append_right _ (List.mem_map_of_mem hview)
  have hacquired : pinned ≠ view.buffer := by
    simp only [pinned]
    intro heq
    cases hfound : (acquire w.completed dtype 0 w.pool.spill).1 with
    | none =>
      rw [hfound, Option.getD_none] at heq
      have hlt := h.numbered _ hheld
      rw [← heq] at hlt
      exact Nat.lt_irrefl _ hlt
    | some buffer =>
      rw [hfound, Option.getD_some] at heq
      exact h.ring_ne (h.of_acquire hfound).1 hview heq.symm
  have hafter := hkeeps [] _ (fun _ hop => absurd hop List.not_mem_nil) .nil
  rw [apply_readback h.enabled] at hafter
  have hrest : (acquire w.completed dtype 0 w.pool.spill).2.Subperm w.pool.spill := by
    rcases acquire_cases w.completed dtype 0 w.pool.spill with
      ⟨_, _, -, -, -, hrest⟩ | ⟨-, hrest⟩
    · exact (List.sublist_cons_self _ _).subperm.trans hrest
    · exact hrest
  rcases hafter.owned view.buffer (.inr (.inr ⟨view, List.mem_append_left _ hview, rfl⟩)) with
    ⟨hcount, -⟩ | ⟨-, key, hkey, -⟩
  · have hmem : view.buffer ∈ (acquire w.completed dtype 0 w.pool.spill).2.map Prod.fst :=
      List.count_pos_iff.mp (by rw [← lend_ring, hcount]; exact Nat.one_pos)
    obtain ⟨entry, hentry, heq⟩ := List.mem_map.mp hmem
    exact h.ring_ne (heq ▸ List.mem_map_of_mem (hrest.subset hentry)) hview rfl
  · have hkey : (Function.update w.pool.inUse pinned.dataPtr (some (pinned, some w.events)) key).map
        Prod.fst = some view.buffer := hkey
    by_cases hk : key = 0
    · rw [hk, hptr, Function.update_self] at hkey
      exact hacquired (Option.some.inj hkey)
    · rw [hptr, Function.update_of_ne hk] at hkey
      obtain ⟨other, hother, rfl, hsame⟩ := (h.handed key view.buffer).mp hkey
      exact hk ((congrArg HostView.dataPtr
        (List.inj_on_of_nodup_map h.once hother hview hsame)).trans hzero)

/-- **One call keeps the discipline exactly when it is sound.** -/
theorem keeps_iff_sound (h : w.Owned) {op : ReadbackOp D} (hstep : w.Step op w') :
    w.Keeps op ↔ w.Sound op := by
  obtain ⟨hlegal, rfl⟩ := hstep
  constructor
  · intro hkeeps
    cases op with
    | complete event => exact trivial
    | release view => exact trivial
    | readback dtype numel address =>
      rintro rfl
      have hzero := acquire_zero w.completed dtype w.pool.spill
      have hfree : ∀ entry ∈ w.firstFree dtype, entry.1.numel = 0 := by
        intro entry hentry
        by_contra hne
        have hfound : (acquire w.completed dtype 0 w.pool.spill).1 = some entry.1 := by
          rw [hzero]
          exact congrArg (Option.map Prod.fst) hentry
        exact not_keeps_of_stranded h (Nat.pos_of_ne_zero hne) hfound hkeeps
      refine ⟨fun view hview hempty => ?_, hfree⟩
      refine not_keeps_of_overwritten h hview hempty ?_ hkeeps
      rw [hzero]
      cases hfirst : w.firstFree dtype with
      | none =>
        rw [firstFree] at hfirst
        rw [hfirst]
        rfl
      | some entry =>
        have hempty := hfree entry hfirst
        rw [firstFree] at hfirst
        rw [hfirst]
        exact hempty
  · intro hsound releases u hreleases hrun
    exact ((h.step ⟨hlegal, rfl⟩ hsound).releases hreleases hrun).disciplined

/-- With the policy off the pool is never touched. -/
theorem off_untouched {ops : List (ReadbackOp D)} (h : Run Step (start false) ops w) :
    w.pool = (start false : ReadbackWorld D).pool := by
  refine h.invariant (I := fun w => w.pool = (start false : ReadbackWorld D).pool) ?_ rfl
  rintro w op w' hpool ⟨-, rfl⟩
  cases op with
  | readback dtype numel address =>
    simp only [apply, readbackAsync, hpool]
    rfl
  | complete event => exact hpool
  | release view =>
    simp only [apply, releaseReadback, hpool]
    rfl

/-- **A run keeps the ring's discipline exactly when each of its readbacks is sound.** With the
policy off nothing is ever pinned. -/
theorem disciplined_iff (ops : List (ReadbackOp D)) (w : ReadbackWorld D) :
    (Run (Guarded Step Keeps) (start true) ops w ↔ Run (Guarded Step Sound) (start true) ops w) ∧
      (Run Step (start false) ops w → w.ring = [] ∧ ∀ key, w.lentAt key = none) := by
  refine ⟨Run.guarded_iff_of_kept (I := Owned) ?_ ?_ Owned.start, fun h => ?_⟩
  · intro w op w' h hstep hkeeps
    exact h.step hstep ((keeps_iff_sound h hstep).mp hkeeps)
  · intro w op w' h hstep
    exact keeps_iff_sound h hstep
  · rw [ring, off_untouched h]
    refine ⟨rfl, fun key => ?_⟩
    rw [lentAt, off_untouched h]
    rfl

/-- A run is what applying its calls gives. -/
theorem run_eq {s : ReadbackWorld D} {ops : List (ReadbackOp D)} (h : Run Step s ops w) :
    w = ops.foldl apply s := by
  induction h with
  | nil => rfl
  | snoc _ hlast ih => rw [List.foldl_append, ← ih, hlast.2, List.foldl_cons, List.foldl_nil]

/-- One token is read back, lands and is released. -/
def oneToken : List (ReadbackOp Unit) :=
  [.readback () 1 64, .complete 0, .release ⟨⟨0, 64, (), 1⟩, 1⟩]

theorem run_oneToken : Run (Guarded Step Sound) (start true) oneToken
    (oneToken.foldl apply (start true)) := by
  let copying : ReadbackWorld Unit := (start true).apply (.readback () 1 64)
  let landed : ReadbackWorld Unit := copying.apply (.complete 0)
  have hread : Guarded Step Sound (start true) (.readback () 1 64) copying :=
    ⟨⟨fun _ => ⟨by decide, by simp [start, acquire, acquireLoop], by simp [start, lentAt],
      by simp [start]⟩, rfl⟩, fun h => absurd h (by decide)⟩
  have hland : Guarded Step Sound copying (.complete 0) landed :=
    ⟨⟨show 0 < 1 from Nat.one_pos, rfl⟩, trivial⟩
  have hrelease : Guarded Step Sound landed (.release ⟨⟨0, 64, (), 1⟩, 1⟩)
      (landed.apply (.release ⟨⟨0, 64, (), 1⟩, 1⟩)) :=
    ⟨⟨show _ ∈ [_] from List.mem_singleton_self _, rfl⟩, trivial⟩
  exact ((Run.single hread).snoc hland).snoc hrelease

/-- Every state of that run keeps the discipline. -/
theorem disciplined_oneToken : Run (Guarded Step Keeps) (start true) oneToken
    (oneToken.foldl apply (start true)) :=
  (disciplined_iff oneToken _).1.mpr run_oneToken

/-- An empty result read back after it takes the buffer and never gives it back. -/
theorem empty_readback_strands :
    ¬ ∀ (ops : List (ReadbackOp Unit)) (w : ReadbackWorld Unit),
      Run Step (start true) ops w → Run (Guarded Step Keeps) (start true) ops w := by
  intro hall
  have hstep : Step (oneToken.foldl apply (start true)) (.readback () 0 0)
      ((oneToken ++ [ReadbackOp.readback () 0 0]).foldl apply (start true)) :=
    ⟨fun h => absurd h (Nat.lt_irrefl 0), rfl⟩
  obtain ⟨t, ht, ⟨-, hkeeps⟩⟩ :=
    Run.snoc_iff.mp (hall _ _ (run_oneToken.of_guarded.snoc hstep))
  rw [run_eq ht.of_guarded] at hkeeps
  have hrelease : Step ((oneToken.foldl apply (start true)).apply (.readback () 0 0))
      (.release ⟨⟨0, 64, (), 1⟩, 0⟩) _ := ⟨List.mem_singleton_self _, rfl⟩
  have hdrained := (hkeeps _ _ (fun op hop => ⟨_, List.mem_singleton.mp hop⟩)
    (Run.single hrelease)).drained rfl 64
  exact absurd hdrained (by decide)

end ReadbackWorld

end RapidLlm
