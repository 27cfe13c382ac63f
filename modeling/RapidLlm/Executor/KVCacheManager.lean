import Mathlib.Data.Finset.Card
import RapidLlm.Lib.Increasing
import RapidLlm.Lib.Run
import RapidLlm.Engine.BlockPool

/-!
# RapidLlm.Executor.KVCacheManager

**The row allocator** (`executor/kv_cache_manager.py`, one row per token).

Rows are handed out by reference count, and `canUseMemSize` counts the free ones beside the
counts. The three allocations share the counts but not the cursor of the append-only path:
`Sound` is the condition under which an operation finds the cursor and the counter as it
takes them to be, and `keeps_iff` says that it is exact, over every run.
-/

namespace RapidLlm

/-- `kv_mem_use_state` is an `int32` tensor: a count is a word. -/
structure KVCacheManager where
  maxNumTokens : Nat
  canUseMemSize : Int
  useState : Nat → BitVec 32
  bumpCursor : Nat
  bumpIsExact : Bool

namespace KVCacheManager

/-- A manager of `gpuNumBlocks` blocks of one row. -/
def create (gpuNumBlocks : Nat) : KVCacheManager where
  maxNumTokens := gpuNumBlocks
  canUseMemSize := gpuNumBlocks
  useState := fun _ => 0
  bumpCursor := 0
  bumpIsExact := true

variable (manager : KVCacheManager)

/-- `torch.nonzero(kv_mem_use_state == 0)`. -/
def freeRows : List Nat :=
  (List.range manager.maxNumTokens).filter fun row => manager.useState row = 0

/-- `kv_mem_pos_indices[start : start + size]`. -/
def posIndices (start size : Nat) : List Nat :=
  ((List.range manager.maxNumTokens).drop start).take size

/-- Rows a tensor names more than once are incremented once. -/
def incremented (rows : List Nat) (row : Nat) : BitVec 32 :=
  if row ∈ rows then manager.useState row + 1 else manager.useState row

/-- Increment the reference count of the given rows. -/
def addRef (rows : List Nat) : KVCacheManager :=
  let hasUsedTokens := rows.countP fun row => manager.useState row ≠ 0
  { manager with
    canUseMemSize := manager.canUseMemSize - (rows.length - hasUsedTokens : Int)
    useState := manager.incremented rows }

/-- Decrement the reference count of the given rows, freeing those that reach zero. -/
def releaseRef (rows : List Nat) : KVCacheManager :=
  let tokenIndex := rows.dedup
  let useState := fun row =>
    if row ∈ tokenIndex then manager.useState row - BitVec.ofNat 32 (rows.count row)
    else manager.useState row
  let usedTokens := tokenIndex.countP fun row => useState row ≠ 0
  { manager with
    bumpIsExact := false
    canUseMemSize := manager.canUseMemSize + (tokenIndex.length - usedTokens : Int)
    useState }

/-- Reserve `needSize` free rows, wherever they are. -/
def allocKvcache (needSize : Nat) : Option (List Nat) × KVCacheManager :=
  if needSize > manager.canUseMemSize then (none, manager)
  else
    let selectIndex := manager.freeRows.take needSize
    (some selectIndex, manager.addRef selectIndex)

/-- The two ends of every window of the free list. Slicing from `need_size - 1` takes the last
entry where `need_size` is zero, and subtracting it from the starts broadcasts. -/
def windowEnds (needSize : Nat) : List (Nat × Nat) :=
  let free := manager.freeRows
  let startIndices := free.take (free.length - needSize + 1)
  if needSize = 0 then startIndices.map fun start => (start, free.getLastD 0)
  else startIndices.zip (free.drop (needSize - 1))

/-- Reserve `needSize` consecutive free rows: the rows, where they start and where they end. -/
def allocContiguousKvcache (needSize : Nat) :
    Option (List Nat × Nat × Nat) × KVCacheManager :=
  if needSize > manager.canUseMemSize then (none, manager)
  else if needSize ≤ manager.freeRows.length then
    match (manager.windowEnds needSize).find? fun ends =>
        ((ends.2 : Int) - ends.1 = needSize - 1 : Bool) with
    | some ends =>
        let startIndex := ends.1
        let selectIndex := manager.posIndices startIndex needSize
        (some (selectIndex, startIndex, startIndex + needSize), manager.addRef selectIndex)
    | none => (none, manager)
  else (none, manager)

/-- Reserve `needSize` rows, preferring a contiguous run. -/
def allocKvcacheIndex (needSize : Nat) : Except Raised (Option (List Nat)) × KVCacheManager :=
  if manager.bumpIsExact ∧ manager.bumpCursor + needSize ≤ manager.maxNumTokens then
    let selectIndex := manager.posIndices manager.bumpCursor needSize
    (.ok (some selectIndex), { manager with
      useState := manager.incremented selectIndex
      bumpCursor := manager.bumpCursor + needSize
      canUseMemSize := manager.canUseMemSize - needSize })
  else
    match manager.allocContiguousKvcache needSize with
    | (some allocMem, manager) => (.ok (some allocMem.1), manager)
    | (none, manager) =>
      match manager.allocKvcache needSize with
      | (some selectIndex, manager) => (.ok (some selectIndex), manager)
      | (none, manager) =>
          (.error (.attributeError "'NoneType' object has no attribute 'to'"), manager)

/-- Hand the first `numRows` rows to an external owner, permanently. -/
def claim (numRows : Nat) : Except Raised Unit × KVCacheManager :=
  if numRows > manager.canUseMemSize then
    (.error (.valueError (s!"cannot claim {numRows} rows: only {manager.canUseMemSize} " ++
      "are free")), manager)
  else
    (.ok (), { manager with
      useState := manager.incremented (manager.posIndices 0 numRows)
      canUseMemSize := manager.canUseMemSize - numRows
      bumpCursor := max manager.bumpCursor numRows })

/-- Drop every reference at once. -/
def freeAll : KVCacheManager :=
  { manager with
    canUseMemSize := manager.maxNumTokens
    useState := fun _ => 0
    bumpCursor := 0
    bumpIsExact := true }

end KVCacheManager

/-- An operation on the allocator. -/
inductive RowOp
  | allocKvcache (needSize : Nat)
  | allocContiguousKvcache (needSize : Nat)
  | allocKvcacheIndex (needSize : Nat)
  | addRef (rows : List Nat)
  | releaseRef (rows : List Nat)
  | claim (numRows : Nat)
  | freeAll

namespace KVCacheManager

/-- What a call returns, and the manager it leaves. -/
def apply (manager : KVCacheManager) : RowOp → Except Raised (Option (List Nat)) × KVCacheManager
  | .allocKvcache needSize =>
      let reply := manager.allocKvcache needSize
      (.ok reply.1, reply.2)
  | .allocContiguousKvcache needSize =>
      let reply := manager.allocContiguousKvcache needSize
      (.ok (reply.1.map Prod.fst), reply.2)
  | .allocKvcacheIndex needSize => manager.allocKvcacheIndex needSize
  | .addRef rows => (.ok none, manager.addRef rows)
  | .releaseRef rows => (.ok none, manager.releaseRef rows)
  | .claim numRows =>
      let reply := manager.claim numRows
      (reply.1.map fun _ => none, reply.2)
  | .freeAll => (.ok none, manager.freeAll)

/-- What callers pass: rows of the cache, and on release rows that are referenced at least as
often as they are named. -/
def Legal (manager : KVCacheManager) : RowOp → Prop
  | .addRef rows => ∀ row ∈ rows, row < manager.maxNumTokens
  | .releaseRef rows => ∀ row ∈ rows,
      row < manager.maxNumTokens ∧ rows.count row ≤ (manager.useState row).toNat
  | _ => True

/-- One call. -/
def Step (manager : KVCacheManager) (op : RowOp) (manager' : KVCacheManager) : Prop :=
  manager.Legal op ∧ (manager.apply op).2 = manager'

/-- The counter is the number of free rows. -/
def Accounts (manager : KVCacheManager) : Prop :=
  manager.canUseMemSize = manager.freeRows.length

/-- Rows an allocation of `needSize` may return. -/
structure Fresh (manager : KVCacheManager) (needSize : Nat) (rows : List Nat) : Prop where
  length_eq : rows.length = needSize
  nodup : rows.Nodup
  free : ∀ row ∈ rows, row < manager.maxNumTokens ∧ manager.useState row = 0

/-- `start` begins a run of `needSize` free rows. -/
def RunAt (manager : KVCacheManager) (needSize start : Nat) : Prop :=
  start + needSize ≤ manager.maxNumTokens ∧
    ∀ row, start ≤ row → row < start + needSize → manager.useState row = 0

/-- An allocation hands out rows as it should, or is refused for want of rows and changes
nothing. -/
def Serves (manager : KVCacheManager) (good : List Nat → Prop) (servable : Prop)
    (reply : Except Raised (Option (List Nat)) × KVCacheManager) : Prop :=
  (∃ rows, reply.1 = .ok (some rows) ∧ good rows) ∨
    ¬ servable ∧ reply = (.ok none, manager)

/-- What the allocator promises of a call. -/
def Keeps (manager : KVCacheManager) (op : RowOp) : Prop :=
  (manager.apply op).2.Accounts ∧
    match op with
    | .allocKvcache needSize | .allocKvcacheIndex needSize =>
        manager.Serves (manager.Fresh needSize) (needSize ≤ manager.freeRows.length)
          (manager.apply op)
    | .allocContiguousKvcache needSize =>
        manager.Serves (fun rows => manager.Fresh needSize rows ∧
            ∃ start, rows = List.range' start needSize)
          (∃ start, manager.RunAt needSize start) (manager.apply op)
    | _ => True

/-- The cursor and the counter are what the call takes them to be: the rows at the cursor are
free, the claimed rows are, no free row is referenced twice in one call and no count is at its
last value; the contiguous form is asked for rows, and the search for no more than there are. -/
def Sound (manager : KVCacheManager) : RowOp → Prop
  | .allocContiguousKvcache needSize => needSize ≠ 0
  | .allocKvcacheIndex needSize =>
      if manager.bumpIsExact ∧ manager.bumpCursor + needSize ≤ manager.maxNumTokens then
        manager.RunAt needSize manager.bumpCursor
      else (needSize : Int) ≤ manager.canUseMemSize
  | .addRef rows => (rows.filter fun row => manager.useState row = 0).Nodup ∧
      ∀ row ∈ rows, manager.useState row ≠ BitVec.allOnes 32
  | .claim numRows => (numRows : Int) ≤ manager.canUseMemSize → manager.RunAt numRows 0
  | _ => True

/-! ### Counting the free rows -/

variable {manager manager' : KVCacheManager} {rows : List Nat} {needSize start row : Nat}

theorem mem_freeRows :
    row ∈ manager.freeRows ↔ row < manager.maxNumTokens ∧ manager.useState row = 0 := by
  simp [freeRows]

variable (manager) in
theorem freeRows_sorted : manager.freeRows.Pairwise (· < ·) :=
  List.pairwise_lt_range.filter _

theorem freeRows_nodup : manager.freeRows.Nodup := List.nodup_range.filter _

theorem create_accounts (gpuNumBlocks : Nat) : (create gpuNumBlocks).Accounts := by
  simp [Accounts, create, freeRows]

theorem freeAll_accounts : manager.freeAll.Accounts := by
  simp [Accounts, freeAll, freeRows]

theorem length_freeRows : manager.freeRows.length = manager.freeRows.toFinset.card :=
  (List.toFinset_card_of_nodup freeRows_nodup).symm

/-- Incrementing rows takes away those that were free, and gives back those whose count ran
over. -/
theorem length_freeRows_incremented (hmax : manager'.maxNumTokens = manager.maxNumTokens)
    (hstate : manager'.useState = manager.incremented rows)
    (hrows : ∀ row ∈ rows, row < manager.maxNumTokens) :
    manager'.freeRows.length +
        (rows.filter fun row => manager.useState row = 0).toFinset.card =
      manager.freeRows.length +
        (rows.filter fun row => manager.useState row = BitVec.allOnes 32).toFinset.card := by
  have hover (word : BitVec 32) : word + 1 = 0 ↔ word = BitVec.allOnes 32 := by
    rw [← BitVec.toNat_inj, ← BitVec.toNat_inj, BitVec.toNat_add, BitVec.toNat_allOnes]
    have hlt := word.isLt
    have hone : (1 : BitVec 32).toNat = 1 := rfl
    have hzero : (0 : BitVec 32).toNat = 0 := rfl
    omega
  have hzero : ¬ (0 : BitVec 32) = BitVec.allOnes 32 := by decide
  have hcover : manager'.freeRows.toFinset ∪
      (rows.filter fun row => manager.useState row = 0).toFinset =
      manager.freeRows.toFinset ∪
        (rows.filter fun row => manager.useState row = BitVec.allOnes 32).toFinset := by
    ext row
    simp only [Finset.mem_union, List.mem_toFinset, mem_freeRows, List.mem_filter,
      decide_eq_true_eq, hmax, hstate, incremented]
    by_cases hrow : row ∈ rows
    · simp only [hrow, if_true, hover, hrows row hrow, true_and]
      exact Or.comm
    · simp [hrow]
  have hdisjoint : Disjoint manager'.freeRows.toFinset
      (rows.filter fun row => manager.useState row = 0).toFinset := by
    refine Finset.disjoint_left.mpr fun row hrow hfree => ?_
    simp only [List.mem_toFinset, mem_freeRows, List.mem_filter, decide_eq_true_eq, hstate,
      incremented] at hrow hfree
    rw [if_pos hfree.1, hover, hfree.2] at hrow
    exact hzero hrow.2
  have hdisjoint' : Disjoint manager.freeRows.toFinset
      (rows.filter fun row => manager.useState row = BitVec.allOnes 32).toFinset := by
    refine Finset.disjoint_left.mpr fun row hrow hlast => ?_
    simp only [List.mem_toFinset, mem_freeRows, List.mem_filter, decide_eq_true_eq] at hrow hlast
    exact hzero (hrow.2.symm.trans hlast.2)
  rw [length_freeRows, length_freeRows, ← Finset.card_union_of_disjoint hdisjoint, hcover,
    Finset.card_union_of_disjoint hdisjoint']

/-- Taking rows once each, at the price of their number, accounts for them just if they were
free. -/
theorem accounts_iff_free (h : manager.Accounts) (hnodup : rows.Nodup)
    (hrows : ∀ row ∈ rows, row < manager.maxNumTokens)
    (hmax : manager'.maxNumTokens = manager.maxNumTokens)
    (hstate : manager'.useState = manager.incremented rows)
    (hsize : manager'.canUseMemSize = manager.canUseMemSize - rows.length) :
    manager'.Accounts ↔ ∀ row ∈ rows, manager.useState row = 0 := by
  have hlen : manager.canUseMemSize = manager.freeRows.length := h
  have hcount := length_freeRows_incremented hmax hstate hrows
  rw [List.toFinset_card_of_nodup (hnodup.filter _)] at hcount
  have hle := List.length_filter_le (fun row => decide (manager.useState row = 0)) rows
  have hall : (rows.filter fun row => manager.useState row = 0).length = rows.length ↔
      ∀ row ∈ rows, manager.useState row = 0 := by
    rw [List.length_filter_eq_length_iff]
    simp
  rw [Accounts, hsize, hlen, ← hall]
  constructor
  · intro haccounts
    omega
  · intro hfree
    have hnone : (rows.filter fun row => manager.useState row = BitVec.allOnes 32) = [] :=
      List.filter_eq_nil_iff.mpr fun row hrow hlast => by
        have hzero := hall.mp hfree row hrow
        rw [decide_eq_true_eq, hzero] at hlast
        exact absurd hlast (by decide)
    rw [hnone, List.toFinset_nil, Finset.card_empty] at hcount
    omega

theorem free_of_accounts (h : manager.Accounts) (h' : manager'.Accounts) (hnodup : rows.Nodup)
    (hrows : ∀ row ∈ rows, row < manager.maxNumTokens)
    (hmax : manager'.maxNumTokens = manager.maxNumTokens)
    (hstate : manager'.useState = manager.incremented rows)
    (hsize : manager'.canUseMemSize = manager.canUseMemSize - rows.length) :
    ∀ row ∈ rows, manager.useState row = 0 :=
  (accounts_iff_free h hnodup hrows hmax hstate hsize).mp h'

/-- Free rows taken once each. -/
theorem accounts_of_fresh (h : manager.Accounts) (hfresh : manager.Fresh needSize rows)
    (hmax : manager'.maxNumTokens = manager.maxNumTokens)
    (hstate : manager'.useState = manager.incremented rows)
    (hsize : manager'.canUseMemSize = manager.canUseMemSize - needSize) : manager'.Accounts :=
  (accounts_iff_free h hfresh.nodup (fun row hrow => (hfresh.free row hrow).1) hmax hstate
    (by rw [hsize, hfresh.length_eq])).mpr fun row hrow => (hfresh.free row hrow).2

/-- The counter after `add_ref`, by the free rows it names. -/
theorem addRef_canUse : (manager.addRef rows).canUseMemSize = manager.canUseMemSize -
    (rows.filter fun row => manager.useState row = 0).length := by
  have hsplit := List.length_eq_countP_add_countP (l := rows)
    fun row => decide (manager.useState row = 0)
  rw [addRef]
  simp only [← List.countP_eq_length_filter]
  have hne : (rows.countP fun row => decide (manager.useState row ≠ 0)) =
      rows.countP fun row => ¬ (decide (manager.useState row = 0)) = true := by
    simp
  rw [hne, hsplit]
  push_cast
  omega

theorem accounts_addRef_iff (h : manager.Accounts)
    (hrows : ∀ row ∈ rows, row < manager.maxNumTokens) :
    (manager.addRef rows).Accounts ↔ manager.Sound (.addRef rows) := by
  have hstate : (manager.addRef rows).useState = manager.incremented rows := rfl
  have hmax : (manager.addRef rows).maxNumTokens = manager.maxNumTokens := rfl
  have hcount := length_freeRows_incremented hmax hstate hrows
  have hle := (rows.filter fun row => manager.useState row = 0).toFinset_card_le
  rw [Accounts, addRef_canUse, h, Sound]
  have hnodup : (rows.filter fun row => manager.useState row = 0).Nodup ↔
      (rows.filter fun row => manager.useState row = 0).toFinset.card =
        (rows.filter fun row => manager.useState row = 0).length :=
    ⟨List.toFinset_card_of_nodup, fun heq => Multiset.toFinset_card_eq_card_iff_nodup.mp heq⟩
  have hnone : (∀ row ∈ rows, manager.useState row ≠ BitVec.allOnes 32) ↔
      (rows.filter fun row => manager.useState row = BitVec.allOnes 32).toFinset.card = 0 := by
    rw [Finset.card_eq_zero, List.toFinset_eq_empty_iff, List.filter_eq_nil_iff]
    simp
  rw [hnodup, hnone]
  omega

/-- Rows the slice names. -/
theorem posIndices_eq (h : start + needSize ≤ manager.maxNumTokens) :
    manager.posIndices start needSize = List.range' start needSize := by
  rw [posIndices, List.range_eq_range', List.drop_range', Nat.zero_add, Nat.mul_one,
    List.take_range'_of_length_ge (by omega)]

theorem RunAt.fresh (h : manager.RunAt needSize start) :
    manager.Fresh needSize (manager.posIndices start needSize) := by
  rw [posIndices_eq h.1]
  refine ⟨List.length_range', List.nodup_range', fun row hrow => ?_⟩
  obtain ⟨hge, hlt⟩ := List.mem_range'_1.mp hrow
  exact ⟨Nat.lt_of_lt_of_le hlt h.1, h.2 row hge hlt⟩

theorem Fresh.le_length (h : manager.Fresh needSize rows) :
    needSize ≤ manager.freeRows.length := by
  rw [← h.length_eq]
  exact (h.nodup.subperm fun row hrow => mem_freeRows.mpr (h.free row hrow)).length_le

/-- Free rows cost the counter what they number. -/
theorem Fresh.accounts_addRef (h : manager.Accounts) (hfresh : manager.Fresh needSize rows) :
    (manager.addRef rows).Accounts := by
  refine accounts_of_fresh h hfresh rfl rfl ?_
  rw [addRef_canUse, List.filter_eq_self.mpr fun row hrow => decide_eq_true (hfresh.free row hrow).2,
    hfresh.length_eq]

/-- What the scattered form replies. -/
theorem allocKvcache_cases (h : manager.Accounts) (needSize : Nat) :
    (∃ rows, manager.Fresh needSize rows ∧
        manager.allocKvcache needSize = (some rows, manager.addRef rows)) ∨
      manager.canUseMemSize < needSize ∧ manager.allocKvcache needSize = (none, manager) := by
  have hlen : manager.canUseMemSize = manager.freeRows.length := h
  by_cases hshort : (needSize : Int) > manager.canUseMemSize
  · exact .inr ⟨hshort, if_pos hshort⟩
  · refine .inl ⟨manager.freeRows.take needSize, ⟨List.length_take_of_le (by omega),
      freeRows_nodup.sublist (List.take_sublist _ _),
      fun row hrow => mem_freeRows.mp (List.mem_of_mem_take hrow)⟩, if_neg hshort⟩

/-! ### The search for a run -/

variable {ends : Nat × Nat}

theorem mem_windowEnds (hpos : needSize ≠ 0) :
    ends ∈ manager.windowEnds needSize ↔ ∃ j < manager.freeRows.length - needSize + 1,
      manager.freeRows[j]? = some ends.1 ∧
        manager.freeRows[j + (needSize - 1)]? = some ends.2 := by
  simp only [windowEnds, if_neg hpos, List.mem_iff_getElem?, List.getElem?_zip_eq_some,
    List.getElem?_take, List.getElem?_drop]
  refine exists_congr fun j => ?_
  by_cases hj : j < manager.freeRows.length - needSize + 1
  · simp only [hj, if_true, true_and, Nat.add_comm (needSize - 1)]
  · simp [hj]

/-- A window the search accepts is a run. -/
theorem runAt_of_mem (hpos : needSize ≠ 0) (hmem : ends ∈ manager.windowEnds needSize)
    (hends : (ends.2 : Int) - ends.1 = needSize - 1) : manager.RunAt needSize ends.1 := by
  obtain ⟨j, -, hfirst, hlast⟩ := (mem_windowEnds hpos).mp hmem
  have heq : ends.2 = ends.1 + (needSize - 1) := by omega
  rw [heq] at hlast
  have hrun {i : Nat} (hi : i ≤ needSize - 1) := mem_freeRows.mp
    (List.mem_of_getElem? (Increasing.window_run (freeRows_sorted manager) hfirst hlast hi))
  refine ⟨?_, fun row hge hlt => ?_⟩
  · have hlt := (hrun (Nat.le_refl _)).1
    omega
  · have hfree := (hrun (i := row - ends.1) (by omega)).2
    rwa [Nat.add_sub_cancel' hge] at hfree

/-- **The search finds a run whenever there is one.** -/
theorem RunAt.mem_windowEnds (hpos : needSize ≠ 0) (h : manager.RunAt needSize start) :
    (start, start + (needSize - 1)) ∈ manager.windowEnds needSize := by
  obtain ⟨j, hfirst, hlast⟩ := Increasing.exists_window (n := needSize - 1)
    (freeRows_sorted manager) fun i hi =>
      mem_freeRows.mpr ⟨by have := h.1; omega, h.2 (start + i) (by omega) (by omega)⟩
  have hlt := (List.getElem?_eq_some_iff.mp hlast).1
  exact (KVCacheManager.mem_windowEnds hpos).mpr ⟨j, by omega, hfirst, hlast⟩

/-- What the contiguous form replies. -/
theorem allocContiguous_cases (hpos : needSize ≠ 0) (h : manager.Accounts) :
    (∃ start, manager.RunAt needSize start ∧ manager.allocContiguousKvcache needSize =
        (some (manager.posIndices start needSize, start, start + needSize),
          manager.addRef (manager.posIndices start needSize))) ∨
      (¬ ∃ start, manager.RunAt needSize start) ∧
        manager.allocContiguousKvcache needSize = (none, manager) := by
  have hlen : manager.canUseMemSize = manager.freeRows.length := h
  by_cases hshort : (needSize : Int) > manager.canUseMemSize
  · refine .inr ⟨fun ⟨start, hrun⟩ => ?_, by rw [allocContiguousKvcache, if_pos hshort]⟩
    have hle := hrun.fresh.le_length
    omega
  have hle : needSize ≤ manager.freeRows.length := by omega
  rw [allocContiguousKvcache, if_neg hshort, if_pos hle]
  cases hfind : (manager.windowEnds needSize).find? fun ends =>
      ((ends.2 : Int) - ends.1 = needSize - 1 : Bool) with
  | some ends =>
    have hends := List.find?_some hfind
    rw [decide_eq_true_eq] at hends
    exact .inl ⟨ends.1, runAt_of_mem hpos (List.mem_of_find?_eq_some hfind) hends, rfl⟩
  | none =>
    refine .inr ⟨fun ⟨start, hrun⟩ => ?_, rfl⟩
    refine List.find?_eq_none.mp hfind _ (hrun.mem_windowEnds hpos) (decide_eq_true ?_)
    push_cast
    omega

/-- Asked for no rows, the search compares the last free row with every other one. -/
theorem allocContiguous_zero : manager.allocContiguousKvcache 0 = (none, manager) := by
  have hfind : ((manager.windowEnds 0).find? fun ends =>
      ((ends.2 : Int) - ends.1 = (0 : Nat) - 1 : Bool)) = none := by
    refine List.find?_eq_none.mpr fun ends hends => ?_
    obtain ⟨first, hfirst, rfl⟩ := List.mem_map.mp hends
    obtain ⟨j, hj⟩ := List.mem_iff_getElem?.mp (List.mem_of_mem_take hfirst)
    have hlt := (List.getElem?_eq_some_iff.mp hj).1
    have hlast : manager.freeRows[j + (manager.freeRows.length - 1 - j)]? =
        some (manager.freeRows.getLastD 0) := by
      rw [Nat.add_sub_cancel' (by omega), List.getLastD_eq_getLast?, ← List.getLast?_eq_getElem?]
      cases hl : manager.freeRows.getLast? with
      | none => exact absurd (List.getLast?_eq_none_iff.mp hl) (List.ne_nil_of_length_pos (by omega))
      | some last => rfl
    have hle := Increasing.add_le (freeRows_sorted manager) hj hlast
    rw [decide_eq_true_eq]
    omega
  rw [allocContiguousKvcache, hfind]
  split
  · rfl
  · split <;> rfl

/-! ### One call -/

theorem keeps_allocKvcache (h : manager.Accounts) : manager.Keeps (.allocKvcache needSize) := by
  have hlen : manager.canUseMemSize = manager.freeRows.length := h
  simp only [Keeps, apply]
  rcases allocKvcache_cases h needSize with ⟨rows, hfresh, hreply⟩ | ⟨hshort, hreply⟩ <;>
    rw [hreply]
  · exact ⟨hfresh.accounts_addRef h, .inl ⟨rows, rfl, hfresh⟩⟩
  · exact ⟨h, .inr ⟨by omega, rfl⟩⟩

theorem keeps_allocContiguous_iff (h : manager.Accounts) :
    manager.Keeps (.allocContiguousKvcache needSize) ↔ needSize ≠ 0 := by
  simp only [Keeps, apply]
  by_cases hpos : needSize = 0
  · subst hpos
    rw [allocContiguous_zero]
    refine iff_of_false ?_ (not_not.mpr rfl)
    -- the empty run is there, and is not found
    rintro ⟨-, ⟨rows, hrows, -⟩ | ⟨hnone, -⟩⟩
    · cases hrows
    · exact hnone ⟨0, Nat.zero_le _, fun row hge hlt => absurd hlt (by omega)⟩
  · refine iff_of_true ?_ hpos
    rcases allocContiguous_cases hpos h with ⟨start, hrun, hreply⟩ | ⟨hnone, hreply⟩ <;>
      rw [hreply]
    · exact ⟨hrun.fresh.accounts_addRef h,
        .inl ⟨_, rfl, hrun.fresh, start, posIndices_eq hrun.1⟩⟩
    · exact ⟨h, .inr ⟨hnone, rfl⟩⟩

/-- Off the append-only path the search replies, or the scattered form behind it. -/
theorem allocKvcacheIndex_cases (h : manager.Accounts) (hbump : ¬ (manager.bumpIsExact ∧
    manager.bumpCursor + needSize ≤ manager.maxNumTokens)) :
    (∃ rows, manager.Fresh needSize rows ∧
        manager.allocKvcacheIndex needSize = (.ok (some rows), manager.addRef rows)) ∨
      manager.canUseMemSize < needSize ∧ manager.allocKvcacheIndex needSize =
        (.error (.attributeError "'NoneType' object has no attribute 'to'"), manager) := by
  have hsearch : (∃ rows start stop, manager.Fresh needSize rows ∧
        manager.allocContiguousKvcache needSize =
          (some (rows, start, stop), manager.addRef rows)) ∨
      manager.allocContiguousKvcache needSize = (none, manager) := by
    by_cases hpos : needSize = 0
    · subst hpos
      exact .inr allocContiguous_zero
    · rcases allocContiguous_cases hpos h with ⟨start, hrun, hreply⟩ | ⟨-, hreply⟩
      · exact .inl ⟨_, _, _, hrun.fresh, hreply⟩
      · exact .inr hreply
  rw [allocKvcacheIndex, if_neg hbump]
  rcases hsearch with ⟨rows, start, stop, hfresh, hreply⟩ | hreply <;> rw [hreply]
  · exact .inl ⟨rows, hfresh, rfl⟩
  · rcases allocKvcache_cases h needSize with ⟨rows, hfresh, hreply⟩ | ⟨hshort, hreply⟩ <;>
      simp only [hreply]
    · exact .inl ⟨rows, hfresh, rfl⟩
    · exact .inr ⟨hshort, trivial⟩

theorem keeps_allocKvcacheIndex_iff (h : manager.Accounts) :
    manager.Keeps (.allocKvcacheIndex needSize) ↔ manager.Sound (.allocKvcacheIndex needSize) := by
  have hlen : manager.canUseMemSize = manager.freeRows.length := h
  simp only [Keeps, apply, Sound]
  by_cases hbump : manager.bumpIsExact ∧
      manager.bumpCursor + needSize ≤ manager.maxNumTokens
  · simp only [allocKvcacheIndex, if_pos hbump]
    constructor
    · rintro ⟨-, ⟨rows, hrows, hfresh⟩ | ⟨-, hreply⟩⟩
      · cases hrows
        rw [posIndices_eq hbump.2] at hfresh
        exact ⟨hbump.2, fun row hge hlt => (hfresh.free row (List.mem_range'_1.mpr ⟨hge, hlt⟩)).2⟩
      · exact absurd (congrArg Prod.fst hreply) (fun heq => by cases heq)
    · intro hrun
      exact ⟨accounts_of_fresh h hrun.fresh rfl rfl rfl, .inl ⟨_, rfl, hrun.fresh⟩⟩
  · simp only [if_neg hbump]
    rcases allocKvcacheIndex_cases h hbump with ⟨rows, hfresh, hreply⟩ | ⟨hshort, hreply⟩ <;>
      rw [hreply]
    · have hle := hfresh.le_length
      exact iff_of_true ⟨hfresh.accounts_addRef h, .inl ⟨rows, rfl, hfresh⟩⟩ (by omega)
    · refine iff_of_false ?_ (by omega)
      rintro ⟨-, ⟨rows, hrows, -⟩ | ⟨-, hnone⟩⟩
      · cases hrows
      · cases congrArg Prod.fst hnone

/-- Releasing frees the rows whose last reference goes. -/
theorem accounts_releaseRef (h : manager.Accounts) (hlegal : manager.Legal (.releaseRef rows)) :
    (manager.releaseRef rows).Accounts := by
  have hheld (row : Nat) (hrow : row ∈ rows) : manager.useState row ≠ 0 := by
    intro hzero
    have hcount := (hlegal row hrow).2
    have hpos := List.count_pos_iff.mpr hrow
    rw [hzero] at hcount
    exact absurd hcount (Nat.not_le.mpr hpos)
  have hdisjoint : Disjoint manager.freeRows.toFinset
      (rows.dedup.filter fun row => (manager.releaseRef rows).useState row = 0).toFinset := by
    refine Finset.disjoint_left.mpr fun row hfree hrow => ?_
    simp only [List.mem_toFinset, mem_freeRows, List.mem_filter, List.mem_dedup] at hfree hrow
    exact hheld row hrow.1 hfree.2
  have hcover : (manager.releaseRef rows).freeRows.toFinset = manager.freeRows.toFinset ∪
      (rows.dedup.filter fun row => (manager.releaseRef rows).useState row = 0).toFinset := by
    ext row
    simp only [Finset.mem_union, List.mem_toFinset, mem_freeRows, List.mem_filter, List.mem_dedup,
      decide_eq_true_eq]
    by_cases hrow : row ∈ rows
    · simp only [hrow, hheld row hrow, and_false, false_or, true_and]
      exact and_iff_right (hlegal row hrow).1
    · have hsame : (manager.releaseRef rows).useState row = manager.useState row := by
        simp [releaseRef, hrow]
      rw [hsame]
      simp [hrow, releaseRef]
  have hcanUse : (manager.releaseRef rows).canUseMemSize = manager.canUseMemSize +
      (rows.dedup.filter fun row => (manager.releaseRef rows).useState row = 0).length := by
    have hsplit := List.length_eq_countP_add_countP (l := rows.dedup)
      fun row => decide ((manager.releaseRef rows).useState row = 0)
    have hne : (rows.dedup.countP fun row =>
          decide ((manager.releaseRef rows).useState row ≠ 0)) =
        rows.dedup.countP fun row =>
          ¬ decide ((manager.releaseRef rows).useState row = 0) = true := by
      simp
    rw [← List.countP_eq_length_filter]
    change manager.canUseMemSize + ((rows.dedup.length : Int) - (rows.dedup.countP fun row =>
      decide ((manager.releaseRef rows).useState row ≠ 0) : Nat)) = _
    rw [hne, hsplit]
    push_cast
    omega
  have hfree : (manager.releaseRef rows).freeRows.length = manager.freeRows.length +
      (rows.dedup.filter fun row => (manager.releaseRef rows).useState row = 0).length := by
    rw [length_freeRows, hcover, Finset.card_union_of_disjoint hdisjoint, length_freeRows,
      List.toFinset_card_of_nodup ((List.nodup_dedup rows).filter _)]
  rw [Accounts, hcanUse, h, hfree]
  push_cast
  rfl

/-- The state a claim leaves accounts for the free rows when the claimed ones were among them. -/
theorem keeps_claim_iff (h : manager.Accounts) {numRows : Nat} :
    manager.Keeps (.claim numRows) ↔ manager.Sound (.claim numRows) := by
  have hlen : manager.canUseMemSize = manager.freeRows.length := h
  simp only [Keeps, apply, Sound, and_true, claim]
  by_cases hshort : (numRows : Int) > manager.canUseMemSize
  · simp only [if_pos hshort]
    exact iff_of_true h fun hle => absurd hle (by omega)
  · have hmax : 0 + numRows ≤ manager.maxNumTokens := by
      have hle : manager.freeRows.length ≤ (List.range manager.maxNumTokens).length :=
        List.length_filter_le ..
      rw [List.length_range] at hle
      omega
    simp only [if_neg hshort]
    constructor
    · intro haccounts _
      have hrows : ∀ row ∈ List.range' 0 numRows, row < manager.maxNumTokens :=
        fun row hrow => Nat.lt_of_lt_of_le (List.mem_range'_1.mp hrow).2 hmax
      have hfree := free_of_accounts h haccounts List.nodup_range' hrows rfl
        (congrArg manager.incremented (posIndices_eq hmax)) (by rw [List.length_range'])
      exact ⟨hmax, fun row hge hlt => hfree row (List.mem_range'_1.mpr ⟨hge, hlt⟩)⟩
    · intro hrun
      exact accounts_of_fresh h (hrun (by omega)).fresh rfl rfl rfl

/-- **One call keeps the promise exactly when the cursor and the counter are sound.** -/
theorem keeps_iff_sound (h : manager.Accounts) {op : RowOp} (hlegal : manager.Legal op) :
    manager.Keeps op ↔ manager.Sound op := by
  cases op with
  | allocKvcache needSize => exact iff_of_true (keeps_allocKvcache h) trivial
  | allocContiguousKvcache needSize => exact keeps_allocContiguous_iff h
  | allocKvcacheIndex needSize => exact keeps_allocKvcacheIndex_iff h
  | addRef rows => exact (and_iff_left trivial).trans (accounts_addRef_iff h hlegal)
  | releaseRef rows => exact iff_of_true ⟨accounts_releaseRef h hlegal, trivial⟩ trivial
  | claim numRows => exact keeps_claim_iff h
  | freeAll => exact iff_of_true ⟨freeAll_accounts, trivial⟩ trivial

/-- **A run keeps every promise exactly when each of its calls is sound.** -/
theorem keeps_iff (gpuNumBlocks : Nat) (ops : List RowOp) (manager : KVCacheManager) :
    Run (Guarded Step Keeps) (create gpuNumBlocks) ops manager ↔
      Run (Guarded Step Sound) (create gpuNumBlocks) ops manager :=
  Run.guarded_iff_of_kept (I := Accounts)
    (fun _ _ _ _ hstep hkeeps => hstep.2 ▸ hkeeps.1)
    (fun _ _ _ h hstep => keeps_iff_sound h hstep.1) (create_accounts gpuNumBlocks)

/-- Rows taken past the cursor are handed out a second time. -/
theorem bump_hands_out_twice :
    ¬ ∀ (gpuNumBlocks : Nat) (ops : List RowOp) (manager : KVCacheManager),
      Run Step (create gpuNumBlocks) ops manager →
        Run (Guarded Step Keeps) (create gpuNumBlocks) ops manager := by
  intro hall
  let taken := ((create 9).apply (.allocKvcache 3)).2
  have hfirst : Step (create 9) (.allocKvcache 3) taken := ⟨trivial, rfl⟩
  have hsecond : Step taken (.allocKvcacheIndex 2) (taken.apply (.allocKvcacheIndex 2)).2 :=
    ⟨trivial, rfl⟩
  obtain ⟨manager, hmanager, -, hkeeps⟩ :=
    Run.snoc_iff.mp (hall 9 _ _ ((Run.single hfirst).snoc hsecond))
  obtain ⟨⟨-, hstep⟩, -⟩ := Run.single_iff.mp hmanager
  subst hstep
  rcases hkeeps.2 with ⟨rows, hrows, hfresh⟩ | ⟨hshort, -⟩
  · -- rows 0 and 1 come back while they are referenced
    have heq : (taken.apply (.allocKvcacheIndex 2)).1 = .ok (some [0, 1]) := rfl
    have hrows : rows = [0, 1] := by
      have hboth := hrows.symm.trans heq
      cases hboth
      rfl
    have hfree := (hfresh.free 0 (by simp [hrows])).2
    exact absurd hfree (by decide)
  · exact hshort (by decide)

end KVCacheManager

end RapidLlm
