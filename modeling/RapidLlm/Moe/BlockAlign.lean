import Mathlib.Algebra.BigOperators.Group.Finset.Piecewise
import Mathlib.Algebra.BigOperators.Ring.Finset
import Mathlib.Algebra.Ring.Divisibility.Basic
import Mathlib.Data.Nat.ModEq
import RapidLlm.Lib.Launch
import RapidLlm.Lib.Segments
import RapidLlm.Lib.Tiling
import RapidLlm.Engine.BlockPool

/-!
# RapidLlm.Moe.BlockAlign

**Sorting token slots by expert** (`kernels/ops/moe/fused_moe.py`): the histogram kernel, the
scatter kernel and `moe_align_block_size`.

* `topkIds` is the flat buffer of int32 ids the kernels read; an id outside `[0, numExperts)`
  means no local expert.
* A lane is what one index of a tile does, a masked lane does nothing, and a masked load gives
  the `other` of its call.
* The atomic adds of the histogram commute, so a count is how many adds went to its address.
* The buffers are allocated uninitialised: `none` is a cell no program wrote.
* `tl.arange(0, n)` has no empty tile, and `triton.next_power_of_2(0)` is `0`.
-/

namespace RapidLlm

open Tiling (numTiles)

/-- `triton.next_power_of_2`. -/
def nextPowerOf2 (n : Nat) : Nat := if n ≤ 1 then n else 2 ^ ((n - 1).log2 + 1)

/-- `_ALIGN_BLOCK_S`. -/
def alignBlockS : Nat := 1024

/-- The arguments of `moe_align_block_size`. -/
structure AlignCall where
  topkIds : List Int
  blockSize : Nat
  numExperts : Nat

namespace AlignCall

variable (call : AlignCall)

def numSlots : Nat := call.topkIds.length

def maxActive : Nat := min call.numExperts call.numSlots

/-- The length of `sorted_token_ids`. -/
def maxPadded : Nat := call.numSlots + call.maxActive * (call.blockSize - 1)

/-- The length of `expert_ids`. -/
def maxNumBlocks : Nat := (call.maxPadded + call.blockSize - 1) / call.blockSize

def blockS : Nat := min (nextPowerOf2 call.numSlots) alignBlockS

def fusedCount : Bool := call.numSlots ≤ call.blockS

def blockE : Nat := nextPowerOf2 call.numExperts

def blockPad : Nat := nextPowerOf2 call.blockSize

/-- `tl.load(topk_ids_ptr + s, mask=s < num_slots, other=-1)`. -/
def idAt (s : Nat) : Int := call.topkIds.getD s (-1)

/-! ### `_moe_align_count_kernel` -/

/-- The addresses program `pid` adds one to. -/
def countProgram (pid : Nat) : List Nat :=
  (List.range call.blockS).filterMap fun lane =>
    let offs := pid * call.blockS + lane
    let expert := call.idAt offs
    if offs < call.numSlots ∧ 0 ≤ expert ∧ expert < call.numExperts then some expert.toNat else none

/-- `counts[e]` after the launch. -/
def histogram (e : Nat) : Nat :=
  ((List.range (numTiles call.numSlots call.blockS)).flatMap call.countProgram).count e

/-! ### `_moe_align_scatter_kernel` -/

/-- Lane `e` of `counts`. -/
def counts (e : Nat) : Nat :=
  if call.fusedCount then (List.range call.blockS).countP fun s => call.idAt s = e
  else if e < call.numExperts then call.histogram e else 0

def padded (count : Nat) : Nat := (count + call.blockSize - 1) / call.blockSize * call.blockSize

/-- Exclusive prefix over experts. -/
def start (e : Nat) : Nat :=
  ((List.range call.blockE).map fun lane => if lane < e then call.padded (call.counts lane) else 0).sum

def myCount (e : Nat) : Nat :=
  ((List.range call.blockE).map fun lane => if lane = e then call.counts lane else 0).sum

def numTokensPostPadded : Nat :=
  ((List.range call.blockE).map fun lane => call.padded (call.counts lane)).sum

/-- Program `e` hits a slot routed to its expert. -/
def hit (e s : Nat) : Bool := call.idAt s = e

/-- The hits among the first `n` lanes of the tile at `s`. -/
def hits (e s n : Nat) : Nat := (List.range n).countP fun lane => call.hit e (s + lane)

/-- One round of the scatter loop: the stores of the tile at `s`. -/
def scatterTile (e s written : Nat) : List (Nat × Nat) :=
  (List.range call.blockS).filterMap fun lane =>
    -- `tl.cumsum(hit) - 1`
    let rank := call.hits e s (lane + 1) - 1
    if call.hit e (s + lane) then some (call.start e + written + rank, s + lane) else none

/-- `for s in range(0, num_slots, BLOCK_S)`, over the tiles that are left. -/
def scatterLoop (e : Nat) : List Nat → Nat → List (Nat × Nat)
  | [], _ => []
  | tile :: tiles, written =>
    call.scatterTile e (tile * call.blockS) written ++
      scatterLoop e tiles (written + call.hits e (tile * call.blockS) call.blockS)

/-- The sentinels on the tail the run padded. -/
def sentinels (e : Nat) : List (Nat × Nat) :=
  let myCount := call.myCount e
  (List.range call.blockPad).filterMap fun offsPad =>
    if offsPad < call.padded myCount - myCount then
      some (call.start e + myCount + offsPad, call.numSlots)
    else none

/-- What program `e` stores to `sorted_token_ids`. -/
def sortedStores (e : Nat) : List (Nat × Nat) :=
  call.scatterLoop e (List.range (numTiles call.numSlots call.blockS)) 0 ++ call.sentinels e

/-- What program `e` stores to `expert_ids`. -/
def expertStores (e : Nat) : List (Nat × Nat) :=
  let numBlocks := call.padded (call.myCount e) / call.blockSize
  let firstBlock := call.start e / call.blockSize
  (List.range (numTiles numBlocks call.blockPad)).flatMap fun tile =>
    (List.range call.blockPad).filterMap fun lane =>
      let offsB := tile * call.blockPad + lane
      if offsB < numBlocks then some (firstBlock + offsB, e) else none

/-- What program `e` stores to `num_tokens_post_padded`. -/
def numPostStores (e : Nat) : List (Nat × Nat) :=
  if e = 0 then [(0, call.numTokensPostPadded)] else []

end AlignCall

/-- The buffers `moe_align_block_size` hands on, `none` where nothing was written. -/
structure AlignedBuffers where
  sortedTokenIds : Nat → Option Nat
  expertIds : Nat → Option Nat
  numTokensPostPadded : Nat → Option Nat

/-- The stores of all programs of the scatter launch to one of its buffers. -/
def launched (stores : Nat → List (Nat × Nat)) (numExperts : Nat) : List (Nat × Option Nat) :=
  ((List.range numExperts).flatMap stores).map fun store => (store.1, some store.2)

/-- What the scatter launch leaves in the buffers, whatever order its stores were carried out
in. -/
structure Scattered (call : AlignCall) (buffers : AlignedBuffers) : Prop where
  sortedTokenIds : Outcome (launched call.sortedStores call.numExperts) (fun _ => none)
    buffers.sortedTokenIds
  expertIds : Outcome (launched call.expertStores call.numExperts) (fun _ => none)
    buffers.expertIds
  numTokensPostPadded : Outcome (launched call.numPostStores call.numExperts) (fun _ => none)
    buffers.numTokensPostPadded

/-- `moe_align_block_size`. A kernel with an empty tile does not compile. -/
def MoeAlignBlockSize (call : AlignCall) : Except Raised (AlignedBuffers → Prop) :=
  if call.blockSize = 0 then
    -- `max_num_blocks`
    .error (.zeroDivisionError "integer division or modulo by zero")
  else if call.blockS = 0 ∨ call.blockE = 0 then
    .error (.valueError "arange's end argument must be greater than the start argument")
  else .ok (Scattered call)

/-! ### Powers of two -/

theorem le_nextPowerOf2 (n : Nat) : n ≤ nextPowerOf2 n := by
  unfold nextPowerOf2
  split
  · exact le_rfl
  · have h : n - 1 < 2 ^ ((n - 1).log2 + 1) := Nat.lt_log2_self
    omega

theorem nextPowerOf2_eq_zero {n : Nat} : nextPowerOf2 n = 0 ↔ n = 0 := by
  unfold nextPowerOf2
  split
  · rfl
  · have h : 0 < 2 ^ ((n - 1).log2 + 1) := Nat.two_pow_pos _
    omega

namespace AlignCall

open Segments Tiling

variable {call : AlignCall} {e s x a v : Nat}

/-! ### Counting -/

/-- The key a slot is sorted by: one more than its expert's number. -/
def key (call : AlignCall) (s : Nat) : Nat := (call.idAt s + 1).toNat

theorem key_eq : call.key s = e + 1 ↔ call.idAt s = e := by
  unfold key
  omega

theorem hit_eq : call.hit e s = decide (call.key s = e + 1) := by
  unfold hit
  simp only [key_eq]

theorem idAt_of_le (h : call.numSlots ≤ s) : call.idAt s = -1 := by
  unfold idAt
  rw [List.getD_eq_getElem?_getD, List.getElem?_eq_none h]
  rfl

theorem idAt_eq (hs : s < call.topkIds.length) : call.idAt s = call.topkIds[s] := by
  unfold idAt
  rw [List.getD_eq_getElem?_getD, List.getElem?_eq_getElem hs, Option.getD_some]

theorem lt_of_key (h : call.key s = e + 1) : s < call.numSlots := by
  by_contra hle
  have hid := key_eq.mp h
  rw [idAt_of_le (Nat.not_lt.mp hle)] at hid
  omega

/-- How many slots an expert draws. -/
def load (call : AlignCall) (e : Nat) : Nat := held call.key call.numSlots (e + 1)

/-- Masked lanes draw nothing. -/
theorem held_eq_load {n : Nat} (h : call.numSlots ≤ n) : held call.key n (e + 1) = call.load e := by
  induction h with
  | refl => rfl
  | step h ih =>
    rw [held_succ, ih, if_neg fun hkey => absurd (lt_of_key hkey) (Nat.not_lt.mpr h), add_zero]

theorem histogram_eq (hb : 0 < call.blockS) (he : e < call.numExperts) :
    call.histogram e = call.load e := by
  let address (offs : Nat) : Option Nat :=
    if offs < call.numSlots ∧ 0 ≤ call.idAt offs ∧ call.idAt offs < call.numExperts then
      some (call.idAt offs).toNat
    else none
  have hprogram : call.countProgram = fun pid =>
      ((List.range call.blockS).map fun lane => pid * call.blockS + lane).filterMap address := by
    funext pid
    rw [List.filterMap_map]
    rfl
  have hadded : ∀ offs, (address offs == some e) = decide (call.key offs = e + 1) := by
    intro offs
    rw [Bool.eq_iff_iff, beq_iff_eq, decide_eq_true_eq, key_eq]
    by_cases hoffs : offs < call.numSlots
    · simp only [address, hoffs, true_and]
      split <;> simp <;> omega
    · have hid := idAt_of_le (Nat.not_lt.mp hoffs)
      simp only [address, hoffs, false_and, if_false, hid]
      simp
  unfold histogram
  rw [hprogram, ← List.filterMap_flatMap, flatMap_tiles, List.count_filterMap]
  simp only [hadded]
  exact held_eq_load (le_numTiles_mul _ hb)

/-- What is counted for a lane: on the histogram path an expert's load, and the load of any lane
of the tile on the fused path. -/
theorem counts_eq (hb : 0 < call.blockS) :
    call.counts e = if call.fusedCount ∨ e < call.numExperts then call.load e else 0 := by
  unfold counts
  by_cases hfused : call.fusedCount = true
  · have hle : call.numSlots ≤ call.blockS := of_decide_eq_true hfused
    simp only [hfused, if_true, true_or, ← key_eq]
    exact held_eq_load hle
  · rw [Bool.not_eq_true] at hfused
    simp only [hfused, Bool.false_eq_true, if_false, false_or]
    split
    · exact histogram_eq hb ‹_›
    · rfl

/-! ### The layout of the runs -/

section Layout

variable (hsize : 0 < call.blockSize)
include hsize

omit hsize in
theorem dvd_padded (count : Nat) : call.blockSize ∣ call.padded count := Nat.dvd_mul_left _ _

theorem le_padded (count : Nat) : count ≤ call.padded count := le_numTiles_mul count hsize

theorem padded_lt (count : Nat) : call.padded count < count + call.blockSize := by
  have h := Nat.div_mul_le_self (count + call.blockSize - 1) call.blockSize
  change (count + call.blockSize - 1) / call.blockSize * call.blockSize < _
  omega

theorem padded_zero : call.padded 0 = 0 := by
  unfold padded
  rw [Nat.div_eq_of_lt (by omega), Nat.zero_mul]

end Layout

/-- The padded length of run `e`. -/
def runLength (call : AlignCall) (e : Nat) : Nat := call.padded (call.counts e)

theorem numExperts_le : call.numExperts ≤ call.blockE := le_nextPowerOf2 _

theorem start_eq (he : e ≤ call.blockE) : call.start e = runStart call.runLength e := by
  obtain ⟨rest, hrest⟩ := Nat.exists_eq_add_of_le he
  unfold start
  rw [hrest]
  change ∑ lane ∈ Finset.range (e + rest), (if lane < e then call.runLength lane else 0) = _
  have hbelow : ∀ k ∈ Finset.range e, (if k < e then call.runLength k else 0) = call.runLength k :=
    fun k hk => if_pos (Finset.mem_range.mp hk)
  have habove : ∀ k ∈ Finset.range rest, (if e + k < e then call.runLength (e + k) else 0) = 0 :=
    fun k _ => if_neg (by omega)
  rw [Finset.sum_range_add, Finset.sum_congr rfl hbelow, Finset.sum_eq_zero habove, add_zero]
  rfl

theorem myCount_eq (he : e < call.blockE) : call.myCount e = call.counts e := by
  change ∑ lane ∈ Finset.range call.blockE, (if lane = e then call.counts lane else 0) = _
  rw [Finset.sum_ite_eq', if_pos (Finset.mem_range.mpr he)]

theorem run_end_le (he : e < call.numExperts) :
    runStart call.runLength e + call.runLength e ≤ runStart call.runLength call.numExperts := by
  rw [← runStart_succ]
  exact runStart_mono he

theorem runLength_dvd : call.blockSize ∣ call.runLength e := dvd_padded _

theorem runStart_dvd : call.blockSize ∣ runStart call.runLength e :=
  Finset.dvd_sum fun _ _ => runLength_dvd

theorem numTokensPostPadded_eq : call.numTokensPostPadded = runStart call.runLength call.blockE :=
  rfl

/-! ### What the scatter loop stores -/

theorem held_add (n : Nat) : held call.key (s + n) (e + 1) =
    held call.key s (e + 1) + call.hits e s n := by
  unfold held hits
  rw [List.range_add, List.countP_append, List.countP_map]
  simp only [hit_eq]
  rfl

/-- `tl.cumsum(hit) - 1` counts the hits before the lane. -/
theorem rank_eq {lane : Nat} (hkey : call.key (s + lane) = e + 1) :
    held call.key s (e + 1) + (call.hits e s (lane + 1) - 1) = earlier call.key (s + lane) := by
  have hnext : held call.key (s + (lane + 1)) (e + 1) =
      held call.key s (e + 1) + call.hits e s (lane + 1) := held_add (lane + 1)
  have hmono : held call.key s (e + 1) ≤ held call.key (s + lane) (e + 1) :=
    held_mono (Nat.le_add_right s lane)
  rw [← Nat.add_assoc, held_succ, if_pos hkey] at hnext
  rw [earlier, hkey]
  omega

theorem mem_scatterTile : (a, x) ∈ call.scatterTile e s (held call.key s (e + 1)) ↔
    (s ≤ x ∧ x < s + call.blockS) ∧ call.key x = e + 1 ∧
      a = call.start e + earlier call.key x := by
  unfold scatterTile
  simp only [List.mem_filterMap, List.mem_range, hit_eq, decide_eq_true_eq,
    Option.ite_none_right_eq_some, Option.some.injEq, Prod.mk.injEq]
  constructor
  · rintro ⟨lane, hlane, hkey, rfl, rfl⟩
    exact ⟨⟨Nat.le_add_right _ _, by omega⟩, hkey, by rw [← rank_eq hkey, Nat.add_assoc]⟩
  · rintro ⟨⟨hle, hlt⟩, hkey, rfl⟩
    obtain ⟨lane, rfl⟩ := Nat.exists_eq_add_of_le hle
    exact ⟨lane, by omega, hkey, by rw [← rank_eq hkey, Nat.add_assoc], rfl⟩

/-- `written` is the rank of the first lane of the next tile. -/
theorem mem_scatterLoop (tile count : Nat) :
    (a, x) ∈ call.scatterLoop e (List.range' tile count)
        (held call.key (tile * call.blockS) (e + 1)) ↔
      (tile * call.blockS ≤ x ∧ x < (tile + count) * call.blockS) ∧ call.key x = e + 1 ∧
        a = call.start e + earlier call.key x := by
  induction count generalizing tile with
  | zero =>
    simp only [List.range'_zero, scatterLoop, List.not_mem_nil, Nat.add_zero, false_iff]
    omega
  | succ count ih =>
    have hnext : held call.key (tile * call.blockS) (e + 1) +
        call.hits e (tile * call.blockS) call.blockS =
          held call.key ((tile + 1) * call.blockS) (e + 1) := by
      rw [Nat.succ_mul, held_add]
    have hend : (tile + 1 + count) * call.blockS = (tile + (count + 1)) * call.blockS := by
      congr 1
      omega
    have hle : (tile + 1) * call.blockS ≤ (tile + (count + 1)) * call.blockS :=
      Nat.mul_le_mul_right _ (by omega)
    rw [List.range'_succ, scatterLoop, List.mem_append, mem_scatterTile, hnext, ih, hend]
    rw [Nat.succ_mul] at hle ⊢
    constructor
    · rintro (⟨hx, hrest⟩ | ⟨hx, hrest⟩)
      · exact ⟨by omega, hrest⟩
      · exact ⟨by omega, hrest⟩
    · rintro ⟨hx, hrest⟩
      by_cases hfirst : x < tile * call.blockS + call.blockS
      · exact .inl ⟨by omega, hrest⟩
      · exact .inr ⟨by omega, hrest⟩

/-! ### What a program stores -/

/-- The kernels of a call compile, and its blocks are not empty. -/
structure Compiles (call : AlignCall) : Prop where
  slots : 0 < call.numSlots
  experts : 0 < call.numExperts
  size : 0 < call.blockSize

section Programs

variable (h : call.Compiles)
include h

theorem Compiles.blockS_pos : 0 < call.blockS := by
  have hpow := le_nextPowerOf2 call.numSlots
  have hslots := h.slots
  unfold blockS alignBlockS
  omega

theorem Compiles.blockPad_pos : 0 < call.blockPad :=
  Nat.lt_of_lt_of_le h.size (le_nextPowerOf2 _)

theorem counts_expert (he : e < call.numExperts) : call.counts e = call.load e := by
  rw [counts_eq h.blockS_pos, if_pos (.inr he)]

theorem load_le_runLength (he : e < call.numExperts) : call.load e ≤ call.runLength e := by
  rw [← counts_expert h he]
  exact le_padded h.size _

/-- A program lists the slots of its expert in order, and sentinels after them. -/
theorem mem_sortedStores (he : e < call.numExperts) : (a, v) ∈ call.sortedStores e ↔
    call.key v = e + 1 ∧ a = runStart call.runLength e + earlier call.key v ∨
      v = call.numSlots ∧ runStart call.runLength e + call.load e ≤ a ∧
        a < runStart call.runLength e + call.runLength e := by
  have hcounts := counts_expert h he
  have heE : e < call.blockE := Nat.lt_of_lt_of_le he numExperts_le
  have hstart := start_eq heE.le
  have hloop : (a, v) ∈ call.scatterLoop e (List.range (numTiles call.numSlots call.blockS)) 0 ↔
      call.key v = e + 1 ∧ a = runStart call.runLength e + earlier call.key v := by
    have hcover := le_numTiles_mul call.numSlots h.blockS_pos
    have hmem := @mem_scatterLoop call e v a 0 (numTiles call.numSlots call.blockS)
    rw [← List.range_eq_range', Nat.zero_mul, Nat.zero_add, held_zero, hstart] at hmem
    rw [hmem, and_iff_right_of_imp]
    rintro ⟨hkey, -⟩
    have hlt := lt_of_key hkey
    omega
  have hsentinels : (a, v) ∈ call.sentinels e ↔
      v = call.numSlots ∧ runStart call.runLength e + call.load e ≤ a ∧
        a < runStart call.runLength e + call.runLength e := by
    have hlen : call.runLength e = call.padded (call.load e) := by rw [runLength, hcounts]
    have hle := load_le_runLength h he
    have hpad : call.runLength e - call.load e < call.blockPad := by
      have hlt := padded_lt h.size (call.load e)
      have hpow := le_nextPowerOf2 call.blockSize
      unfold blockPad
      omega
    unfold sentinels
    simp only [List.mem_filterMap, List.mem_range, myCount_eq heE, hcounts, ← hlen, hstart,
      Option.ite_none_right_eq_some, Option.some.injEq, Prod.mk.injEq]
    constructor
    · rintro ⟨pad, -, hpad, rfl, rfl⟩
      exact ⟨rfl, by omega, by omega⟩
    · rintro ⟨rfl, hlo, hhi⟩
      exact ⟨a - (runStart call.runLength e + call.load e), by omega, by omega, by omega, rfl⟩
  rw [sortedStores, List.mem_append, hloop, hsentinels]

/-- The addresses of a program are those of its run. -/
theorem mem_run (he : e < call.numExperts) (hmem : (a, v) ∈ call.sortedStores e) :
    runStart call.runLength e ≤ a ∧ a < runStart call.runLength e + call.runLength e := by
  have hle := load_le_runLength h he
  rcases (mem_sortedStores h he).mp hmem with ⟨hkey, rfl⟩ | ⟨-, hlo, hhi⟩
  · have hlt := earlier_lt_held call.key (lt_of_key hkey)
    rw [hkey] at hlt
    unfold load at hle
    omega
  · omega

theorem mem_expertStores (he : e < call.numExperts) : (a, v) ∈ call.expertStores e ↔
    v = e ∧ runStart call.runLength e / call.blockSize ≤ a ∧
      a < runStart call.runLength e / call.blockSize + call.runLength e / call.blockSize := by
  have heE : e < call.blockE := Nat.lt_of_lt_of_le he numExperts_le
  have hlen : call.padded (call.myCount e) = call.runLength e := by rw [myCount_eq heE, runLength]
  unfold expertStores
  simp only [List.mem_flatMap, List.mem_filterMap, List.mem_range, start_eq heE.le, hlen,
    Option.ite_none_right_eq_some, Option.some.injEq, Prod.mk.injEq]
  constructor
  · rintro ⟨tile, -, lane, -, hlt, rfl, rfl⟩
    exact ⟨rfl, by omega, by omega⟩
  · rintro ⟨rfl, hlo, hhi⟩
    obtain ⟨off, rfl⟩ := Nat.exists_eq_add_of_le hlo
    have hcover := le_numTiles_mul (call.runLength v / call.blockSize) h.blockPad_pos
    refine ⟨off / call.blockPad, ?_, off % call.blockPad, Nat.mod_lt _ h.blockPad_pos, ?_⟩
    · exact Nat.div_lt_of_lt_mul (by rw [Nat.mul_comm]; omega)
    · rw [Nat.div_add_mod']
      exact ⟨by omega, rfl, rfl⟩

/-! ### The buffers are large enough -/

/-- The runs of the experts end inside `sorted_token_ids`: one slot cannot open two runs. -/
theorem runs_fit : runStart call.runLength call.numExperts ≤ call.maxPadded := by
  let active (e : Nat) : Nat := if call.load e = 0 then 0 else 1
  have hload : ∑ e ∈ Finset.range call.numExperts, call.load e ≤ call.numSlots := by
    have hkeys := sum_held_le call.key call.numSlots
      ((Finset.range call.numExperts).map ⟨Nat.succ, Nat.succ_injective⟩)
    rwa [Finset.sum_map] at hkeys
  have hactive : ∑ e ∈ Finset.range call.numExperts, active e ≤ call.maxActive := by
    refine Nat.le_min.mpr ⟨?_, le_trans (Finset.sum_le_sum fun e _ => ?_) hload⟩
    · refine le_trans (Finset.sum_le_card_nsmul _ _ 1 fun e _ => ?_) (by simp)
      dsimp only [active]
      split <;> omega
    · dsimp only [active]
      split <;> omega
  have hrun : ∀ e ∈ Finset.range call.numExperts,
      call.runLength e ≤ call.load e + active e * (call.blockSize - 1) := by
    intro e he
    rw [runLength, counts_expert h (Finset.mem_range.mp he)]
    dsimp only [active]
    split
    · rename_i hzero
      rw [hzero, padded_zero h.size]
      omega
    · have hlt := padded_lt h.size (call.load e)
      have hsize := h.size
      omega
  calc runStart call.runLength call.numExperts
      ≤ ∑ e ∈ Finset.range call.numExperts, (call.load e + active e * (call.blockSize - 1)) :=
        Finset.sum_le_sum hrun
    _ = ∑ e ∈ Finset.range call.numExperts, call.load e +
          (∑ e ∈ Finset.range call.numExperts, active e) * (call.blockSize - 1) := by
        rw [Finset.sum_add_distrib, Finset.sum_mul]
    _ ≤ call.maxPadded := Nat.add_le_add hload (Nat.mul_le_mul_right _ hactive)

theorem blocks_fit (ha : a ≤ call.maxPadded) : a / call.blockSize ≤ call.maxNumBlocks := by
  unfold maxNumBlocks
  exact Nat.div_le_div_right (by have := h.size; omega)

end Programs

/-! ### The outcome of the launch -/

theorem mem_launched {stores : Nat → List (Nat × Nat)} {numExperts : Nat} {value : Option Nat} :
    (a, value) ∈ launched stores numExperts ↔
      ∃ e < numExperts, ∃ v, value = some v ∧ (a, v) ∈ stores e := by
  unfold launched
  simp only [List.mem_map, List.mem_flatMap, List.mem_range, Prod.mk.injEq, Prod.exists]
  constructor
  · rintro ⟨a', v, ⟨e, he, hmem⟩, rfl, rfl⟩
    exact ⟨e, he, v, rfl, hmem⟩
  · rintro ⟨e, he, v, rfl, hmem⟩
    exact ⟨a, v, ⟨e, he, hmem⟩, rfl, rfl⟩

/-- A launch that gives a cell one value only. -/
theorem launched_stored {stores : Nat → List (Nat × Nat)} {buffer : Nat → Option Nat}
    (hout : Outcome (launched stores call.numExperts) (fun _ => none) buffer)
    (he : e < call.numExperts) (hmem : (a, v) ∈ stores e)
    (hone : ∀ e' < call.numExperts, ∀ v', (a, v') ∈ stores e' → v' = v) : buffer a = some v := by
  refine hout.stored (mem_launched.mpr ⟨e, he, v, rfl, hmem⟩) fun other hother => ?_
  obtain ⟨e', he', v', rfl, hmem'⟩ := mem_launched.mp hother
  rw [hone e' he' v' hmem']

section Outcomes

variable (h : call.Compiles) {buffers : AlignedBuffers}
include h

/-- No two programs store to one address, and no program stores two values to it. -/
theorem sortedStores_unique {e' v' : Nat} (he : e < call.numExperts) (he' : e' < call.numExperts)
    (hmem : (a, v) ∈ call.sortedStores e) (hmem' : (a, v') ∈ call.sortedStores e') :
    e' = e ∧ v' = v := by
  have hrun := mem_run h he hmem
  have hrun' := mem_run h he' hmem'
  obtain rfl : e' = e := Nat.le_antisymm (run_le hrun'.1 le_rfl hrun.2) (run_le hrun.1 le_rfl hrun'.2)
  refine ⟨rfl, ?_⟩
  have hplace : ∀ x, call.key x = e' + 1 → earlier call.key x < call.load e' := fun x hkey => by
    have hlt := earlier_lt_held call.key (lt_of_key hkey)
    rwa [hkey] at hlt
  rcases (mem_sortedStores h he).mp hmem with ⟨hkey, ha⟩ | ⟨hv, hlo, -⟩ <;>
    rcases (mem_sortedStores h he).mp hmem' with ⟨hkey', ha'⟩ | ⟨hv', hlo', -⟩
  · exact earlier_inj (hkey'.trans hkey.symm) (by omega)
  · have := hplace v hkey
    omega
  · have := hplace v' hkey'
    omega
  · rw [hv, hv']

theorem sorted_stored (hout : Scattered call buffers) (he : e < call.numExperts)
    (hmem : (a, v) ∈ call.sortedStores e) : buffers.sortedTokenIds a = some v :=
  launched_stored hout.sortedTokenIds he hmem fun _ he' _ hmem' => (sortedStores_unique h he he' hmem hmem').2

/-- The block of an address in a run is named after the run's expert. -/
theorem expert_stored (hout : Scattered call buffers) (he : e < call.numExperts)
    (hlo : runStart call.runLength e ≤ a)
    (hhi : a < runStart call.runLength e + call.runLength e) :
    buffers.expertIds (a / call.blockSize) = some e := by
  have hblock : ∀ e', (runStart call.runLength e' / call.blockSize ≤ a / call.blockSize ∧
      a / call.blockSize < runStart call.runLength e' / call.blockSize +
        call.runLength e' / call.blockSize) ↔
      runStart call.runLength e' ≤ a ∧ a < runStart call.runLength e' + call.runLength e' := by
    intro e'
    obtain ⟨first, hfirst⟩ : call.blockSize ∣ runStart call.runLength e' := runStart_dvd
    obtain ⟨size, hsize⟩ : call.blockSize ∣ call.runLength e' := runLength_dvd
    rw [hfirst, hsize, Nat.mul_div_cancel_left _ h.size, Nat.mul_div_cancel_left _ h.size,
      Nat.le_div_iff_mul_le h.size, Nat.div_lt_iff_lt_mul h.size, ← Nat.mul_add,
      Nat.mul_comm first, Nat.mul_comm (first + size)]
  refine launched_stored hout.expertIds he
    ((mem_expertStores h he).mpr ⟨rfl, (hblock e).mpr ⟨hlo, hhi⟩⟩) fun e' he' v' hmem' => ?_
  obtain ⟨rfl, hin⟩ := (mem_expertStores h he').mp hmem'
  have hrun' := (hblock v').mp hin
  exact Nat.le_antisymm (run_le hrun'.1 le_rfl hhi) (run_le hlo le_rfl hrun'.2)

end Outcomes

end AlignCall

/-! ### What the callers rely on -/

/-- The first `num_tokens_post_padded` entries list every slot of a local expert once, in whole
blocks of one expert each, and the rest of a block is the sentinel. -/
structure Aligned (call : AlignCall) (buffers : AlignedBuffers) (numPost : Nat) : Prop where
  posted : buffers.numTokensPostPadded 0 = some numPost
  whole : call.blockSize ∣ numPost
  fits : numPost ≤ call.maxPadded
  listed : ∀ a < numPost, ∃ e < call.numExperts,
    buffers.expertIds (a / call.blockSize) = some e ∧
      (buffers.sortedTokenIds a = some call.numSlots ∨
        ∃ s < call.numSlots, buffers.sortedTokenIds a = some s ∧ call.idAt s = e)
  grouped : ∀ a b e e', a ≤ b → b < numPost → buffers.expertIds (a / call.blockSize) = some e →
    buffers.expertIds (b / call.blockSize) = some e' → e ≤ e'
  once : ∀ s < call.numSlots, 0 ≤ call.idAt s → call.idAt s < call.numExperts →
    ∃! a, a < numPost ∧ buffers.sortedTokenIds a = some s

/-- No program stores past the end of a buffer. -/
structure StaysInside (call : AlignCall) : Prop where
  counts : ∀ pid, ∀ e ∈ call.countProgram pid, e < call.numExperts
  sorted : ∀ e < call.numExperts, ∀ store ∈ call.sortedStores e, store.1 < call.maxPadded
  experts : ∀ e < call.numExperts, ∀ store ∈ call.expertStores e, store.1 < call.maxNumBlocks
  numPost : ∀ e < call.numExperts, ∀ store ∈ call.numPostStores e, store.1 < 1

/-- A lane of the tile of counts that no program stands for. -/
def Phantom (call : AlignCall) (id : Int) : Prop := (call.numExperts : Int) ≤ id ∧ id < call.blockE

/-- The calls whose layout is right: nothing is empty, and one tile counts no lane that has no
program. -/
structure Regular (call : AlignCall) : Prop where
  compiles : call.Compiles
  counted : alignBlockS < call.numSlots ∨ ∀ id ∈ call.topkIds, ¬ Phantom call id

namespace AlignCall

open Segments Tiling

variable {call : AlignCall} {e s a v : Nat}

theorem blockS_eq_zero : call.blockS = 0 ↔ call.numSlots = 0 := by
  have hpow : nextPowerOf2 call.numSlots = 0 ↔ call.numSlots = 0 := nextPowerOf2_eq_zero
  unfold blockS alignBlockS
  omega

theorem fusedCount_iff : call.fusedCount = true ↔ call.numSlots ≤ alignBlockS := by
  have hpow := le_nextPowerOf2 call.numSlots
  unfold fusedCount blockS
  rw [decide_eq_true_eq]
  omega

/-- When `moe_align_block_size` returns. -/
theorem moeAlignBlockSize_ok {made : AlignedBuffers → Prop} :
    MoeAlignBlockSize call = .ok made ↔ call.Compiles ∧ made = Scattered call := by
  have hexperts : call.blockE = 0 ↔ call.numExperts = 0 := nextPowerOf2_eq_zero
  unfold MoeAlignBlockSize
  simp only [blockS_eq_zero, hexperts]
  split
  · rename_i hsize
    exact ⟨fun h => (by cases h), fun h => absurd hsize h.1.size.ne'⟩
  · split
    · rename_i _ hempty
      refine ⟨fun h => (by cases h), fun h => ?_⟩
      rcases hempty with hslots | hexperts
      · exact absurd hslots h.1.slots.ne'
      · exact absurd hexperts h.1.experts.ne'
    · rw [Except.ok.injEq, eq_comm, iff_and_self]
      intro _
      exact ⟨by omega, by omega, by omega⟩

section Buffers

variable (h : call.Compiles) {buffers : AlignedBuffers}
include h

theorem staysInside : StaysInside call where
  counts pid e he := by
    simp only [countProgram, List.mem_filterMap, Option.ite_none_right_eq_some,
      Option.some.injEq] at he
    obtain ⟨lane, -, hguard, rfl⟩ := he
    omega
  sorted e he store hmem := by
    have hrun := mem_run h he hmem
    have hend := run_end_le he
    have hfit := runs_fit h
    omega
  experts e he store hmem := by
    obtain ⟨-, -, hlt⟩ := (mem_expertStores h he).mp hmem
    have hend : runStart call.runLength e + call.runLength e ≤ call.maxPadded :=
      le_trans (run_end_le he) (runs_fit h)
    have hblocks := blocks_fit h hend
    rw [Nat.add_div_of_dvd_right runStart_dvd] at hblocks
    omega
  numPost e he store hmem := by
    unfold numPostStores at hmem
    split at hmem
    · rw [List.mem_singleton] at hmem
      rw [hmem]
      exact Nat.zero_lt_one
    · cases hmem

theorem numPost_stored (hout : Scattered call buffers) :
    buffers.numTokensPostPadded 0 = some call.numTokensPostPadded := by
  refine launched_stored hout.numTokensPostPadded h.experts (by simp [numPostStores]) fun e _ v hmem => ?_
  unfold numPostStores at hmem
  split at hmem
  · rw [List.mem_singleton, Prod.mk.injEq] at hmem
    exact hmem.2
  · cases hmem

/-- A cell past the runs of the experts is not written. -/
theorem sorted_unwritten (hout : Scattered call buffers)
    (ha : runStart call.runLength call.numExperts ≤ a) : buffers.sortedTokenIds a = none := by
  refine hout.sortedTokenIds.kept fun value hmem => ?_
  obtain ⟨e, he, v, rfl, hstore⟩ := mem_launched.mp hmem
  have hrun := mem_run h he hstore
  have hend := run_end_le he
  omega

omit h in
/-- The place of a slot in the run of its expert. -/
theorem slot_place (he : call.idAt s = e) : call.key s = e + 1 ∧ s < call.numSlots ∧
    earlier call.key s < call.load e := by
  have hkey := key_eq.mpr he
  have hlt := earlier_lt_held call.key (lt_of_key hkey)
  rw [hkey] at hlt
  exact ⟨hkey, lt_of_key hkey, hlt⟩

/-- The layout holds when the runs of the experts are all that is counted. -/
theorem aligned (hall : call.numTokensPostPadded = runStart call.runLength call.numExperts)
    (hout : Scattered call buffers) : Aligned call buffers call.numTokensPostPadded where
  posted := numPost_stored h hout
  whole := by
    rw [hall]
    exact runStart_dvd
  fits := by
    rw [hall]
    exact runs_fit h
  listed a ha := by
    rw [hall] at ha
    obtain ⟨e, he, hlo, hhi⟩ := exists_run ha
    refine ⟨e, he, expert_stored h hout he hlo hhi, ?_⟩
    by_cases hpad : runStart call.runLength e + call.load e ≤ a
    · exact .inl (sorted_stored h hout he ((mem_sortedStores h he).mpr (.inr ⟨rfl, hpad, hhi⟩)))
    · obtain ⟨s, hs, hkey, hplace⟩ : ∃ s < call.numSlots, call.key s = e + 1 ∧
          earlier call.key s = a - runStart call.runLength e :=
        exists_of_lt_held (by unfold load at hpad; omega)
      refine .inr ⟨s, hs, sorted_stored h hout he ((mem_sortedStores h he).mpr
        (.inl ⟨hkey, ?_⟩)), key_eq.mp hkey⟩
      omega
  grouped a b e e' hab hb hea heb := by
    rw [hall] at hb
    obtain ⟨ea, hea', hloa, hhia⟩ := exists_run (Nat.lt_of_le_of_lt hab hb)
    obtain ⟨eb, heb', hlob, hhib⟩ := exists_run hb
    rw [expert_stored h hout hea' hloa hhia, Option.some.injEq] at hea
    rw [expert_stored h hout heb' hlob hhib, Option.some.injEq] at heb
    subst hea heb
    exact run_le hloa hab hhib
  once s hs hlo hhi := by
    obtain ⟨e, he⟩ := Int.eq_ofNat_of_zero_le hlo
    have heE : e < call.numExperts := by omega
    obtain ⟨hkey, -, hplace⟩ := slot_place he
    have hrun := load_le_runLength h heE
    have hend := run_end_le heE
    refine ⟨runStart call.runLength e + earlier call.key s, ⟨by omega, ?_⟩, ?_⟩
    · exact sorted_stored h hout heE ((mem_sortedStores h heE).mpr (.inl ⟨hkey, rfl⟩))
    · rintro a ⟨ha, hat⟩
      rw [hall] at ha
      obtain ⟨e', he', hlo', hhi'⟩ := exists_run ha
      by_cases hpad : runStart call.runLength e' + call.load e' ≤ a
      · rw [sorted_stored h hout he' ((mem_sortedStores h he').mpr (.inr ⟨rfl, hpad, hhi'⟩)),
          Option.some.injEq] at hat
        omega
      · obtain ⟨s', -, hkey', hplace'⟩ : ∃ s' < call.numSlots, call.key s' = e' + 1 ∧
            earlier call.key s' = a - runStart call.runLength e' :=
          exists_of_lt_held (by unfold load at hpad; omega)
        rw [sorted_stored h hout he' ((mem_sortedStores h he').mpr (.inl ⟨hkey', by omega⟩)),
          Option.some.injEq] at hat
        subst hat
        rw [hkey] at hkey'
        obtain rfl : e = e' := by omega
        omega

/-! ### When nothing else is counted -/

/-- The condition under which the two halves agree. -/
theorem all_counted_iff : call.numTokensPostPadded = runStart call.runLength call.numExperts ↔
    alignBlockS < call.numSlots ∨ ∀ id ∈ call.topkIds, ¬ Phantom call id := by
  obtain ⟨rest, hrest⟩ := Nat.exists_eq_add_of_le (numExperts_le : call.numExperts ≤ call.blockE)
  have hsplit : call.numTokensPostPadded = runStart call.runLength call.numExperts +
      ∑ k ∈ Finset.range rest, call.runLength (call.numExperts + k) := by
    rw [numTokensPostPadded_eq, hrest]
    exact Finset.sum_range_add _ _ _
  rw [hsplit, Nat.add_eq_left, Finset.sum_eq_zero_iff]
  have hrun : ∀ lane, call.runLength lane = 0 ↔ call.counts lane = 0 := by
    intro lane
    unfold runLength
    constructor
    · intro hzero
      have hle := le_padded h.size (call.counts lane)
      omega
    · intro hzero
      rw [hzero, padded_zero h.size]
  have hcounts : ∀ k, call.counts (call.numExperts + k) =
      if call.fusedCount then call.load (call.numExperts + k) else 0 := by
    intro k
    rw [counts_eq h.blockS_pos]
    simp only [Nat.not_lt.mpr (Nat.le_add_right _ _), or_false]
  simp only [hrun, hcounts, fusedCount_iff, Finset.mem_range]
  by_cases hone : call.numSlots ≤ alignBlockS
  · simp only [hone, if_true, Nat.not_lt.mpr hone, false_or]
    constructor
    · intro hzero id hid
      rintro ⟨hlo, hhi⟩
      obtain ⟨s, hs, rfl⟩ := List.mem_iff_getElem.mp hid
      obtain ⟨lane, hlane⟩ := Int.eq_ofNat_of_zero_le (le_trans (Int.natCast_nonneg _) hlo)
      obtain ⟨k, rfl⟩ : ∃ k, lane = call.numExperts + k := Nat.exists_eq_add_of_le (by omega)
      obtain ⟨-, -, hplace⟩ := slot_place ((idAt_eq hs).trans hlane)
      have hload := hzero k (by omega)
      omega
    · intro hclean k hk
      by_contra hne
      obtain ⟨s, hs, hkey, -⟩ := exists_of_lt_held
        (Nat.pos_of_ne_zero hne : 0 < held call.key call.numSlots (call.numExperts + k + 1))
      have hid := key_eq.mp hkey
      refine hclean _ (List.getElem_mem hs) ?_
      rw [← idAt_eq hs, hid]
      exact ⟨by omega, by omega⟩
  · simp [hone, Nat.not_le.mp hone]

end Buffers

/-- What a launch leaves is laid out as promised on the regular calls only. -/
theorem aligned_iff (h : call.Compiles) :
    (∀ buffers, Scattered call buffers → ∃ numPost, Aligned call buffers numPost) ↔
      Regular call := by
  constructor
  · intro hall
    refine ⟨h, (all_counted_iff h).mp ?_⟩
    have hout : Scattered call ⟨_, _, _⟩ :=
      ⟨outcome_exists _ _, outcome_exists _ _, outcome_exists _ _⟩
    obtain ⟨numPost, haligned⟩ := hall _ hout
    obtain rfl : call.numTokensPostPadded = numPost :=
      Option.some.inj ((numPost_stored h hout).symm.trans haligned.posted)
    have hle : runStart call.runLength call.numExperts ≤ call.numTokensPostPadded :=
      runStart_mono numExperts_le
    by_contra hne
    -- The first cell past the runs is below the bound and was never written.
    obtain ⟨e, -, -, hentry⟩ := haligned.listed _ (Nat.lt_of_le_of_ne hle (Ne.symm hne))
    have hnone := sorted_unwritten h hout le_rfl
    rcases hentry with hpad | ⟨s, -, hslot, -⟩
    · rw [hnone] at hpad
      cases hpad
    · rw [hnone] at hslot
      cases hslot
  · intro hregular buffers hout
    exact ⟨_, aligned h ((all_counted_iff h).mpr hregular.counted) hout⟩

end AlignCall

end RapidLlm
