import Mathlib.Algebra.BigOperators.Ring.Finset
import Mathlib.Tactic.Ring
import RapidLlm.Moe.BlockAlign
import RapidLlm.Moe.FusedMoe

/-!
# RapidLlm.Moe.GroupedGemm

**The routed sum of a fused MoE call** (`kernels/ops/moe/fused_moe.py`): the grouped GEMM, the
activation, the masked sum and `fused_moe` around them.

* Values are of a commutative semiring, and an expert weight is what the kernel widens its tile
  to. The activation is a parameter, one element of `silu(gate) * up` with its clamps.
* Every buffer is allocated uninitialised. A cell is `none` until it is written, and what is
  computed from an unwritten cell is unwritten.
* A program of the GEMM that loads an unwritten bound, slot or expert number computes addresses
  from garbage, so its launch may leave anything.

The GEMM gathers the rows `sorted_token_ids` lists and takes the expert of a whole row block from
`expert_ids`, so what it computes for a slot follows from `Aligned` alone (`gemm_stored`).
`promised_iff` says on which calls the promises of all the stages hold.
-/

namespace RapidLlm

open Finset (range)
open Tiling (numTiles)

variable {R : Type}

/-! ### The program ids of the grouped GEMM -/

/-- The row block and the column block of a program, `GROUP_M` row blocks sharing a column block
at a time. -/
def groupedPid (numPidM numPidN groupM pid : Nat) : Nat × Nat :=
  let numPidInGroup := groupM * numPidN
  let groupId := pid / numPidInGroup
  let firstPidM := groupId * groupM
  let groupSizeM := min (numPidM - firstPidM) groupM
  (firstPidM + pid % numPidInGroup % groupSizeM, pid % numPidInGroup / groupSizeM)

/-! ### `_fused_moe_kernel` -/

/-- A launch of `_invoke_moe_gemm`. Rows of `b` are the output columns of an expert. -/
structure GroupedGemm (R : Type) where
  a : Nat → Nat → Option R
  b : Nat → Nat → Nat → R
  topkWeights : Nat → R
  n : Nat
  k : Nat
  em : Nat
  numValidSlots : Nat
  topK : Nat
  mulRoutedWeight : Bool
  config : TileConfig

namespace GroupedGemm

def numPidM (g : GroupedGemm R) : Nat := numTiles g.em g.config.blockM

def numPidN (g : GroupedGemm R) : Nat := numTiles g.n g.config.blockN

def numPrograms (g : GroupedGemm R) : Nat := g.numPidM * g.numPidN

def pidOf (g : GroupedGemm R) (pid : Nat) : Nat × Nat :=
  groupedPid g.numPidM g.numPidN g.config.groupM pid

variable [CommSemiring R]

/-- What one lane of `tl.dot` adds to a cell. -/
def product (g : GroupedGemm R) (offsToken expert col tile lane : Nat) : Option R :=
  let offsK := tile * g.config.blockK + lane
  let inside := lane < g.k - tile * g.config.blockK
  let a := if offsToken < g.numValidSlots ∧ inside then g.a (offsToken / g.topK) offsK else some 0
  let b := if inside then some (g.b expert col offsK) else some 0
  Option.map₂ (· * ·) a b

/-- The accumulator after the k-loop. -/
def accumulator (g : GroupedGemm R) (offsToken expert col : Nat) : Option R :=
  (List.range (numTiles g.k g.config.blockK)).foldl (fun acc tile =>
    (List.range g.config.blockK).foldl (fun acc lane =>
      Option.map₂ (· + ·) acc (g.product offsToken expert col tile lane)) acc) (some 0)

/-- A cell of the tile a program stores. -/
def cell (g : GroupedGemm R) (offsToken expert col : Nat) : Option R :=
  if g.mulRoutedWeight then
    let moeWeight := if offsToken < g.numValidSlots then g.topkWeights offsToken else 0
    (g.accumulator offsToken expert col).map (· * moeWeight)
  else g.accumulator offsToken expert col

/-- The stores of a program to its rows and columns. -/
def tileStores (g : GroupedGemm R) (offsToken : List Nat) (expert pidN : Nat) :
    List ((Nat × Nat) × Option R) :=
  offsToken.flatMap fun token => (List.range g.config.blockN).filterMap fun lane =>
    let offsCn := pidN * g.config.blockN + lane
    if token < g.numValidSlots ∧ offsCn < g.n then
      some ((token, offsCn), g.cell token expert (offsCn % g.n))
    else none

/-- One program, `none` where it loads what nobody wrote. -/
def program (g : GroupedGemm R) (buffers : AlignedBuffers) (pid : Nat) :
    Option (List ((Nat × Nat) × Option R)) := do
  let pidM := (g.pidOf pid).1
  let numTokensPostPadded ← buffers.numTokensPostPadded 0
  if numTokensPostPadded ≤ pidM * g.config.blockM then
    some []
  else
    let offsToken ← (List.range g.config.blockM).mapM fun lane =>
      buffers.sortedTokenIds (pidM * g.config.blockM + lane)
    let offExperts ← buffers.expertIds pidM
    some (g.tileStores offsToken offExperts (g.pidOf pid).2)

/-- `C`, allocated uninitialised, after a launch. -/
def Leaves (g : GroupedGemm R) (buffers : AlignedBuffers) (c : Nat × Nat → Option R) : Prop :=
  Ran (List.range g.numPrograms) (g.program buffers) (fun _ => none) c

end GroupedGemm

/-! ### The kernels with one program for a row and a column block -/

/-- `block_n` of `_silu_and_mul_kernel` and `_moe_sum_kernel`. -/
def rowBlockN (n : Nat) : Nat := min (nextPowerOf2 n) 1024

/-- The stores of program `(pidM, pidN)`. -/
def rowProgram (n : Nat) (value : Nat → Nat → Option R) (pidM pidN : Nat) :
    List ((Nat × Nat) × Option R) :=
  (List.range (rowBlockN n)).filterMap fun lane =>
    let offs := pidN * rowBlockN n + lane
    if offs < n then some ((pidM, offs), value pidM offs) else none

/-- The stores of a launch over `rows` rows. -/
def rowStores (rows n : Nat) (value : Nat → Nat → Option R) : List ((Nat × Nat) × Option R) :=
  (List.range rows).flatMap fun pidM =>
    (List.range (numTiles n (rowBlockN n))).flatMap fun pidN => rowProgram n value pidM pidN

/-! ### `fused_moe` -/

/-- The arguments of `fused_moe`, the tile configuration it looks up, and the activation. -/
structure RoutedCall (R : Type) where
  numTokens : Nat
  topK : Nat
  numExperts : Nat
  hidden : Nat
  intermediate : Nat
  hiddenStates : Nat → Nat → R
  w1 : Nat → Nat → Nat → R
  w2 : Nat → Nat → Nat → R
  topkWeights : Nat → Nat → R
  topkIds : Nat → Nat → Int
  siluAndMul : R → R → R
  config : TileConfig
  hidden_pos : 0 < hidden
  intermediate_pos : 0 < intermediate
  blockN_pos : 0 < config.blockN
  blockK_pos : 0 < config.blockK
  groupM_pos : 0 < config.groupM

/-- The buffers of a call. -/
structure MoeBuffers (R : Type) where
  aligned : AlignedBuffers
  gateUp : Nat × Nat → Option R
  act : Nat × Nat → Option R
  expanded : Nat × Nat → Option R
  out : Nat × Nat → Option R

namespace RoutedCall

variable (call : RoutedCall R)

def numSlots : Nat := call.numTokens * call.topK

def align : AlignCall where
  topkIds := (List.range call.numSlots).map fun s => call.topkIds (s / call.topK) (s % call.topK)
  blockSize := call.config.blockM
  numExperts := call.numExperts

/-- `GEMM1`: `[M, hidden] x [E, 2I, hidden] -> [M * top_k, 2I]`. -/
def gemm1 : GroupedGemm R where
  a := fun token k => some (call.hiddenStates token k)
  b := call.w1
  topkWeights := fun s => call.topkWeights (s / call.topK) (s % call.topK)
  n := 2 * call.intermediate
  k := call.hidden
  em := call.align.maxPadded
  numValidSlots := call.numSlots
  topK := call.topK
  mulRoutedWeight := false
  config := call.config

/-- `silu(gate) * up`, one element. -/
def actCell (gateUp : Nat × Nat → Option R) (pidM offs : Nat) : Option R :=
  Option.map₂ call.siluAndMul (gateUp (pidM, offs)) (gateUp (pidM, call.intermediate + offs))

/-- `GEMM2`: `[M * top_k, I] x [E, hidden, I]`, one row of `act` for each slot. -/
def gemm2 (act : Nat × Nat → Option R) : GroupedGemm R where
  a := fun slot k => act (slot, k)
  b := call.w2
  topkWeights := fun s => call.topkWeights (s / call.topK) (s % call.topK)
  n := call.hidden
  k := call.intermediate
  em := call.align.maxPadded
  numValidSlots := call.numSlots
  topK := 1
  mulRoutedWeight := true
  config := call.config

variable [CommSemiring R]

/-- What a program of `_moe_sum_kernel` stores for one column. -/
def moeSumCell (expanded : Nat × Nat → Option R) (pidM offs : Nat) : Option R :=
  (List.range call.topK).foldl (fun acc i =>
    let expert := call.align.idAt (pidM * call.topK + i)
    let valid := 0 ≤ expert ∧ expert < call.numExperts
    Option.map₂ (· + ·) acc
      (if valid then expanded (pidM * call.topK + i, offs) else some 0)) (some 0)

/-- The buffers one execution of the launches may leave. -/
structure Executes (scattered : AlignedBuffers → Prop) (run : MoeBuffers R) : Prop where
  aligned : scattered run.aligned
  gateUp : call.gemm1.Leaves run.aligned run.gateUp
  act : Outcome (rowStores call.numSlots call.intermediate (call.actCell run.gateUp))
    (fun _ => none) run.act
  expanded : (call.gemm2 run.act).Leaves run.aligned run.expanded
  out : Outcome (rowStores call.numTokens call.hidden (call.moeSumCell run.expanded))
    (fun _ => none) run.out

/-- `fused_moe`, from the configuration on. -/
def fusedMoe : Except Raised (MoeBuffers R → Prop) := do
  let scattered ← MoeAlignBlockSize call.align
  pure (call.Executes scattered)

/-! ### What a call is for -/

/-- The gate and up projections of an expert. -/
def gateUp (e : Nat) (x : Nat → R) (row : Nat) : R := ∑ k ∈ range call.hidden, x k * call.w1 e row k

omit [CommSemiring R] in
def act (y : Nat → R) (i : Nat) : R := call.siluAndMul (y i) (y (call.intermediate + i))

/-- The down projection of an expert. -/
def down (e : Nat) (y : Nat → R) (row : Nat) : R :=
  ∑ i ∈ range call.intermediate, y i * call.w2 e row i

/-- The id of a slot names a local expert. -/
def IsLocal (t j : Nat) : Prop := 0 ≤ call.topkIds t j ∧ call.topkIds t j < call.numExperts

omit [CommSemiring R] in
instance (t j : Nat) : Decidable (call.IsLocal t j) := by
  unfold IsLocal
  infer_instance

/-- `out[t]`: each local expert of the token on its row, by the routing weight. -/
def routedSum (t col : Nat) : R :=
  ∑ j ∈ range call.topK, if call.IsLocal t j then
    let e := (call.topkIds t j).toNat
    call.topkWeights t j * call.down e (call.act (call.gateUp e (call.hiddenStates t))) col
  else 0

/-- What an execution has to deliver. -/
structure Delivers (run : MoeBuffers R) : Prop where
  aligned : ∃ numPost, Aligned call.align run.aligned numPost
  written : ∀ t < call.numTokens, ∀ j < call.topK, call.IsLocal t j → ∀ col < call.hidden,
    run.expanded (t * call.topK + j, col) ≠ none
  summed : ∀ t < call.numTokens, ∀ col < call.hidden,
    run.out (t, col) = some (call.routedSum t col)

end RoutedCall

/-- Every pair of a row block and a column block has one program. -/
def GroupedGemm.CoversOnce (g : GroupedGemm R) : Prop :=
  ∀ m < g.numPidM, ∀ n < g.numPidN, ∃! pid, pid < g.numPrograms ∧ g.pidOf pid = (m, n)

/-- All that is promised of a call: its stores stay inside their buffers, both swizzles cover
their grid, it returns, and in whatever order the stores of its launches were carried out it
delivers. -/
structure RoutedCall.Promised [CommSemiring R] (call : RoutedCall R) : Prop where
  inside : StaysInside call.align
  gemm1 : call.gemm1.CoversOnce
  gemm2 : ∀ act, (call.gemm2 act).CoversOnce
  returns : ∃ executes, call.fusedMoe = .ok executes ∧ (∃ run, executes run) ∧
    ∀ run, executes run → call.Delivers run

/-! ### The swizzle -/

section Swizzle

variable {numPidM numPidN groupM pid m n : Nat}

/-- The program of a row block and a column block. -/
def pidAt (numPidM numPidN groupM m n : Nat) : Nat :=
  let firstPidM := m / groupM * groupM
  m / groupM * (groupM * numPidN) + (n * min (numPidM - firstPidM) groupM + (m - firstPidM))

theorem pidAt_spec (hgroup : 0 < groupM) (hm : m < numPidM) (hn : n < numPidN) :
    groupedPid numPidM numPidN groupM (pidAt numPidM numPidN groupM m n) = (m, n) ∧
      pidAt numPidM numPidN groupM m n < numPidM * numPidN := by
  have hfirst : m / groupM * groupM ≤ m := Nat.div_mul_le_self m groupM
  have hoff : m - m / groupM * groupM < groupM := by
    have := Nat.lt_div_mul_add hgroup (a := m)
    omega
  obtain ⟨first, hfirstEq⟩ : ∃ first, first = m / groupM * groupM := ⟨_, rfl⟩
  obtain ⟨size, hsize⟩ : ∃ size, size = min (numPidM - first) groupM := ⟨_, rfl⟩
  have hlt : m - first < size := by omega
  have hrow : n * size + (m - first) < numPidN * size := by
    calc n * size + (m - first) < n * size + size := by omega
      _ = (n + 1) * size := (Nat.succ_mul n size).symm
      _ ≤ numPidN * size := Nat.mul_le_mul_right _ hn
  have hgroupSize : numPidN * size ≤ groupM * numPidN := by
    rw [Nat.mul_comm]
    exact Nat.mul_le_mul_right _ (by omega)
  have hin : 0 < groupM * numPidN := Nat.mul_pos hgroup (Nat.zero_lt_of_lt hn)
  have hpid : pidAt numPidM numPidN groupM m n =
      groupM * numPidN * (m / groupM) + (n * size + (m - first)) := by
    unfold pidAt
    rw [hsize, hfirstEq, Nat.mul_comm (groupM * numPidN)]
  have hdiv : pidAt numPidM numPidN groupM m n / (groupM * numPidN) = m / groupM := by
    rw [hpid, Nat.mul_add_div hin, Nat.div_eq_of_lt (Nat.lt_of_lt_of_le hrow hgroupSize),
      Nat.add_zero]
  have hmod : pidAt numPidM numPidN groupM m n % (groupM * numPidN) = n * size + (m - first) := by
    rw [hpid, Nat.mul_add_mod, Nat.mod_eq_of_lt (Nat.lt_of_lt_of_le hrow hgroupSize)]
  constructor
  · unfold groupedPid
    simp only [hdiv, hmod, ← hfirstEq, ← hsize]
    rw [Nat.mul_comm n, Nat.mul_add_mod, Nat.mod_eq_of_lt hlt, Nat.mul_add_div (by omega),
      Nat.div_eq_of_lt hlt]
    rw [Nat.add_zero, Prod.mk.injEq]
    exact ⟨by omega, rfl⟩
  · rw [hpid]
    calc groupM * numPidN * (m / groupM) + (n * size + (m - first))
        < groupM * numPidN * (m / groupM) + numPidN * size := Nat.add_lt_add_left hrow _
      _ = numPidN * (first + size) := by rw [hfirstEq]; ring
      _ ≤ numPidN * numPidM := Nat.mul_le_mul_left _ (by omega)
      _ = numPidM * numPidN := Nat.mul_comm _ _

theorem eq_pidAt (hgroup : 0 < groupM) (hpid : pid < numPidM * numPidN)
    (hgrouped : groupedPid numPidM numPidN groupM pid = (m, n)) :
    pid = pidAt numPidM numPidN groupM m n := by
  have hN : 0 < numPidN := Nat.pos_of_mul_pos_left (Nat.zero_lt_of_lt hpid)
  have hin : 0 < groupM * numPidN := Nat.mul_pos hgroup hN
  obtain ⟨group, hgroupEq⟩ : ∃ group, group = pid / (groupM * numPidN) := ⟨_, rfl⟩
  obtain ⟨rest, hrest⟩ : ∃ rest, rest = pid % (groupM * numPidN) := ⟨_, rfl⟩
  have hfirst : group * groupM < numPidM := by
    have hle : group * (groupM * numPidN) ≤ pid := by
      rw [hgroupEq]
      exact Nat.div_mul_le_self _ _
    have hlt : group * groupM * numPidN < numPidM * numPidN := by
      rw [Nat.mul_assoc]
      omega
    exact Nat.lt_of_mul_lt_mul_right hlt
  obtain ⟨size, hsize⟩ : ∃ size, size = min (numPidM - group * groupM) groupM := ⟨_, rfl⟩
  have hmodlt : rest % size < size := Nat.mod_lt _ (by omega)
  unfold groupedPid at hgrouped
  simp only [← hgroupEq, ← hrest, ← hsize, Prod.mk.injEq] at hgrouped
  obtain ⟨rfl, rfl⟩ := hgrouped
  have hblock : (group * groupM + rest % size) / groupM = group :=
    (div_mod_of_lt (by omega)).1
  unfold pidAt
  simp only [hblock, ← hsize]
  rw [Nat.add_sub_cancel_left, Nat.div_add_mod', hgroupEq, hrest, Nat.div_add_mod']

end Swizzle

theorem GroupedGemm.coversOnce (g : GroupedGemm R) (hgroup : 0 < g.config.groupM) :
    g.CoversOnce := by
  intro m hm n hn
  obtain ⟨hat, hlt⟩ := pidAt_spec hgroup hm hn
  exact ⟨_, ⟨hlt, hat⟩, fun pid ⟨hpid, hgrouped⟩ => eq_pidAt hgroup hpid hgrouped⟩

/-! ### What the grouped GEMM computes for a slot -/

/-- The entry of a slot, and the expert of its block. -/
theorem Aligned.expert_of {call : AlignCall} {buffers : AlignedBuffers} {numPost a s : Nat}
    (h : Aligned call buffers numPost) (ha : a < numPost)
    (hs : buffers.sortedTokenIds a = some s) (hlt : s < call.numSlots) :
    ∃ e < call.numExperts, buffers.expertIds (a / call.blockSize) = some e ∧ call.idAt s = e := by
  obtain ⟨e, he, hexpert, hpad | ⟨s', -, hslot, hid⟩⟩ := h.listed a ha
  · rw [hs, Option.some.injEq] at hpad
    omega
  · obtain rfl : s = s' := Option.some.inj (hs.symm.trans hslot)
    exact ⟨e, he, hexpert, hid⟩

/-- A row block that starts below the bound ends there. -/
theorem Aligned.block_lt {call : AlignCall} {buffers : AlignedBuffers} {numPost block lane : Nat}
    (h : Aligned call buffers numPost) (hblock : block * call.blockSize < numPost)
    (hlane : lane < call.blockSize) : block * call.blockSize + lane < numPost := by
  obtain ⟨blocks, hblocks⟩ := h.whole
  rw [hblocks, Nat.mul_comm] at hblock ⊢
  have hlt : block < blocks := Nat.lt_of_mul_lt_mul_left hblock
  calc call.blockSize * block + lane < call.blockSize * (block + 1) := by
        rw [Nat.mul_succ]
        omega
    _ ≤ call.blockSize * blocks := Nat.mul_le_mul_left _ hlt

namespace GroupedGemm

variable {g : GroupedGemm R} {call : AlignCall} {buffers : AlignedBuffers}
  {c : Nat × Nat → Option R} {numPost s e col : Nat}

/-- A launch over the layout of a call. -/
structure Over (g : GroupedGemm R) (call : AlignCall) : Prop where
  em : g.em = call.maxPadded
  slots : g.numValidSlots = call.numSlots
  block : g.config.blockM = call.blockSize
  size : 0 < call.blockSize
  blockN : 0 < g.config.blockN
  groupM : 0 < g.config.groupM

variable [CommSemiring R]

section Cell

variable {x : Nat → R} (hs : s < g.numValidSlots)
  (hx : ∀ k < g.k, g.a (s / g.topK) k = some (x k))
include hs hx

/-- A masked lane adds nothing. -/
theorem product_eq (tile lane : Nat) : g.product s e col tile lane =
    some (if tile * g.config.blockK + lane < g.k then
      x (tile * g.config.blockK + lane) * g.b e col (tile * g.config.blockK + lane) else 0) := by
  unfold product
  have hmask : lane < g.k - tile * g.config.blockK ↔ tile * g.config.blockK + lane < g.k := by omega
  simp only [hmask, hs, true_and]
  split
  · rw [hx _ ‹_›, Option.map₂_some_some]
  · rw [Option.map₂_some_some, zero_mul]

/-- The k-loop adds up the products of the whole row. -/
theorem accumulator_eq (hblockK : 0 < g.config.blockK) :
    g.accumulator s e col = some (∑ k ∈ range g.k, x k * g.b e col k) := by
  have hlanes : g.accumulator s e col =
      ((List.range (numTiles g.k g.config.blockK)).flatMap fun tile =>
        (List.range g.config.blockK).map fun lane => tile * g.config.blockK + lane).foldl
          (fun acc k => Option.map₂ (· + ·) acc
            (some (if k < g.k then x k * g.b e col k else 0))) (some 0) := by
    unfold accumulator
    simp only [List.foldl_flatMap, List.foldl_map, product_eq hs hx]
  rw [hlanes, foldl_cells 0 fun _ _ => rfl, Tiling.sum_tiles _ hblockK, zero_add]

theorem cell_eq (hblockK : 0 < g.config.blockK) : g.cell s e col =
    some (if g.mulRoutedWeight then
      (∑ k ∈ range g.k, x k * g.b e col k) * g.topkWeights s
    else ∑ k ∈ range g.k, x k * g.b e col k) := by
  unfold cell
  rw [accumulator_eq hs hx hblockK, if_pos hs]
  split <;> rfl

end Cell

theorem mem_tileStores {offsToken : List Nat} {pidN : Nat} {v : Option R} :
    ((s, col), v) ∈ g.tileStores offsToken e pidN ↔
      s ∈ offsToken ∧ s < g.numValidSlots ∧ col < g.n ∧
        (pidN * g.config.blockN ≤ col ∧ col < pidN * g.config.blockN + g.config.blockN) ∧
        v = g.cell s e col := by
  unfold tileStores
  simp only [List.mem_flatMap, List.mem_filterMap, List.mem_range, Option.ite_none_right_eq_some,
    Option.some.injEq, Prod.mk.injEq]
  constructor
  · rintro ⟨token, htoken, lane, hlane, ⟨hvalid, hcol⟩, ⟨rfl, rfl⟩, rfl⟩
    exact ⟨htoken, hvalid, hcol, ⟨by omega, by omega⟩, by rw [Nat.mod_eq_of_lt hcol]⟩
  · rintro ⟨hmem, hvalid, hcol, ⟨hlo, hhi⟩, rfl⟩
    obtain ⟨lane, rfl⟩ := Nat.exists_eq_add_of_le hlo
    exact ⟨s, hmem, lane, by omega, ⟨hvalid, hcol⟩, ⟨rfl, rfl⟩, by rw [Nat.mod_eq_of_lt hcol]⟩

section Gemm

variable (hover : g.Over call) (haligned : Aligned call buffers numPost)
include hover haligned

/-- Below the bound everything a program loads was written. -/
theorem program_eq (pid : Nat) : g.program buffers pid =
    some (if numPost ≤ (g.pidOf pid).1 * call.blockSize then [] else
      g.tileStores ((List.range call.blockSize).map fun lane =>
          (buffers.sortedTokenIds ((g.pidOf pid).1 * call.blockSize + lane)).getD 0)
        ((buffers.expertIds (g.pidOf pid).1).getD 0) (g.pidOf pid).2) := by
  unfold program
  rw [haligned.posted, hover.block]
  change (if _ then _ else _) = _
  split
  · rfl
  · rename_i hbelow
    have hwritten : ∀ lane ∈ List.range call.blockSize,
        buffers.sortedTokenIds ((g.pidOf pid).1 * call.blockSize + lane) =
          some ((buffers.sortedTokenIds ((g.pidOf pid).1 * call.blockSize + lane)).getD 0) := by
      intro lane hlane
      have hlt := haligned.block_lt (Nat.not_le.mp hbelow) (List.mem_range.mp hlane)
      obtain ⟨e, -, -, hpad | ⟨s, -, hslot, -⟩⟩ := haligned.listed _ hlt
      · rw [hpad]
        rfl
      · rw [hslot]
        rfl
    obtain ⟨e, -, hexpert, -⟩ := haligned.listed _ (Nat.not_le.mp hbelow)
    rw [Nat.mul_div_cancel _ hover.size] at hexpert
    rw [mapM_cells hwritten, hexpert]
    rfl

/-- The cell of a slot in `C`, in whatever order the stores were carried out: the row of the slot
times the column of its expert. -/
theorem gemm_stored (hleaves : g.Leaves buffers c) (hs : s < call.numSlots)
    (hid : call.idAt s = e) (he : e < call.numExperts) (hcol : col < g.n) :
    c (s, col) = g.cell s e col := by
  have hout := hleaves.outcome _ fun pid _ => program_eq hover haligned pid
  obtain ⟨a, ⟨ha, hentry⟩, hunique⟩ := haligned.once s hs (by omega) (by omega)
  have hblockOf : ∀ a', a' < numPost → buffers.sortedTokenIds a' = some s →
      buffers.expertIds (a' / call.blockSize) = some e := by
    intro a' ha' hentry'
    obtain ⟨e', -, hexpert, hid'⟩ := haligned.expert_of ha' hentry' hs
    obtain rfl : e = e' := by omega
    exact hexpert
  have hblockLe : a / call.blockSize * call.blockSize ≤ a := Nat.div_mul_le_self a call.blockSize
  refine hout.stored ?_ fun other hother => ?_
  · have hm : a / call.blockSize < g.numPidM := by
      have hcover := Tiling.le_numTiles_mul call.maxPadded hover.size
      unfold numPidM
      rw [hover.em, hover.block]
      exact Nat.div_lt_of_lt_mul (by rw [Nat.mul_comm]; have := haligned.fits; omega)
    have hn : col / g.config.blockN < g.numPidN := by
      have hcover := Tiling.le_numTiles_mul g.n hover.blockN
      exact Nat.div_lt_of_lt_mul (by rw [Nat.mul_comm]; unfold numPidN; omega)
    obtain ⟨pid, ⟨hpid, hpidOf⟩, -⟩ := g.coversOnce hover.groupM _ hm _ hn
    refine List.mem_flatMap.mpr ⟨pid, List.mem_range.mpr hpid, ?_⟩
    rw [hpidOf, if_neg (by dsimp only; omega), mem_tileStores]
    refine ⟨List.mem_map.mpr ⟨a % call.blockSize, List.mem_range.mpr (Nat.mod_lt _ hover.size), ?_⟩,
      by rw [hover.slots]; exact hs, hcol, ⟨Nat.div_mul_le_self _ _, ?_⟩, ?_⟩
    · dsimp only
      rw [Nat.div_add_mod', hentry, Option.getD_some]
    · exact Nat.lt_div_mul_add hover.blockN
    · dsimp only
      rw [hblockOf a ha hentry, Option.getD_some]
  · obtain ⟨pid, -, hmem⟩ := List.mem_flatMap.mp hother
    split at hmem
    · cases hmem
    · rename_i hbelow
      obtain ⟨hlisted, -, -, -, rfl⟩ := mem_tileStores.mp hmem
      obtain ⟨lane, hlane, hat⟩ := List.mem_map.mp hlisted
      have hlane' := List.mem_range.mp hlane
      have hlt := haligned.block_lt (Nat.not_le.mp hbelow) hlane'
      have hentry' : buffers.sortedTokenIds ((g.pidOf pid).1 * call.blockSize + lane) = some s := by
        obtain ⟨e', -, -, hpad | ⟨s', -, hslot, -⟩⟩ := haligned.listed _ hlt
        · rw [hpad, Option.getD_some] at hat
          rw [hpad, hat]
        · rw [hslot, Option.getD_some] at hat
          rw [hslot, hat]
      have hexpert := hblockOf _ hlt hentry'
      rw [(div_mod_of_lt hlane').1] at hexpert
      rw [hexpert, Option.getD_some]

end Gemm

end GroupedGemm

/-! ### The row kernels -/

theorem rowBlockN_pos {n : Nat} (hn : 0 < n) : 0 < rowBlockN n := by
  have hpow := le_nextPowerOf2 n
  unfold rowBlockN
  omega

theorem mem_rowStores {rows n row col : Nat} {value : Nat → Nat → Option R} {v : Option R}
    (hn : 0 < n) :
    ((row, col), v) ∈ rowStores rows n value ↔ row < rows ∧ col < n ∧ v = value row col := by
  unfold rowStores rowProgram
  simp only [List.mem_flatMap, List.mem_filterMap, List.mem_range, Option.ite_none_right_eq_some,
    Option.some.injEq, Prod.mk.injEq]
  constructor
  · rintro ⟨pidM, hrow, pidN, -, lane, -, hcol, ⟨rfl, rfl⟩, rfl⟩
    exact ⟨hrow, hcol, rfl⟩
  · rintro ⟨hrow, hcol, rfl⟩
    have hpos := rowBlockN_pos hn
    have hcover := Tiling.le_numTiles_mul n hpos
    refine ⟨row, hrow, col / rowBlockN n, ?_, col % rowBlockN n, Nat.mod_lt _ hpos, ?_⟩
    · exact Nat.div_lt_of_lt_mul (by rw [Nat.mul_comm]; omega)
    · rw [Nat.div_add_mod']
      exact ⟨hcol, ⟨rfl, rfl⟩, rfl⟩

/-- Each cell of a row kernel's output is stored by one lane. -/
theorem row_stored {rows n row col : Nat} {value : Nat → Nat → Option R}
    {after : Nat × Nat → Option R} (h : Outcome (rowStores rows n value) (fun _ => none) after)
    (hrow : row < rows) (hcol : col < n) : after (row, col) = value row col := by
  have hn : 0 < n := Nat.zero_lt_of_lt hcol
  exact h.stored ((mem_rowStores hn).mpr ⟨hrow, hcol, rfl⟩) fun other hother =>
    ((mem_rowStores hn).mp hother).2.2

/-! ### A call -/

namespace RoutedCall

variable {call : RoutedCall R} {t j e : Nat}

@[simp] theorem align_numSlots : call.align.numSlots = call.numSlots := by
  change ((List.range call.numSlots).map _).length = _
  rw [List.length_map, List.length_range]

theorem slot_lt (ht : t < call.numTokens) (hj : j < call.topK) :
    t * call.topK + j < call.numSlots := by
  calc t * call.topK + j < (t + 1) * call.topK := by
        rw [Nat.succ_mul]
        omega
    _ ≤ call.numTokens * call.topK := Nat.mul_le_mul_right _ ht

theorem slot_div (hj : j < call.topK) : (t * call.topK + j) / call.topK = t :=
  (div_mod_of_lt hj).1

theorem slot_mod (hj : j < call.topK) : (t * call.topK + j) % call.topK = j :=
  (div_mod_of_lt hj).2

theorem idAt_slot (ht : t < call.numTokens) (hj : j < call.topK) :
    call.align.idAt (t * call.topK + j) = call.topkIds t j := by
  have hs : t * call.topK + j < call.align.topkIds.length := by
    change _ < call.align.numSlots
    rw [align_numSlots]
    exact slot_lt ht hj
  rw [AlignCall.idAt_eq hs]
  refine (List.getElem_map _).trans ?_
  rw [List.getElem_range, slot_div hj, slot_mod hj]

theorem gemm1_over (h : call.align.Compiles) : call.gemm1.Over call.align where
  em := rfl
  slots := align_numSlots.symm
  block := rfl
  size := h.size
  blockN := call.blockN_pos
  groupM := call.groupM_pos

theorem gemm2_over (h : call.align.Compiles) (act : Nat × Nat → Option R) :
    (call.gemm2 act).Over call.align where
  em := rfl
  slots := align_numSlots.symm
  block := rfl
  size := h.size
  blockN := call.blockN_pos
  groupM := call.groupM_pos

variable [CommSemiring R]

section Slot

variable {run : MoeBuffers R} {numPost : Nat} (hcompiles : call.align.Compiles)
  (hrun : call.Executes (Scattered call.align) run)
  (haligned : Aligned call.align run.aligned numPost)
  (ht : t < call.numTokens) (hj : j < call.topK) (hid : call.topkIds t j = e)
  (he : e < call.numExperts)
include hcompiles hrun haligned ht hj hid he

theorem gateUp_stored {row : Nat} (hrow : row < 2 * call.intermediate) :
    run.gateUp (t * call.topK + j, row) = some (call.gateUp e (call.hiddenStates t) row) := by
  have hslot := slot_lt ht hj
  rw [GroupedGemm.gemm_stored (gemm1_over hcompiles) haligned hrun.gateUp
    (by rw [align_numSlots]; exact hslot) ((idAt_slot ht hj).trans hid) he hrow]
  refine GroupedGemm.cell_eq hslot (fun k _ => ?_) call.blockK_pos
  change some (call.hiddenStates ((t * call.topK + j) / call.topK) k) = _
  rw [slot_div hj]

theorem act_stored {i : Nat} (hi : i < call.intermediate) :
    run.act (t * call.topK + j, i) = some (call.act (call.gateUp e (call.hiddenStates t)) i) := by
  rw [row_stored hrun.act (slot_lt ht hj) hi, actCell,
    gateUp_stored hcompiles hrun haligned ht hj hid he (by omega),
    gateUp_stored hcompiles hrun haligned ht hj hid he (by omega), Option.map₂_some_some]
  rfl

theorem expanded_stored {col : Nat} (hcol : col < call.hidden) :
    run.expanded (t * call.topK + j, col) = some (call.topkWeights t j *
      call.down e (call.act (call.gateUp e (call.hiddenStates t))) col) := by
  have hslot := slot_lt ht hj
  rw [GroupedGemm.gemm_stored (gemm2_over hcompiles run.act) haligned hrun.expanded
    (by rw [align_numSlots]; exact hslot) ((idAt_slot ht hj).trans hid) he hcol,
    GroupedGemm.cell_eq hslot (fun k hk => ?_) call.blockK_pos]
  · change some (_ * call.topkWeights ((t * call.topK + j) / call.topK) _) = _
    rw [slot_div hj, slot_mod hj, mul_comm]
    rfl
  · change run.act ((t * call.topK + j) / 1, k) = _
    rw [Nat.div_one]
    exact act_stored hcompiles hrun haligned ht hj hid he hk

end Slot

/-- Every execution over the layout delivers: a slot that is not local is not read. -/
theorem delivers {run : MoeBuffers R} {numPost : Nat} (hcompiles : call.align.Compiles)
    (hrun : call.Executes (Scattered call.align) run)
    (haligned : Aligned call.align run.aligned numPost) : call.Delivers run where
  aligned := ⟨numPost, haligned⟩
  written t ht j hj hlocal col hcol := by
    obtain ⟨e, hid⟩ := Int.eq_ofNat_of_zero_le hlocal.1
    have he : e < call.numExperts := by have := hlocal.2; omega
    rw [expanded_stored hcompiles hrun haligned ht hj hid he hcol]
    exact Option.some_ne_none _
  summed t ht col hcol := by
    rw [row_stored hrun.out ht hcol]
    refine (foldl_cells 0 fun j hj => ?_).trans (congrArg some (zero_add _))
    have hj' := List.mem_range.mp hj
    rw [idAt_slot ht hj']
    by_cases hlocal : call.IsLocal t j
    · obtain ⟨e, hid⟩ := Int.eq_ofNat_of_zero_le hlocal.1
      have he : e < call.numExperts := by have := hlocal.2; omega
      have hvalid : 0 ≤ call.topkIds t j ∧ call.topkIds t j < call.numExperts := hlocal
      rw [if_pos hvalid, if_pos hlocal, expanded_stored hcompiles hrun haligned ht hj' hid he hcol,
        hid, Int.toNat_natCast]
    · have hinvalid : ¬ (0 ≤ call.topkIds t j ∧ call.topkIds t j < call.numExperts) := hlocal
      rw [if_neg hinvalid, if_neg hlocal]

/-! ### When the promises hold -/

theorem executes_exists {aligned : AlignedBuffers} {scattered : AlignedBuffers → Prop}
    (h : scattered aligned) : ∃ run, call.Executes scattered run ∧ run.aligned = aligned := by
  obtain ⟨gateUp, hgateUp⟩ := ran_exists (List.range call.gemm1.numPrograms)
    (call.gemm1.program aligned) fun _ => none
  have hact := outcome_exists (rowStores call.numSlots call.intermediate (call.actCell gateUp))
    fun _ => none
  obtain ⟨expanded, hexpanded⟩ := ran_exists (List.range (call.gemm2 _).numPrograms)
    ((call.gemm2 _).program aligned) fun _ => none
  have hout := outcome_exists (rowStores call.numTokens call.hidden (call.moeSumCell expanded))
    fun _ => none
  exact ⟨⟨aligned, gateUp, _, expanded, _⟩, ⟨h, hgateUp, hact, hexpanded, hout⟩, rfl⟩

theorem fusedMoe_ok {executes : MoeBuffers R → Prop} : call.fusedMoe = .ok executes ↔
    call.align.Compiles ∧ executes = call.Executes (Scattered call.align) := by
  unfold fusedMoe
  constructor
  · intro h
    obtain ⟨scattered, hscattered, hpure⟩ := bind_eq_ok.mp h
    obtain ⟨hcompiles, rfl⟩ := AlignCall.moeAlignBlockSize_ok.mp hscattered
    exact ⟨hcompiles, (Except.ok.inj hpure).symm⟩
  · rintro ⟨hcompiles, rfl⟩
    rw [AlignCall.moeAlignBlockSize_ok.mpr ⟨hcompiles, rfl⟩]
    rfl

theorem regular_of_promised (h : call.Promised) : Regular call.align := by
  obtain ⟨executes, hreturns, -, hall⟩ := h.returns
  obtain ⟨hcompiles, rfl⟩ := fusedMoe_ok.mp hreturns
  refine (AlignCall.aligned_iff hcompiles).mp fun buffers hscattered => ?_
  obtain ⟨run, hrun, rfl⟩ : ∃ run, call.Executes (Scattered call.align) run ∧
      run.aligned = buffers := executes_exists hscattered
  exact (hall run hrun).aligned

theorem promised_of_regular (h : Regular call.align) : call.Promised where
  inside := AlignCall.staysInside h.compiles
  gemm1 := GroupedGemm.coversOnce _ call.groupM_pos
  gemm2 act := GroupedGemm.coversOnce _ call.groupM_pos
  returns := by
    refine ⟨_, fusedMoe_ok.mpr ⟨h.compiles, rfl⟩, ?_, fun run hrun => ?_⟩
    · have hscattered : Scattered call.align ⟨_, _, _⟩ :=
        ⟨outcome_exists _ _, outcome_exists _ _, outcome_exists _ _⟩
      obtain ⟨run, hrun, -⟩ : ∃ run, call.Executes (Scattered call.align) run ∧
          run.aligned = _ := executes_exists hscattered
      exact ⟨run, hrun⟩
    · obtain ⟨numPost, haligned⟩ :=
        (AlignCall.aligned_iff h.compiles).mpr h run.aligned hrun.aligned
      exact delivers h.compiles hrun haligned

omit [CommSemiring R] in
/-- The calls of the layout, in the terms of `fused_moe`. -/
theorem regular_iff : Regular call.align ↔
    0 < call.numTokens * call.topK ∧ 0 < call.numExperts ∧ 0 < call.config.blockM ∧
      (alignBlockS < call.numTokens * call.topK ∨ ∀ t < call.numTokens, ∀ j < call.topK,
        ¬ Phantom call.align (call.topkIds t j)) := by
  have hids : (∀ id ∈ call.align.topkIds, ¬ Phantom call.align id) ↔
      ∀ t < call.numTokens, ∀ j < call.topK, ¬ Phantom call.align (call.topkIds t j) := by
    constructor
    · intro h t ht j hj
      refine h _ (List.mem_map.mpr ⟨t * call.topK + j, List.mem_range.mpr (slot_lt ht hj), ?_⟩)
      rw [slot_div hj, slot_mod hj]
    · intro h id hid
      obtain ⟨s, hs, rfl⟩ := List.mem_map.mp hid
      have hlt : s < call.numTokens * call.topK := List.mem_range.mp hs
      have htopK : 0 < call.topK := Nat.pos_of_mul_pos_left (Nat.zero_lt_of_lt hlt)
      exact h _ (Nat.div_lt_of_lt_mul (by rwa [Nat.mul_comm])) _ (Nat.mod_lt _ htopK)
  rw [← hids]
  constructor
  · rintro ⟨⟨hslots, hexperts, hsize⟩, hcounted⟩
    rw [align_numSlots] at hslots hcounted
    exact ⟨hslots, hexperts, hsize, hcounted⟩
  · rintro ⟨hslots, hexperts, hsize, hcounted⟩
    exact ⟨⟨by rwa [align_numSlots], hexperts, hsize⟩, by rwa [align_numSlots]⟩

/-- The grouped GEMM equals the routed sum on the regular calls and on no others. -/
theorem routed_sum_iff (call : RoutedCall R) : call.Promised ↔
    0 < call.numTokens * call.topK ∧ 0 < call.numExperts ∧ 0 < call.config.blockM ∧
      (alignBlockS < call.numTokens * call.topK ∨ ∀ t < call.numTokens, ∀ j < call.topK,
        ¬ ((call.numExperts : Int) ≤ call.topkIds t j ∧
          call.topkIds t j < nextPowerOf2 call.numExperts)) := by
  constructor
  · intro h
    exact regular_iff.mp (regular_of_promised h)
  · intro h
    exact promised_of_regular (regular_iff.mpr h)

end RoutedCall

/-! ### One id past the experts -/

theorem launchConfig_pos (tier : TileTier) (mode : QuantMode) (rowsPerExpert : ℚ) :
    0 < (launchConfig tier mode rowsPerExpert).blockN ∧
      0 < (launchConfig tier mode rowsPerExpert).blockK ∧
      0 < (launchConfig tier mode rowsPerExpert).groupM := by
  unfold launchConfig
  generalize rowsTier rowsPerExpert = rows
  revert rows
  cases tier <;> cases mode <;> decide

/-- One token routed to expert `3` of experts `0`, `1` and `2`. -/
def phantomCall : RoutedCall ℤ where
  numTokens := 1
  topK := 1
  numExperts := 3
  hidden := 1
  intermediate := 1
  hiddenStates := fun _ _ => 1
  w1 := fun _ _ _ => 1
  w2 := fun _ _ _ => 1
  topkWeights := fun _ _ => 1
  topkIds := fun _ _ => 3
  siluAndMul := fun gate up => gate * up
  config := launchConfig .hopperUp .none (1 / 3)
  hidden_pos := Nat.zero_lt_one
  intermediate_pos := Nat.zero_lt_one
  blockN_pos := (launchConfig_pos _ _ _).1
  blockK_pos := (launchConfig_pos _ _ _).2.1
  groupM_pos := (launchConfig_pos _ _ _).2.2

/-- The one tile counts lane `3`, whose run no program writes. -/
theorem phantomCall_not_promised : ¬ phantomCall.Promised := by
  intro h
  obtain ⟨-, -, -, hmany | hclean⟩ :=
    RoutedCall.regular_iff.mp (RoutedCall.regular_of_promised h)
  · exact absurd hmany (by decide)
  · exact hclean 0 Nat.zero_lt_one 0 Nat.zero_lt_one ⟨by decide, by decide⟩

end RapidLlm
