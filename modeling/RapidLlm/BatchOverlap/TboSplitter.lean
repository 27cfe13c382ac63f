import RapidLlm.Executor.SlotMetadata
import Mathlib.Algebra.Order.BigOperators.Group.List

/-!
# RapidLlm.BatchOverlap.TboSplitter

**A step in two halves** (`TboSplitter` and `_narrow_metadata` of
`batch_overlap/two_batch_overlap.py`), over the metadata `SlotBatch` installs, and the merge of
what a model makes of them (`_model_forward_tbo_merge_outputs`, `forward_tbo_prefill`).

A tensor is the list of its rows along the first axis. What a pass says about one of its rows is
a `TboRow`; a row-wise model is a function of it.

A decode row is one cell of the grid, and everything about it is cut at the same index. A
prefill row is `width` cells: `cur_select_index` has one entry for each of them, and is cut as if
it had one for each row.
-/

namespace RapidLlm

/-- A step as the runner submits it: `[rows, width]` grids, and the metadata installed. -/
structure TboPass where
  isPrefill : Bool
  width : Nat
  inputIds : List (List Token)
  positions : List (List Int)
  attenInfo : AttenInfo
  logitsPositions : Option (List Nat)
  deriving DecidableEq, Repr

/-- One half of a step, padded to the shared micro-batch length. -/
structure TboHalf where
  inputIds : List (List Token)
  positions : List (List Int)
  attenInfo : AttenInfo
  numRows : Nat
  deriving DecidableEq, Repr

/-! ### The split -/

/-- `tensor[start:stop]`. -/
def sliceRows {α : Type} (start stop : Nat) (rows : List α) : List α :=
  (rows.drop start).take (stop - start)

/-- `_pad_rows`, of a slice no longer than `paddedLen`. -/
def padRows {α : Type} (paddedLen : Nat) (rows : List α) : Except Raised (List α) :=
  if rows.length = paddedLen then .ok rows
  else match rows.getLast? with
    | none => .error (.runtimeError "the expanded size must match the existing size (0)")
    | some last => .ok (rows ++ List.replicate (paddedLen - rows.length) last)

/-- `slice_and_pad`. -/
def sliceAndPad {α : Type} (start stop paddedLen : Nat) :
    Option (List α) → Except Raised (Option (List α))
  | none => .ok none
  | some rows => do return some (← padRows paddedLen (sliceRows start stop rows))

/-- The offsets of a half, from its own row numbers. -/
def halfStartLoc (paddedLen : Nat) (locs : List Int) : List Int :=
  let stride := if locs.length > 1 then locs.getD 1 0 - locs.getD 0 0 else 0
  (List.range paddedLen).map fun i : Nat => (i : Int) * stride

/-- `_narrow_metadata`. -/
def narrowMetadata (attenInfo : AttenInfo) (start stop paddedLen : Nat) :
    Except Raised AttenInfo := do
  let curSelectIndex ← sliceAndPad start stop paddedLen attenInfo.curSelectIndex
  let bReqIdx ← sliceAndPad start stop paddedLen attenInfo.bReqIdx
  let bSeqLen ← sliceAndPad start stop paddedLen attenInfo.bSeqLen
  let bPrefixLen ← sliceAndPad start stop paddedLen attenInfo.bPrefixLen
  let bKvBase ← sliceAndPad start stop paddedLen attenInfo.bKvBase
  return {
    curSelectIndex := curSelectIndex
    bStartLoc := attenInfo.bStartLoc.map (halfStartLoc paddedLen)
    bReqIdx := bReqIdx
    bSeqLen := bSeqLen
    maxActualSeqLen := attenInfo.maxActualSeqLen
    isPrefill := attenInfo.isPrefill
    bPrefixLen := bPrefixLen
    bKvBase := bKvBase
    maxChunkLen := attenInfo.maxChunkLen
    bSeqLenCpu := none }

/-- `_balanced_split_index`: the loop over the sequences but the last, each at the index after
it. `best` is the best index so far and how far apart its two sides are. -/
def balancedSplitFrom (total : Int) : List Int → Nat → Int → Nat × Option Nat → Nat
  | [], _, _, best => best.1
  | len :: lens, i, running, best =>
      let running := running + len
      let diff := (running - (total - running)).natAbs
      if best.2.all (diff ≤ ·) then balancedSplitFrom total lens (i + 1) running (i, some diff)
      else best.1

def balancedSplitIndex (seqLens : List Int) : Nat :=
  balancedSplitFrom seqLens.sum seqLens.dropLast 1 0 (1, none)

namespace TboPass

variable (pass : TboPass)

/-- `TboSplitter._half`. -/
def half (start stop paddedLen : Nat) : Except Raised TboHalf := do
  let inputIds ← padRows paddedLen (sliceRows start stop pass.inputIds)
  let positions ← padRows paddedLen (sliceRows start stop pass.positions)
  let attenInfo ← narrowMetadata pass.attenInfo start stop paddedLen
  return {
    inputIds := inputIds
    positions := positions
    attenInfo := attenInfo
    numRows := stop - start }

def halves (mid paddedLen : Nat) : Except Raised (TboHalf × TboHalf) := do
  let a ← pass.half 0 mid paddedLen
  let b ← pass.half mid pass.inputIds.length paddedLen
  return (a, b)

/-- `TboSplitter.split`. -/
def split : Except Raised (TboHalf × TboHalf) :=
  let rows := pass.inputIds.length
  if rows < 2 then
    .error (.valueError s!"two-batch overlap needs >= 2 rows, got {rows}")
  else
    let mid := rows / 2
    pass.halves mid (rows - mid)

/-- `TboSplitter.split_prefill`. -/
def splitPrefill : Except Raised (TboHalf × TboHalf) :=
  let numSeqs := pass.inputIds.length
  if numSeqs < 2 then
    .error (.valueError s!"prefill two-batch overlap needs >= 2 sequences, got {numSeqs}")
  else
    let mid := match pass.attenInfo.bSeqLen with
      | some seqLens => balancedSplitIndex seqLens
      | none => numSeqs / 2
    let mid := max 1 (min mid (numSeqs - 1))
    pass.halves mid (max mid (numSeqs - mid))

/-- `_model_forward_tbo_split_inputs`. -/
def splitInputs : Except Raised (TboHalf × TboHalf) :=
  if pass.isPrefill then pass.splitPrefill else pass.split

end TboPass

/-! ### The rows of a pass, and a row-wise model -/

/-- What a pass says about one of its rows. `writes` are the cache rows of its cells. -/
structure TboRow where
  inputIds : Option (List Token)
  positions : Option (List Int)
  reqIdx : Option Int
  seqLen : Option Int
  prefixLen : Option Int
  kvBase : Option CacheRow
  writes : Option (List CacheRow)
  deriving DecidableEq, Repr

/-- Row `i` of a grid of `width` columns. -/
def tboRow (width : Nat) (inputIds : List (List Token)) (positions : List (List Int))
    (attenInfo : AttenInfo) (i : Nat) : TboRow where
  inputIds := inputIds[i]?
  positions := positions[i]?
  reqIdx := attenInfo.bReqIdx.bind fun values => values[i]?
  seqLen := attenInfo.bSeqLen.bind fun values => values[i]?
  prefixLen := attenInfo.bPrefixLen.bind fun values => values[i]?
  kvBase := attenInfo.bKvBase.bind fun values => values[i]?
  writes := attenInfo.curSelectIndex.map fun cells => sliceRows (i * width) ((i + 1) * width) cells

/-- Logits by rank: `[rows, width, vocab]`, or `[rows, vocab]` when positions were gathered. -/
inductive TboLogits (L : Type)
  | grid (rows : List (List L))
  | gathered (rows : List L)

/-- `row[column]`. -/
def columnAt {L : Type} (row : List L) (column : Nat) : Except Raised L :=
  match row[column]? with
  | some logits => .ok logits
  | none => .error (.indexError "index is out of bounds")

namespace TboPass

variable (pass : TboPass)

def row (i : Nat) : TboRow :=
  tboRow pass.width pass.inputIds pass.positions pass.attenInfo i

def rows : List TboRow := (List.range pass.inputIds.length).map pass.row

/-- Row `i` of a half, padded rows included. -/
def halfRow (half : TboHalf) (i : Nat) : TboRow :=
  tboRow pass.width half.inputIds half.positions half.attenInfo i

/-- The rows of a half, without the padded ones. -/
def realRows (half : TboHalf) : List TboRow := (List.range half.numRows).map (pass.halfRow half)

section RowWise

variable {L : Type} (model : TboRow → Nat → L)

/-- The logits of a row, column by column. -/
def logitsOf (row : TboRow) : List L := (List.range pass.width).map (model row)

/-- The unsplit forward: the grid's logits, or those of one position of each sequence. -/
def forward : Except Raised (TboLogits L) :=
  let out := pass.rows.map (pass.logitsOf model)
  match pass.logitsPositions with
  | none => .ok (.grid out)
  | some positions => do
      let gathered ← (out.zip positions).mapM fun pair => columnAt pair.1 pair.2
      return .gathered gathered

/-- `_head`: the logits of a half, cut to its real rows. -/
def head (half : TboHalf) : List (List L) :=
  ((List.range half.inputIds.length).map fun i =>
    pass.logitsOf model (pass.halfRow half i)).take half.numRows

/-- The split forward: `_model_forward_tbo_merge_outputs`, then `out[:, logits_positions, :]`. -/
def forwardTbo (a b : TboHalf) : Except Raised (TboLogits L) :=
  let out := pass.head model a ++ pass.head model b
  match pass.logitsPositions with
  | none => .ok (.grid out)
  | some positions => do
      let selected ← out.mapM fun row => positions.mapM (columnAt row)
      return .grid selected

end RowWise

/-! ### The identity on a step -/

/-- The two halves make up the step, and so does what a row-wise model makes of them. -/
structure Identity (a b : TboHalf) : Prop where
  rows : pass.realRows a ++ pass.realRows b = pass.rows
  offsets : ∀ half ∈ [a, b], half.attenInfo.bStartLoc = pass.attenInfo.bStartLoc.map fun _ =>
    (List.range half.inputIds.length).map fun i : Nat => (i : Int) * pass.width
  padded : ∀ half ∈ [a, b], ∀ i, half.numRows ≤ i → i < half.inputIds.length →
    ∃ k < half.numRows, (pass.halfRow half i).writes = (pass.halfRow half k).writes
  merged : ∀ {L : Type} (model : TboRow → Nat → L),
    pass.forwardTbo model a b = pass.forward model

end TboPass

/-! ### The balanced cut

The prefix sums only grow, so how far apart the two sides are first falls and then rises: past a
cut that is worse than the one before it, none is better. -/

/-- How far apart the two sides of a cut are. -/
def cutGap (seqLens : List Int) (i : Nat) : Nat :=
  ((seqLens.take i).sum - (seqLens.drop i).sum).natAbs

/-- What the loop computes of a prefix sum is the gap of its cut. -/
theorem cutGap_eq (seqLens : List Int) (i : Nat) :
    cutGap seqLens i =
      ((seqLens.take i).sum - (seqLens.sum - (seqLens.take i).sum)).natAbs := by
  have hsum := List.sum_take_add_sum_drop seqLens i
  rw [cutGap]
  congr 1
  omega

/-- Where growing a prefix widens the gap, growing it further does not narrow it again. -/
theorem gap_mono_of_lt {total p q r : Int} (hpq : p ≤ q) (hqr : q ≤ r)
    (hlt : (p - (total - p)).natAbs < (q - (total - q)).natAbs) :
    (q - (total - q)).natAbs ≤ (r - (total - r)).natAbs := by
  omega

theorem sum_take_nonneg {lens : List Int} (hnonneg : ∀ len ∈ lens, 0 ≤ len) (j : Nat) :
    0 ≤ (lens.take j).sum :=
  List.sum_nonneg fun len hlen => hnonneg len (List.mem_of_mem_take hlen)

/-- From a cut on, the loop ends at one that no later cut improves on. -/
theorem balancedSplitFrom_optimal (total : Int) {lens : List Int} (i : Nat) (running : Int)
    (hnonneg : ∀ len ∈ lens, 0 ≤ len) :
    ∃ k ≤ lens.length,
      balancedSplitFrom total lens (i + 1) running
        (i, some (running - (total - running)).natAbs) = i + k ∧
      ∀ j ≤ lens.length,
        (running + (lens.take k).sum - (total - (running + (lens.take k).sum))).natAbs ≤
          (running + (lens.take j).sum - (total - (running + (lens.take j).sum))).natAbs := by
  induction lens generalizing i running with
  | nil =>
    refine ⟨0, Nat.le_refl _, rfl, fun j hj => ?_⟩
    rw [List.take_nil, List.take_nil]
  | cons len lens ih =>
    obtain ⟨hlen, hlens⟩ := List.forall_mem_cons.mp hnonneg
    rw [balancedSplitFrom]
    by_cases hle : (running + len - (total - (running + len))).natAbs ≤
        (running - (total - running)).natAbs
    · -- The next cut is at least as good: it is where the rest of the loop starts.
      obtain ⟨k, hk, heq, hbest⟩ := ih (i + 1) (running + len) hlens
      refine ⟨k + 1, Nat.succ_le_succ hk, ?_, fun j hj => ?_⟩
      · rw [if_pos (by simpa using hle), heq]
        omega
      · rw [List.take_succ_cons, List.sum_cons, ← Int.add_assoc]
        cases j with
        | zero =>
          have hnext := hbest 0 (Nat.zero_le _)
          rw [List.take_zero, List.sum_nil, Int.add_zero] at hnext ⊢
          exact Nat.le_trans hnext hle
        | succ j =>
          rw [List.take_succ_cons, List.sum_cons, ← Int.add_assoc]
          exact hbest j (Nat.le_of_succ_le_succ hj)
    · -- The next cut is worse, and the loop stops before it.
      refine ⟨0, Nat.zero_le _, by rw [if_neg (by simpa using hle)]; rfl, fun j hj => ?_⟩
      rw [List.take_zero, List.sum_nil, Int.add_zero]
      cases j with
      | zero => rw [List.take_zero, List.sum_nil, Int.add_zero]
      | succ j =>
        rw [List.take_succ_cons, List.sum_cons, ← Int.add_assoc]
        have hrest := sum_take_nonneg hlens j
        have hgap := gap_mono_of_lt (r := running + len + (lens.take j).sum)
          (by omega : running ≤ running + len) (by omega) (Nat.lt_of_not_le hle)
        omega

/-- **The cut is balanced**: it leaves both sides a sequence, and no other such cut is closer. -/
theorem balancedSplitIndex_optimal (seqLens : List Int) (hlen : 2 ≤ seqLens.length)
    (hnonneg : ∀ len ∈ seqLens, 0 ≤ len) :
    1 ≤ balancedSplitIndex seqLens ∧ balancedSplitIndex seqLens ≤ seqLens.length - 1 ∧
    ∀ i, 1 ≤ i → i ≤ seqLens.length - 1 →
      cutGap seqLens (balancedSplitIndex seqLens) ≤ cutGap seqLens i := by
  match seqLens, hlen with
  | first :: second :: rest, _ =>
    set seqLens := first :: second :: rest with hseqLens
    have hlens : ∀ len ∈ (second :: rest).dropLast, 0 ≤ len := fun len hmem =>
      hnonneg len (List.mem_cons_of_mem _ (List.mem_of_mem_dropLast hmem))
    obtain ⟨k, hk, heq, hbest⟩ :=
      balancedSplitFrom_optimal seqLens.sum 1 (0 + first) hlens
    have hindex : balancedSplitIndex seqLens = 1 + k := heq
    have hlength : (second :: rest).dropLast.length = rest.length := by
      rw [List.length_dropLast, List.length_cons, Nat.add_sub_cancel]
    -- A cut inside the range reads what the loop has summed up to it.
    have htake : ∀ j ≤ rest.length,
        (seqLens.take (1 + j)).sum = 0 + first + ((second :: rest).dropLast.take j).sum := by
      intro j hj
      have hinner : (second :: rest).dropLast.take j = (second :: rest).take j := by
        rw [List.dropLast_eq_take, List.take_take, List.length_cons, Nat.add_sub_cancel,
          Nat.min_eq_left hj]
      rw [hinner, Nat.add_comm, hseqLens, List.take_succ_cons, List.sum_cons, Int.zero_add]
    have hn : seqLens.length - 1 = 1 + rest.length := by
      rw [hseqLens, List.length_cons, List.length_cons]
      omega
    rw [hlength] at hk hbest
    rw [hindex, hn]
    refine ⟨Nat.le_add_right .., by omega, fun i hpos hi => ?_⟩
    obtain ⟨j, rfl⟩ := Nat.exists_eq_add_of_le hpos
    rw [cutGap_eq, cutGap_eq, htake k hk, htake j (by omega)]
    exact hbest j (by omega)

/-- The second cut ties with the first, and the third is worse. -/
theorem balancedSplitIndex_tied :
    1 ≤ balancedSplitIndex [4, 0, 3, 9] ∧ balancedSplitIndex [4, 0, 3, 9] ≤ 3 ∧
    ∀ i, 1 ≤ i → i ≤ 3 →
      cutGap [4, 0, 3, 9] (balancedSplitIndex [4, 0, 3, 9]) ≤ cutGap [4, 0, 3, 9] i :=
  balancedSplitIndex_optimal [4, 0, 3, 9] (by decide) (by decide)

/-! ### A padded slice -/

/-- A padded slice reads the rows of the slice, then its last row. -/
theorem padRows_sliceRows {α : Type} {rows : List α} {start stop paddedLen : Nat}
    (hlt : start < stop) (hstop : stop ≤ rows.length) (hpad : stop - start ≤ paddedLen) :
    ∃ padded, padRows paddedLen (sliceRows start stop rows) = .ok padded ∧
      padded.length = paddedLen ∧
      ∀ i < paddedLen, padded[i]? = rows[start + min i (stop - start - 1)]? := by
  have hlen : (sliceRows start stop rows).length = stop - start := by
    rw [sliceRows, List.length_take, List.length_drop]
    omega
  have hget : ∀ i < stop - start, (sliceRows start stop rows)[i]? = rows[start + i]? := by
    intro i hi
    rw [sliceRows, List.getElem?_take_of_lt hi, List.getElem?_drop]
  unfold padRows
  split
  · next heq =>
    refine ⟨_, rfl, heq, fun i hi => ?_⟩
    rw [hget i (by omega), Nat.min_eq_left (by omega)]
  · next hne =>
    rw [List.getLast?_eq_getElem?, hlen, hget _ (by omega)]
    cases hlast : rows[start + (stop - start - 1)]? with
    | none => exact absurd (List.getElem?_eq_none_iff.mp hlast) (by omega)
    | some last =>
      refine ⟨_, rfl, by rw [List.length_append, List.length_replicate, hlen]; omega, ?_⟩
      intro i hi
      rcases Nat.lt_or_ge i (stop - start) with hreal | hrepeat
      · rw [List.getElem?_append_left (by omega), hget i hreal, Nat.min_eq_left (by omega)]
      · rw [List.getElem?_append_right (by omega), List.getElem?_replicate,
          if_pos (by omega), Nat.min_eq_right (by omega), hlast]

theorem padRows_length {α : Type} {rows padded : List α} {paddedLen : Nat}
    (hle : rows.length ≤ paddedLen) (h : padRows paddedLen rows = .ok padded) :
    padded.length = paddedLen := by
  unfold padRows at h
  split at h
  · next heq =>
    cases h
    exact heq
  · split at h
    · cases h
    · cases h
      rw [List.length_append, List.length_replicate]
      omega

/-- A column of the metadata, if it is there, has an entry for each of `n` rows. -/
def HasEntries {α : Type} (n : Nat) (column : Option (List α)) : Prop :=
  ∀ values, column = some values → values.length = n

theorem sliceAndPad_eq {α : Type} {column : Option (List α)} {n start stop paddedLen : Nat}
    (hcolumn : HasEntries n column) (hlt : start < stop) (hstop : stop ≤ n)
    (hpad : stop - start ≤ paddedLen) :
    ∃ padded, sliceAndPad start stop paddedLen column = .ok padded ∧
      padded.isSome = column.isSome ∧
      ∀ i < paddedLen, (padded.bind fun values => values[i]?) =
        column.bind fun values => values[start + min i (stop - start - 1)]? := by
  cases column with
  | none => exact ⟨none, rfl, rfl, fun _ _ => rfl⟩
  | some rows =>
    have hlen := hcolumn rows rfl
    obtain ⟨padded, hpadded, -, hget⟩ := padRows_sliceRows hlt (hlen ▸ hstop) hpad
    exact ⟨some padded, by rw [sliceAndPad, hpadded]; rfl, rfl, hget⟩

theorem sliceRows_one {α : Type} (i : Nat) (cells : List α) :
    sliceRows (i * 1) ((i + 1) * 1) cells = cells[i]?.toList := by
  rw [sliceRows, Nat.mul_one, Nat.mul_one, Nat.add_sub_cancel_left, List.take_one,
    List.head?_drop]

namespace TboPass

variable {pass : TboPass} {a b : TboHalf} {start stop mid paddedLen : Nat}

/-! ### What a half is -/

/-- The metadata has one entry for each row, and one cache row for each cell. -/
structure Laid (pass : TboPass) : Prop where
  positions : pass.positions.length = pass.inputIds.length
  reqIdx : HasEntries pass.inputIds.length pass.attenInfo.bReqIdx
  seqLen : HasEntries pass.inputIds.length pass.attenInfo.bSeqLen
  prefixLen : HasEntries pass.inputIds.length pass.attenInfo.bPrefixLen
  kvBase : HasEntries pass.inputIds.length pass.attenInfo.bKvBase
  cells : ∃ cells, pass.attenInfo.curSelectIndex = some cells ∧
    cells.length = pass.inputIds.length * pass.width

theorem half_eq_ok {half : TboHalf} (h : pass.half start stop paddedLen = .ok half) :
    padRows paddedLen (sliceRows start stop pass.inputIds) = .ok half.inputIds ∧
    half.numRows = stop - start ∧
    sliceAndPad start stop paddedLen pass.attenInfo.curSelectIndex =
      .ok half.attenInfo.curSelectIndex ∧
    half.attenInfo.bStartLoc = pass.attenInfo.bStartLoc.map (halfStartLoc paddedLen) := by
  unfold TboPass.half at h
  obtain ⟨inputIds, hids, h⟩ := bind_eq_ok.mp h
  obtain ⟨positions, -, h⟩ := bind_eq_ok.mp h
  obtain ⟨attenInfo, hmeta, h⟩ := bind_eq_ok.mp h
  unfold narrowMetadata at hmeta
  obtain ⟨cells, hcells, hmeta⟩ := bind_eq_ok.mp hmeta
  obtain ⟨reqIdx, -, hmeta⟩ := bind_eq_ok.mp hmeta
  obtain ⟨seqLen, -, hmeta⟩ := bind_eq_ok.mp hmeta
  obtain ⟨prefixLen, -, hmeta⟩ := bind_eq_ok.mp hmeta
  obtain ⟨kvBase, -, hmeta⟩ := bind_eq_ok.mp hmeta
  cases hmeta
  cases h
  exact ⟨hids, rfl, hcells, rfl⟩

/-- **A half of a one-column pass**: its rows, padded ones included, are rows of the slice. -/
theorem half_one (paddedLen : Nat) (hlaid : pass.Laid) (hwidth : pass.width = 1)
    (hlt : start < stop) (hstop : stop ≤ pass.inputIds.length) (hpad : stop - start ≤ paddedLen) :
    ∃ half, pass.half start stop paddedLen = .ok half ∧ half.inputIds.length = paddedLen ∧
      ∀ i < paddedLen,
        pass.halfRow half i = pass.row (start + min i (stop - start - 1)) := by
  obtain ⟨inputIds, hids, hlen, hidsGet⟩ := padRows_sliceRows hlt hstop hpad
  obtain ⟨positions, hpositions, -, hposGet⟩ :=
    padRows_sliceRows hlt (hlaid.positions.symm ▸ hstop) hpad
  obtain ⟨cells, hcells, hcellsLen⟩ := hlaid.cells
  rw [hwidth, Nat.mul_one] at hcellsLen
  obtain ⟨writes, hwrites, -, hwritesGet⟩ := padRows_sliceRows hlt (hcellsLen.symm ▸ hstop) hpad
  obtain ⟨reqIdx, hreqIdx, -, hreqGet⟩ := sliceAndPad_eq hlaid.reqIdx hlt hstop hpad
  obtain ⟨seqLen, hseqLen, -, hseqGet⟩ := sliceAndPad_eq hlaid.seqLen hlt hstop hpad
  obtain ⟨prefixLen, hprefixLen, -, hprefixGet⟩ := sliceAndPad_eq hlaid.prefixLen hlt hstop hpad
  obtain ⟨kvBase, hkvBase, -, hkvGet⟩ := sliceAndPad_eq hlaid.kvBase hlt hstop hpad
  have hcur : sliceAndPad start stop paddedLen pass.attenInfo.curSelectIndex =
      .ok (some writes) := by
    rw [hcells, sliceAndPad, hwrites]
    rfl
  rw [TboPass.half, hids, ok_bind, hpositions, ok_bind, narrowMetadata, hcur, ok_bind, hreqIdx,
    ok_bind, hseqLen, ok_bind, hprefixLen, ok_bind, hkvBase, ok_bind, pure_eq_ok, ok_bind,
    pure_eq_ok]
  refine ⟨_, rfl, hlen, fun i hi => ?_⟩
  simp only [halfRow, row, tboRow, hidsGet i hi, hposGet i hi, hreqGet i hi, hseqGet i hi,
    hprefixGet i hi, hkvGet i hi, hcells, hwidth, Option.map_some, sliceRows_one,
    hwritesGet i hi]

/-- The split is at an index inside the step, and both halves have the length of the longer. -/
theorem splitInputs_eq (h : 2 ≤ pass.inputIds.length) :
    ∃ mid, 0 < mid ∧ mid < pass.inputIds.length ∧
      pass.splitInputs = pass.halves mid (max mid (pass.inputIds.length - mid)) := by
  unfold splitInputs
  split
  · rw [splitPrefill, if_neg (Nat.not_lt.mpr h)]
    exact ⟨_, Nat.lt_of_lt_of_le Nat.zero_lt_one (Nat.le_max_left _ _),
      Nat.lt_of_le_of_lt (Nat.max_le.mpr ⟨Nat.le_sub_of_add_le h, Nat.min_le_right _ _⟩)
        (Nat.sub_lt (Nat.lt_of_lt_of_le Nat.zero_lt_two h) Nat.zero_lt_one), rfl⟩
  · refine ⟨pass.inputIds.length / 2, by omega, by omega, ?_⟩
    rw [split, if_neg (Nat.not_lt.mpr h)]
    exact congrArg (pass.halves (pass.inputIds.length / 2)) (by omega)

/-- The halves make up the step where each of their real rows is its own. -/
theorem realRows_append (hlen : a.numRows + b.numRows = pass.inputIds.length) :
    pass.realRows a ++ pass.realRows b = pass.rows ↔
      (∀ i < a.numRows, pass.halfRow a i = pass.row i) ∧
        ∀ i < b.numRows, pass.halfRow b i = pass.row (a.numRows + i) := by
  have hrows : pass.rows = (List.range a.numRows).map pass.row ++
      (List.range b.numRows).map fun i => pass.row (a.numRows + i) := by
    rw [rows, ← hlen, List.range_add, List.map_append, List.map_map]
    rfl
  rw [hrows, realRows, realRows]
  constructor
  · intro h
    obtain ⟨ha, hb⟩ := List.append_inj h (by simp)
    rw [List.map_inj_left] at ha hb
    exact ⟨fun i hi => ha i (List.mem_range.mpr hi), fun i hi => hb i (List.mem_range.mpr hi)⟩
  · rintro ⟨ha, hb⟩
    rw [List.map_congr_left fun i hi => ha i (List.mem_range.mp hi),
      List.map_congr_left fun i hi => hb i (List.mem_range.mp hi)]

/-- The logits of a half are those of its real rows. -/
theorem head_eq {L : Type} (model : TboRow → Nat → L) {half : TboHalf}
    (hle : half.numRows ≤ half.inputIds.length) :
    pass.head model half = (pass.realRows half).map (pass.logitsOf model) := by
  rw [head, realRows, ← List.map_take, List.take_range, Nat.min_eq_left hle, List.map_map]
  rfl

/-- The offsets of a half of a grid. -/
theorem halfStartLoc_eq {locs : List Int} {width : Int} (hlen : 1 < locs.length)
    (hstride : locs.getD 1 0 - locs.getD 0 0 = width) (paddedLen : Nat) :
    halfStartLoc paddedLen locs =
      (List.range paddedLen).map fun i : Nat => (i : Int) * width := by
  rw [halfStartLoc, if_pos hlen, hstride]

/-- The offsets of the step are those of a grid of its width. -/
def Strided (pass : TboPass) : Prop :=
  ∀ locs, pass.attenInfo.bStartLoc = some locs →
    1 < locs.length ∧ locs.getD 1 0 - locs.getD 0 0 = (pass.width : Int)

theorem startLoc_half (hstrided : pass.Strided) {half : TboHalf}
    (h : pass.half start stop paddedLen = .ok half) (hlen : half.inputIds.length = paddedLen) :
    half.attenInfo.bStartLoc = pass.attenInfo.bStartLoc.map fun _ =>
      (List.range half.inputIds.length).map fun i : Nat => (i : Int) * pass.width := by
  rw [(half_eq_ok h).2.2.2, hlen]
  cases hloc : pass.attenInfo.bStartLoc with
  | none => rfl
  | some locs =>
    obtain ⟨hlocs, hstride⟩ := hstrided locs hloc
    rw [Option.map_some, Option.map_some, halfStartLoc_eq hlocs hstride]

/-- **A one-column step is its two halves.** -/
theorem identity_of_one (hlaid : pass.Laid) (hstrided : pass.Strided) (hwidth : pass.width = 1)
    (hpositions : pass.logitsPositions = none) (h : 2 ≤ pass.inputIds.length) :
    ∃ a b, pass.splitInputs = .ok (a, b) ∧ pass.Identity a b := by
  obtain ⟨mid, hpos, hlt, hsplit⟩ := splitInputs_eq h
  obtain ⟨a, ha, halen, harow⟩ := half_one (max mid (pass.inputIds.length - mid)) hlaid hwidth hpos
    (Nat.le_of_lt hlt) (by omega)
  obtain ⟨b, hb, hblen, hbrow⟩ := half_one (max mid (pass.inputIds.length - mid)) hlaid hwidth hlt
    (Nat.le_refl _) (by omega)
  have hanum := (half_eq_ok ha).2.1
  have hbnum := (half_eq_ok hb).2.1
  have hrows : pass.realRows a ++ pass.realRows b = pass.rows := by
    refine (realRows_append (by omega)).mpr ⟨fun i hi => ?_, fun i hi => ?_⟩
    · rw [harow i (by omega), Nat.zero_add, Nat.min_eq_left (by omega)]
    · rw [hbrow i (by omega), Nat.min_eq_left (by omega), hanum, Nat.sub_zero]
  refine ⟨a, b, by rw [hsplit, halves, ha, ok_bind, hb, ok_bind, pure_eq_ok], hrows, ?_, ?_, ?_⟩
  · intro half hhalf
    rcases List.mem_pair.mp hhalf with rfl | rfl
    · exact startLoc_half hstrided ha halen
    · exact startLoc_half hstrided hb hblen
  · intro half hhalf i hreal hi
    -- a padded row is the last real one
    rcases List.mem_pair.mp hhalf with rfl | rfl
    · refine ⟨half.numRows - 1, by omega, ?_⟩
      rw [harow i (by omega), harow _ (by omega), Nat.min_eq_right (by omega),
        Nat.min_eq_left (by omega), hanum]
    · refine ⟨half.numRows - 1, by omega, ?_⟩
      rw [hbrow i (by omega), hbrow _ (by omega), Nat.min_eq_right (by omega),
        Nat.min_eq_left (by omega), hbnum]
  · intro L model
    rw [forwardTbo, forward, hpositions, head_eq model (by omega), head_eq model (by omega),
      ← List.map_append, hrows]

/-- The row of a half that fills it reads its cells past the end, unless there is one a row. -/
theorem width_of_row (hlaid : pass.Laid) {half : TboHalf}
    (hhalf : pass.half start stop paddedLen = .ok half) (hfull : stop - start = paddedLen)
    (hpos : 0 < paddedLen) (hstop : stop ≤ pass.inputIds.length)
    (hrow : pass.halfRow half (paddedLen - 1) = pass.row (start + (paddedLen - 1))) :
    pass.width = 1 := by
  obtain ⟨cells, hcells, hcellsLen⟩ := hlaid.cells
  have hcur := (half_eq_ok hhalf).2.2.1
  rw [hcells, sliceAndPad] at hcur
  obtain ⟨padded, hpadded, hcur⟩ := bind_eq_ok.mp hcur
  have hslice : (sliceRows start stop cells).length ≤ paddedLen := by
    rw [sliceRows, List.length_take]
    omega
  have hpaddedLen := padRows_length hslice hpadded
  have hwrites := congrArg TboRow.writes hrow
  rw [halfRow, row, tboRow, tboRow, hcells, ← Except.ok.inj hcur, Option.map_some,
    Option.map_some] at hwrites
  have hlens := congrArg List.length (Option.some.inj hwrites)
  rw [sliceRows, sliceRows, List.length_take, List.length_take, List.length_drop,
    List.length_drop, hpaddedLen, hcellsLen] at hlens
  -- `paddedLen` entries for as many rows
  have hcol : ∀ k, (k + 1) * pass.width - k * pass.width = pass.width := fun k => by
    rw [Nat.succ_mul, Nat.add_sub_cancel_left]
  rw [hcol, hcol] at hlens
  obtain ⟨last, rfl⟩ : ∃ last, paddedLen = last + 1 := ⟨paddedLen - 1, by omega⟩
  rw [Nat.add_sub_cancel] at hlens
  have hroom : (start + last + 1) * pass.width ≤ pass.inputIds.length * pass.width :=
    Nat.mul_le_mul_right _ (by omega)
  rw [Nat.succ_mul] at hroom
  have hright : min pass.width (pass.inputIds.length * pass.width - (start + last) * pass.width) =
      pass.width := Nat.min_eq_left (by omega)
  have hshort : pass.width ≤ last + 1 - last * pass.width := by
    rw [hright] at hlens
    omega
  rcases Nat.lt_trichotomy pass.width 1 with hzero | hone | hwide
  · -- a grid of no columns has no last cell to repeat
    have hnil : cells = [] := by
      rw [← List.length_eq_zero_iff, hcellsLen, Nat.lt_one_iff.mp hzero, Nat.mul_zero]
    rw [hnil, sliceRows, List.drop_nil, List.take_nil, padRows, if_neg (by simp)] at hpadded
    cases hpadded
  · exact hone
  · have hcells := Nat.mul_le_mul_left last hwide
    omega

/-- A step of two halves is one column wide. -/
theorem width_of_identity (hlaid : pass.Laid) (h : 2 ≤ pass.inputIds.length)
    (hsplit : pass.splitInputs = .ok (a, b)) (hid : pass.Identity a b) : pass.width = 1 := by
  obtain ⟨mid, hpos, hlt, hsplitEq⟩ := splitInputs_eq h
  rw [hsplitEq, halves] at hsplit
  obtain ⟨a', ha, hsplit⟩ := bind_eq_ok.mp hsplit
  obtain ⟨b', hb, hsplit⟩ := bind_eq_ok.mp hsplit
  cases hsplit
  have hanum := (half_eq_ok ha).2.1
  have hbnum := (half_eq_ok hb).2.1
  obtain ⟨hreal, hreal'⟩ := (realRows_append (by omega)).mp hid.rows
  -- the last row of the longer half has no cells left
  rcases Nat.le_total (pass.inputIds.length - mid) mid with hle | hle
  · rw [Nat.max_eq_left hle] at ha
    refine width_of_row hlaid ha (Nat.sub_zero mid) hpos (by omega) ?_
    rw [Nat.zero_add]
    exact hreal (mid - 1) (by omega)
  · rw [Nat.max_eq_right hle] at hb
    refine width_of_row hlaid hb rfl (by omega) (Nat.le_refl _) ?_
    have hlast := hreal' (pass.inputIds.length - mid - 1) (by omega)
    rwa [hanum, Nat.sub_zero] at hlast

/-- Each sequence has logits at its position. -/
theorem gather_columns {L : Type} {out : List (List L)} {positions : List Nat} {width : Nat}
    (hout : ∀ row ∈ out, row.length = width) (hin : ∀ p ∈ positions, p < width) :
    ∃ gathered, (out.zip positions).mapM (fun pair => columnAt pair.1 pair.2) = .ok gathered := by
  have hzip : ∀ pair ∈ out.zip positions, pair.2 < pair.1.length := fun pair hpair => by
    rw [hout _ (List.of_mem_zip hpair).1]
    exact hin _ (List.of_mem_zip hpair).2
  generalize out.zip positions = pairs at hzip
  induction pairs with
  | nil => exact ⟨[], rfl⟩
  | cons pair pairs ih =>
    obtain ⟨gathered, hgathered⟩ := ih fun pair hpair => hzip pair (List.mem_cons_of_mem _ hpair)
    have hget := List.getElem?_eq_getElem (hzip pair List.mem_cons_self)
    exact ⟨_, by rw [List.mapM_cons, columnAt, hget, ok_bind, hgathered, ok_bind, pure_eq_ok]⟩

/-- The gathered logits of a step are not those its halves select. -/
theorem gathered_of_identity {positions : List Nat}
    (hpositions : pass.logitsPositions = some positions) (hin : ∀ p ∈ positions, p < pass.width) :
    ¬ pass.Identity a b := by
  intro hid
  have hout : ∀ row ∈ pass.rows.map (pass.logitsOf fun _ _ => ()), row.length = pass.width := by
    intro row hrow
    obtain ⟨tboRow, -, rfl⟩ := List.mem_map.mp hrow
    rw [logitsOf, List.length_map, List.length_range]
  obtain ⟨gathered, hgathered⟩ := gather_columns hout hin
  have hforward : pass.forward (fun _ _ => ()) = .ok (.gathered gathered) := by
    rw [forward, hpositions]
    dsimp only
    rw [hgathered, ok_bind, pure_eq_ok]
  have hmerged := hid.merged fun _ _ => ()
  rw [hforward, forwardTbo, hpositions] at hmerged
  obtain ⟨selected, -, hmerged⟩ := bind_eq_ok.mp hmerged
  cases hmerged

end TboPass

/-! ### The metadata a step installs -/

namespace SlotMetadata

open SlotBatch

variable {s t : SlotMetadata} {batch : SlotBatch}

theorem gather_length {slots positions : List Int} {rows : List CacheRow}
    (h : batch.gather slots positions = .ok rows) (hlen : slots.length = positions.length) :
    rows.length = slots.length := by
  rw [mapM_length h, List.length_zip, hlen, Nat.min_self]

theorem padDecodeRows_length {slots lens : List Nat} {padded : List Nat × List Nat}
    (hlen : slots.length = lens.length) (h : padDecodeRows batch slots lens = .ok padded) :
    padded.1.length = padded.2.length := by
  unfold padDecodeRows at h
  split at h
  · cases h
    exact hlen
  · dsimp only at h
    split at h
    · obtain ⟨longest, -, h⟩ := bind_eq_ok.mp h
      cases h
      rw [List.length_append, List.length_append, List.length_replicate, List.length_replicate,
        hlen]
    · cases h
      exact hlen

theorem pointAtRows_ok {rows : List Int × List Int} {seqLens : List Nat} {count n : Nat}
    (h : s.pointAtRows batch rows seqLens count = (.ok n, t)) : ∃ longest selected,
      batch.gather rows.1 (rows.2.map (· - 1)) = .ok selected ∧ n = count ∧
      t.atten =
        { s.atten with
          bReqIdx := some rows.1
          bSeqLen := some rows.2
          maxActualSeqLen := longest
          isPrefill := false
          curSelectIndex := some selected
          bStartLoc := none }.clearChunked := by
  unfold pointAtRows at h
  dsimp only at h
  split at h
  · cases h
  · next longest _ =>
    split at h
    · cases h
    · next selected hselected =>
      cases h
      exact ⟨longest, selected, hselected, rfl, rfl⟩

/-- The metadata of a decode: an entry for each row, and the cache row it writes. -/
theorem beginDecode_ok (hexact : s.Exact) {rows : List (Nat × Nat)} {n : Nat}
    (h : s.beginDecode batch (rows.map Prod.fst) (rows.map Prod.snd) = (.ok n, t)) :
    ∃ slots lens selected longest, slots.length = n ∧ lens.length = n ∧ selected.length = n ∧
      t.atten =
        { curSelectIndex := some selected
          bReqIdx := some slots
          bSeqLen := some lens
          maxActualSeqLen := longest
          isPrefill := false
          bSeqLenCpu := some lens } := by
  cases hpad : padDecodeRows batch (rows.map Prod.fst) (rows.map Prod.snd) with
  | error e =>
    rw [beginDecode, hpad] at h
    cases h
  | ok padded =>
    have hlen := padDecodeRows_length (by simp) hpad
    by_cases hne : padded.1 = []
    · have hnil : rows = [] := by
        by_contra hrows
        exact padDecodeRows_ne_nil hpad (fun hmap => hrows (List.map_eq_nil_iff.mp hmap)) hne
      subst hnil
      have hraise := beginDecode_nil s batch
      rw [List.map_nil, List.map_nil] at h
      rw [h] at hraise
      cases hraise
    · rw [beginDecode_eq hexact batch hpad hne] at h
      obtain ⟨longest, selected, hselected, rfl, hatten⟩ := pointAtRows_ok h
      have hslots : (toDevice padded.1).length = padded.1.length := List.length_map ..
      have hlens : (toDevice padded.2).length = padded.1.length :=
        (List.length_map ..).trans hlen.symm
      refine ⟨_, _, selected, longest, hslots, hlens, ?_, hatten⟩
      rw [gather_length hselected (by rw [List.length_map, hslots, hlens]), hslots]

/-- The metadata of a prefill grid: an entry for each sequence, the cache row of each cell, and
the offset of each sequence in the grid. -/
theorem beginPrefill_ok {dcpSize width : Nat} {chunks : List Chunk}
    (h : s.beginPrefill batch dcpSize chunks = (.ok (), t))
    (hwidth : maxOf (chunks.map fun chunk => (chunk.stop : Int) - chunk.start) =
      .ok (width : Int)) :
    ∃ slots lens selected, slots.length = chunks.length ∧ lens.length = chunks.length ∧
      selected.length = chunks.length * width ∧
      t.atten.curSelectIndex = some selected ∧ t.atten.bReqIdx = some slots ∧
      t.atten.bSeqLen = some lens ∧
      t.atten.bStartLoc = some (((List.range batch.totalSlots).take chunks.length).map
        fun i : Nat => (i : Int) * width) ∧
      (∀ starts, t.atten.bPrefixLen = some starts → starts.length = chunks.length) ∧
      ∀ bases, t.atten.bKvBase = some bases → bases.length = chunks.length := by
  have hdevice : ∀ f : Chunk → Nat, (toDevice (chunks.map f)).length = chunks.length := by
    intro f
    rw [toDevice, List.length_map, List.length_map]
  unfold beginPrefill at h
  rw [hwidth] at h
  dsimp only at h
  split at h
  · cases h
  split at h
  · cases h
  split at h
  · cases h
  next selected hselected =>
  have hcells : selected.length = chunks.length * width := by
    rw [mapM_length hselected, List.length_flatMap]
    simp
  split at h
  · split at h
    · cases h
    · split at h
      · cases h
      · next bases hbases =>
        cases h
        refine ⟨_, _, selected, hdevice _, hdevice _, hcells, rfl, rfl, rfl, rfl, ?_, ?_⟩
        · rintro starts ⟨⟩
          exact hdevice _
        · rintro bases' ⟨⟩
          rw [mapM_length hbases, hdevice]
  · cases h
    refine ⟨_, _, selected, hdevice _, hdevice _, hcells, rfl, rfl, rfl, rfl, ?_, ?_⟩
    · intro starts hstarts
      cases hstarts
    · intro bases hbases
      cases hbases

end SlotMetadata

namespace TboPass

open SlotMetadata SlotBatch

/-- A step as it is submitted: the metadata its `SlotBatch` installed, and grids of its rows. -/
inductive Installed : TboPass → Prop
  | decode {info : AttenInfo} {ops : List SlotOp} {s t : SlotMetadata} {batch : SlotBatch}
      {rows : List (Nat × Nat)} {n : Nat} {inputIds : List (List Token)}
      {positions : List (List Int)} :
      Run Called (fresh info) ops s →
      s.beginDecode batch (rows.map Prod.fst) (rows.map Prod.snd) = (.ok n, t) →
      inputIds.length = n → positions.length = n →
      Installed {
        isPrefill := false
        width := 1
        inputIds := inputIds
        positions := positions
        attenInfo := t.atten
        logitsPositions := none }
  | prefill {s t : SlotMetadata} {batch : SlotBatch} {dcpSize width : Nat} {chunks : List Chunk}
      {inputIds : List (List Token)} {positions : List (List Int)}
      {logitsPositions : Option (List Nat)} :
      s.beginPrefill batch dcpSize chunks = (.ok (), t) →
      maxOf (chunks.map fun chunk => (chunk.stop : Int) - chunk.start) = .ok (width : Int) →
      chunks.length ≤ batch.totalSlots →
      inputIds.length = chunks.length → positions.length = chunks.length →
      (∀ columns, logitsPositions = some columns → ∀ column ∈ columns, column < width) →
      Installed {
        isPrefill := true
        width := width
        inputIds := inputIds
        positions := positions
        attenInfo := t.atten
        logitsPositions := logitsPositions }

theorem Installed.laid {pass : TboPass} (h : pass.Installed) : pass.Laid := by
  cases h with
  | decode hrun hdecode hids hpositions =>
    have hexact := hrun.invariant (fun _ _ _ hs hstep => Exact.call hs hstep) (Exact.fresh _)
    obtain ⟨slots, lens, selected, longest, hslots, hlens, hselected, hatten⟩ :=
      beginDecode_ok hexact hdecode
    subst hids
    refine ⟨hpositions, ?_, ?_, ?_, ?_, selected, ?_, by rw [Nat.mul_one]; exact hselected⟩
    · rintro values hvalues
      rw [hatten] at hvalues
      exact Option.some.inj hvalues ▸ hslots
    · rintro values hvalues
      rw [hatten] at hvalues
      exact Option.some.inj hvalues ▸ hlens
    · rw [hatten]
      exact nofun
    · rw [hatten]
      exact nofun
    · rw [hatten]
  | prefill hprefill hwidth hroom hids hpositions hcolumns =>
    obtain ⟨slots, lens, selected, hslots, hlens, hselected, hcur, hreq, hseq, -, hstarts,
      hbases⟩ := beginPrefill_ok hprefill hwidth
    rw [← hids] at hslots hlens hselected hpositions hstarts hbases
    refine ⟨hpositions, ?_, ?_, hstarts, hbases, selected, hcur, hselected⟩
    · rintro values hvalues
      exact Option.some.inj (hreq.symm.trans hvalues) ▸ hslots
    · rintro values hvalues
      exact Option.some.inj (hseq.symm.trans hvalues) ▸ hlens

theorem Installed.strided {pass : TboPass} (h : pass.Installed) (hn : 2 ≤ pass.inputIds.length) :
    pass.Strided := by
  intro locs hlocs
  cases h with
  | decode hrun hdecode hids hpositions =>
    have hexact := hrun.invariant (fun _ _ _ hs hstep => Exact.call hs hstep) (Exact.fresh _)
    obtain ⟨slots, lens, selected, longest, -, -, -, hatten⟩ :=
      beginDecode_ok hexact hdecode
    rw [hatten] at hlocs
    cases hlocs
  | @prefill s t batch dcpSize width chunks _ _ _ hprefill hwidth hroom hids hpositions hcolumns =>
    obtain ⟨slots, lens, selected, -, -, -, -, -, -, hstart, -, -⟩ :=
      beginPrefill_ok hprefill hwidth
    cases Option.some.inj (hstart.symm.trans hlocs)
    dsimp only at hn
    have htake : (List.range batch.totalSlots).take chunks.length = List.range chunks.length := by
      rw [List.take_range, Nat.min_eq_left hroom]
    have hoffset : ∀ i < chunks.length,
        ((List.range chunks.length).map fun i : Nat => (i : Int) * width).getD i 0 =
          (i : Int) * width := by
      intro i hi
      rw [List.getD_eq_getElem _ _ (by simpa using hi), List.getElem_map, List.getElem_range]
    rw [htake]
    refine ⟨by rw [List.length_map, List.length_range]; omega, ?_⟩
    rw [hoffset 1 (by omega), hoffset 0 (by omega)]
    dsimp only
    push_cast
    ring

/-- **A split step and its merge.** A decode step is its two halves. A prefill grid is where it
has one column and no positions are gathered: the cells of a wider one are cut by the row, and
the positions of all its sequences are selected of each. -/
theorem identity_iff {pass : TboPass} (h : pass.Installed) (hn : 2 ≤ pass.inputIds.length) :
    (∃ a b, pass.splitInputs = .ok (a, b) ∧ pass.Identity a b) ↔
      pass.isPrefill = false ∨ pass.width = 1 ∧ pass.logitsPositions = none := by
  have hlaid := h.laid
  have hstrided := h.strided hn
  constructor
  · rintro ⟨a, b, hsplit, hid⟩
    have hwidth := width_of_identity hlaid hn hsplit hid
    cases h with
    | decode _ _ _ _ => exact .inl rfl
    | @prefill _ _ _ _ _ _ _ _ logitsPositions _ _ _ _ _ hcolumns =>
        cases logitsPositions with
        | none => exact .inr ⟨hwidth, rfl⟩
        | some columns => exact absurd hid (gathered_of_identity rfl (hcolumns columns rfl))
  · intro hcond
    have hone : pass.width = 1 ∧ pass.logitsPositions = none := by
      rcases hcond with hdecode | hone
      · cases h with
        | decode _ _ _ _ => exact ⟨rfl, rfl⟩
        | prefill _ _ _ _ _ _ => cases hdecode
      · exact hone
    exact identity_of_one hlaid hstrided hone.1 hone.2 hn

/-- Blocks of 16 rows, one a slot. -/
def blockPerSlot : SlotBatch where
  maxSeqLen := 16
  totalSlots := 4
  graphBatchSize := fun rows => rows
  table := fun slot position => 16 * (slot + 1) + position

/-- Three rows of a decode. -/
def threeRows : TboPass where
  isPrefill := false
  width := 1
  inputIds := [[7], [8], [9]]
  positions := [[4], [2], [6]]
  attenInfo := ((fresh {}).beginDecode blockPerSlot [0, 1, 2] [5, 3, 7]).2.atten
  logitsPositions := none

theorem identity_threeRows :
    ∃ a b, threeRows.splitInputs = .ok (a, b) ∧ threeRows.Identity a b := by
  have hdecode : (fresh {}).beginDecode blockPerSlot ([(0, 5), (1, 3), (2, 7)].map Prod.fst)
      ([(0, 5), (1, 3), (2, 7)].map Prod.snd) =
        (.ok 3, ((fresh {}).beginDecode blockPerSlot [0, 1, 2] [5, 3, 7]).2) := rfl
  have hinstalled : threeRows.Installed := .decode .nil hdecode rfl rfl
  exact (identity_iff hinstalled (by decide)).mpr (.inl rfl)

/-- A grid of two prompts of two tokens. -/
def twoPrompts (logitsPositions : Option (List Nat)) : TboPass where
  isPrefill := true
  width := 2
  inputIds := [[7, 8], [9, 10]]
  positions := [[0, 1], [0, 1]]
  attenInfo := ((fresh {}).beginPrefill blockPerSlot 1 [⟨0, 0, 2⟩, ⟨1, 0, 2⟩]).2.atten
  logitsPositions := logitsPositions

theorem twoPrompts_installed {logitsPositions : Option (List Nat)}
    (h : ∀ columns, logitsPositions = some columns → ∀ column ∈ columns, column < 2) :
    (twoPrompts logitsPositions).Installed := by
  have hprefill : (fresh {}).beginPrefill blockPerSlot 1 [⟨0, 0, 2⟩, ⟨1, 0, 2⟩] =
      (.ok (), ((fresh {}).beginPrefill blockPerSlot 1 [⟨0, 0, 2⟩, ⟨1, 0, 2⟩]).2) := rfl
  exact .prefill hprefill rfl (by decide) rfl rfl h

/-- The first half of two prompts lacks a cell of its prompt, and each prompt gets the logits of
the positions of both. -/
theorem twoPrompts_split :
    (twoPrompts (some [1, 0])).Installed ∧
    (¬ ∃ a b, (twoPrompts (some [1, 0])).splitInputs = .ok (a, b) ∧
      (twoPrompts (some [1, 0])).Identity a b) ∧
    ∃ a b, (twoPrompts (some [1, 0])).splitInputs = .ok (a, b) ∧
      ((twoPrompts (some [1, 0])).row 0).writes = some [16, 17] ∧
      ((twoPrompts (some [1, 0])).halfRow a 0).writes = some [16] ∧
      ((twoPrompts (some [1, 0])).forward fun row column => (row.inputIds, column)) =
        .ok (.gathered [(some [7, 8], 1), (some [9, 10], 0)]) ∧
      ((twoPrompts (some [1, 0])).forwardTbo (fun row column => (row.inputIds, column)) a b) =
        .ok (.grid [[(some [7, 8], 1), (some [7, 8], 0)],
          [(some [9, 10], 1), (some [9, 10], 0)]]) := by
  refine ⟨twoPrompts_installed ?_, ?_, _, _, rfl, rfl, rfl, rfl, rfl⟩
  · rintro columns ⟨⟩
    decide
  · rintro ⟨a, b, hsplit, hid⟩
    cases hsplit
    exact absurd (congrArg List.head? hid.rows) (by decide)

end TboPass

end RapidLlm
