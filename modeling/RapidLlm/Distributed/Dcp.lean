import RapidLlm.Lib.RoundRobin
import RapidLlm.Executor.SlotBatch

/-!
# RapidLlm.Distributed.Dcp

**The KV layout of decode context parallelism** (`distributed/dcp.py`, and the block
table of `executor/slot_batch.py` as one rank of a group keeps it).

Positions are dealt round-robin over the ranks of the group. A rank packs the positions
it owns densely into the rows of its blocks and points every other entry of its table at
the discard row 0; a decode pass then reads its share through a strided view of the table.
`dcp_layout` says that the three agree for every sequence of grants.
-/

namespace RapidLlm

/-- Cache rows one scheduler block occupies on each rank. -/
def dcpRowsPerBlock (blockSize dcpSize : Nat) : Except Raised Nat :=
  if blockSize % dcpSize ≠ 0 then
    .error (.valueError
      s!"decode_context_parallel_size={dcpSize} must divide the KV block size {blockSize}")
  else .ok (blockSize / dcpSize)

/-- Cache row of every position in one scheduler block, as seen by `dcpRank`. -/
def dcpBlockRows (blockId : BlockId) (blockSize dcpRank dcpSize : Nat) :
    Except Raised (List CacheRow) := do
  let perRank ← dcpRowsPerBlock blockSize dcpSize
  let base := blockId * perRank
  return (List.range blockSize).map fun offset =>
    if offset % dcpSize = dcpRank then base + offset / dcpSize else 0

/-- How many of the first `seqLen` positions `dcpRank` owns. -/
def dcpLocalSeqLen (seqLen dcpRank dcpSize : Nat) : Nat :=
  (max (((seqLen : Int) - dcpRank + dcpSize - 1) / dcpSize) 0).toNat

/-- The block table of one rank, and what the rank knows about the layout. -/
structure DcpSlotBatch where
  blockSize : Nat
  dcpSize : Nat
  dcpRank : Nat
  rowsPerBlock : Nat
  /-- Row within a block for each offset; `none` where another rank owns it. -/
  blockOffsets : List (Option Nat)
  maxSeqLen : Nat
  table : Nat → Nat → CacheRow

namespace DcpSlotBatch

/-- `SlotBatch.__init__`: the table is zeroed, the filler slot tiles the null block. -/
def create (blockSize dcpSize dcpRank maxSeqLen totalSlots : Nat) :
    Except Raised DcpSlotBatch := do
  let rowsPerBlock ← dcpRowsPerBlock blockSize dcpSize
  let blockOffsets := (List.range blockSize).map fun offset =>
    if offset % dcpSize = dcpRank then some (offset / dcpSize) else none
  let nullRows ← dcpBlockRows nullBlockId blockSize dcpRank dcpSize
  let tiles := List.replicate ((maxSeqLen + blockSize - 1) / blockSize) nullRows
  return {
    blockSize, dcpSize, dcpRank, rowsPerBlock, blockOffsets, maxSeqLen
    table := fun slot position =>
      if totalSlots > 1 ∧ slot = totalSlots - 1
      then (tiles.flatten.take maxSeqLen).getD position 0 else 0 }

/-- The rows of the positions of one block, an offset at a time. -/
def blockRows (batch : DcpSlotBatch) (blockId : BlockId) : List CacheRow :=
  batch.blockOffsets.map fun offset =>
    match offset with
    | none => 0
    | some offset => blockId * batch.rowsPerBlock + offset

/-- One grant of `write_block_tables`. Entries past the table are dropped. -/
def pointAt (batch : DcpSlotBatch) (slot : Nat) (write : TableWrite) : DcpSlotBatch :=
  let start := write.startBlock * batch.blockSize
  if write.blockIds = [] ∨ start ≥ batch.maxSeqLen then batch
  else
    let count := min (write.blockIds.length * batch.blockSize) (batch.maxSeqLen - start)
    let rows := (write.blockIds.flatMap batch.blockRows).take count
    { batch with
      table := fun slot' position =>
        if slot' = slot ∧ start ≤ position ∧ position < start + count
        then rows.getD (position - start) 0 else batch.table slot' position }

/-- Point slots' table entries at the physical blocks they were given. -/
def writeBlockTables (batch : DcpSlotBatch) (writes : List (Nat × TableWrite)) :
    Except Raised DcpSlotBatch :=
  match writes.find? fun write => write.2.groupId ≠ 0 with
  | some write => .error (.notImplementedError
      s!"KV cache group {write.2.groupId} has no block table on the device yet")
  | none => .ok (writes.foldl (fun batch write => batch.pointAt write.1 write.2) batch)

/-- A rank's table after a number of calls of `write_block_tables`. -/
def written (blockSize dcpSize dcpRank maxSeqLen totalSlots : Nat)
    (calls : List (List (Nat × TableWrite))) : Except Raised DcpSlotBatch := do
  let batch ← create blockSize dcpSize dcpRank maxSeqLen totalSlots
  calls.foldlM writeBlockTables batch

/-- `table[slot, rank::dcp_size]`: what `_dcp_decode` reads. -/
def strided (batch : DcpSlotBatch) (slot : Nat) : List CacheRow :=
  ((List.range batch.maxSeqLen).filter fun position =>
    batch.dcpRank ≤ position ∧ (position - batch.dcpRank) % batch.dcpSize = 0).map
      (batch.table slot)

end DcpSlotBatch

/-- The grants of one sequence: each starts where the one before it ended, and together
they name its blocks in order. -/
inductive Grants : Nat → List TableWrite → List BlockId → Prop
  | nil (start : Nat) : Grants start [] []
  | cons {start : Nat} {write : TableWrite} {writes : List TableWrite} {rest : List BlockId} :
      write.startBlock = start →
      Grants (start + write.blockIds.length) writes rest →
      Grants start (write :: writes) (write.blockIds ++ rest)

variable {blockSize dcpSize rank maxSeqLen totalSlots slot seqLen : Nat}

/-! ### The two ways to count a share -/

theorem dcpLocalSeqLen_eq (hrank : rank < dcpSize) :
    dcpLocalSeqLen seqLen rank dcpSize = RoundRobin.share dcpSize rank seqLen := by
  have hnum : (seqLen : Int) - rank + dcpSize - 1 = ((seqLen + dcpSize - 1 - rank : Nat) : Int) := by
    omega
  rw [dcpLocalSeqLen, hnum, ← Int.natCast_ediv, Int.max_eq_left (Int.natCast_nonneg _),
    Int.toNat_natCast, RoundRobin.share]

theorem dcpRowsPerBlock_ok (hdvd : dcpSize ∣ blockSize) :
    dcpRowsPerBlock blockSize dcpSize = .ok (blockSize / dcpSize) := by
  rw [dcpRowsPerBlock, if_neg (not_not.mpr (Nat.mod_eq_zero_of_dvd hdvd))]

/-- The row `rank` gives position `k` of a run of blocks. -/
def dcpRowAt (blockSize dcpSize rank : Nat) (blocks : List BlockId) (k : Nat) : CacheRow :=
  if k % blockSize % dcpSize = rank then
    blocks.getD (k / blockSize) nullBlockId * (blockSize / dcpSize) + k % blockSize / dcpSize
  else 0

/-- What building a rank fixes, and writing its table leaves alone. -/
structure RankOf (blockSize dcpSize rank maxSeqLen : Nat) (batch : DcpSlotBatch) : Prop where
  blockSize_eq : batch.blockSize = blockSize
  dcpSize_eq : batch.dcpSize = dcpSize
  dcpRank_eq : batch.dcpRank = rank
  maxSeqLen_eq : batch.maxSeqLen = maxSeqLen
  rowsPerBlock_eq : batch.rowsPerBlock = blockSize / dcpSize
  blockOffsets_eq : batch.blockOffsets = (List.range blockSize).map fun offset =>
    if offset % dcpSize = rank then some (offset / dcpSize) else none

namespace DcpSlotBatch

variable {batch batch' : DcpSlotBatch}

theorem create_ok (hdvd : dcpSize ∣ blockSize) :
    ∃ batch, create blockSize dcpSize rank maxSeqLen totalSlots = .ok batch ∧
      RankOf blockSize dcpSize rank maxSeqLen batch := by
  simp only [create, dcpBlockRows, dcpRowsPerBlock_ok hdvd, ok_bind, pure_eq_ok]
  exact ⟨_, rfl, rfl, rfl, rfl, rfl, rfl, rfl⟩

/-- The offsets of the slot batch and `dcp_block_rows` name the same rows. -/
theorem blockRows_eq (hdvd : dcpSize ∣ blockSize) (hof : RankOf blockSize dcpSize rank maxSeqLen batch)
    (blockId : BlockId) :
    dcpBlockRows blockId blockSize rank dcpSize = .ok (batch.blockRows blockId) := by
  rw [dcpBlockRows, dcpRowsPerBlock_ok hdvd, ok_bind, pure_eq_ok, blockRows, hof.blockOffsets_eq,
    hof.rowsPerBlock_eq, List.map_map]
  congr 1
  refine List.map_congr_left fun offset _ => ?_
  by_cases h : offset % dcpSize = rank
  · simp [h]
  · simp [h]

theorem blockRows_length (hof : RankOf blockSize dcpSize rank maxSeqLen batch) (blockId : BlockId) :
    (batch.blockRows blockId).length = blockSize := by
  rw [blockRows, List.length_map, hof.blockOffsets_eq, List.length_map, List.length_range]

theorem blockRows_getD (hof : RankOf blockSize dcpSize rank maxSeqLen batch) (blockId : BlockId)
    {offset : Nat} (h : offset < blockSize) :
    (batch.blockRows blockId).getD offset 0 =
      if offset % dcpSize = rank then blockId * (blockSize / dcpSize) + offset / dcpSize
      else 0 := by
  have hlen : offset < (batch.blockRows blockId).length := by rwa [blockRows_length hof]
  rw [List.getD_eq_getElem _ _ hlen]
  simp only [blockRows, hof.blockOffsets_eq, hof.rowsPerBlock_eq, List.getElem_map,
    List.getElem_range]
  by_cases howned : offset % dcpSize = rank
  · simp [howned]
  · simp [howned]

/-- The rows of a run of blocks, position by position. -/
theorem rows_getD (hof : RankOf blockSize dcpSize rank maxSeqLen batch) {blocks : List BlockId}
    {k : Nat} (h : k < blocks.length * blockSize) :
    (blocks.flatMap batch.blockRows).getD k 0 = dcpRowAt blockSize dcpSize rank blocks k := by
  have hpos : 0 < blockSize := by
    rcases Nat.eq_zero_or_pos blockSize with h0 | h0
    · rw [h0, Nat.mul_zero] at h
      exact absurd h (Nat.not_lt_zero k)
    · exact h0
  rw [RoundRobin.getD_flatMap nullBlockId 0 (fun block _ => blockRows_length hof block) h,
    blockRows_getD hof _ (Nat.mod_lt k hpos), dcpRowAt]

/-! ### What a call writes -/

theorem pointAt_of (hof : RankOf blockSize dcpSize rank maxSeqLen batch) (write : TableWrite) :
    RankOf blockSize dcpSize rank maxSeqLen (batch.pointAt slot write) := by
  unfold pointAt
  simp only
  split
  · exact hof
  · exact ⟨hof.blockSize_eq, hof.dcpSize_eq, hof.dcpRank_eq, hof.maxSeqLen_eq,
      hof.rowsPerBlock_eq, hof.blockOffsets_eq⟩

/-- A write decides the entries it names and no other. -/
theorem pointAt_table (hof : RankOf blockSize dcpSize rank maxSeqLen batch) (write : TableWrite)
    (slot' : Nat) {position : Nat} (hin : position < maxSeqLen) :
    (batch.pointAt slot write).table slot' position =
      if slot' = slot ∧ write.startBlock * blockSize ≤ position ∧
        position < (write.startBlock + write.blockIds.length) * blockSize
      then dcpRowAt blockSize dcpSize rank write.blockIds
        (position - write.startBlock * blockSize)
      else batch.table slot' position := by
  unfold pointAt
  simp only [hof.blockSize_eq, hof.maxSeqLen_eq, Nat.add_mul]
  split
  · rename_i hskip
    rw [if_neg]
    rintro ⟨-, hge, hlt⟩
    rcases hskip with h | h
    · rw [h, List.length_nil, Nat.zero_mul] at hlt
      omega
    · omega
  · dsimp only
    by_cases hnamed : slot' = slot ∧ write.startBlock * blockSize ≤ position ∧
        position < write.startBlock * blockSize + write.blockIds.length * blockSize
    · obtain ⟨hslot, hge, hlt⟩ := hnamed
      have hk : position - write.startBlock * blockSize < write.blockIds.length * blockSize := by
        omega
      have htaken : position - write.startBlock * blockSize <
          min (write.blockIds.length * blockSize) (maxSeqLen - write.startBlock * blockSize) := by
        omega
      rw [if_pos ⟨hslot, hge, by omega⟩, if_pos ⟨hslot, hge, hlt⟩, ← rows_getD hof hk,
        List.getD_eq_getElem?_getD, List.getElem?_take_of_lt htaken,
        ← List.getD_eq_getElem?_getD]
    · rw [if_neg hnamed, if_neg]
      rintro ⟨hslot, hge, hlt⟩
      exact hnamed ⟨hslot, hge, by omega⟩

/-- The slot's entries name the rows of its blocks, as far as the table reaches. -/
def Names (batch : DcpSlotBatch) (blockSize dcpSize rank maxSeqLen slot : Nat)
    (blocks : List BlockId) : Prop :=
  ∀ position < blocks.length * blockSize, position < maxSeqLen →
    batch.table slot position = dcpRowAt blockSize dcpSize rank blocks position

end DcpSlotBatch

/-- Blocks that follow do not change the rows of a run. -/
theorem dcpRowAt_append_left {blocks more : List BlockId} {k : Nat}
    (h : k < blocks.length * blockSize) :
    dcpRowAt blockSize dcpSize rank (blocks ++ more) k =
      dcpRowAt blockSize dcpSize rank blocks k := by
  have hlt : k / blockSize < blocks.length := Nat.div_lt_of_lt_mul (by rwa [Nat.mul_comm])
  rw [dcpRowAt, dcpRowAt, List.getD_append _ _ _ _ hlt]

theorem dcpRowAt_append_right {blocks more : List BlockId} {k : Nat} (hpos : 0 < blockSize)
    (h : blocks.length * blockSize ≤ k) :
    dcpRowAt blockSize dcpSize rank (blocks ++ more) k =
      dcpRowAt blockSize dcpSize rank more (k - blocks.length * blockSize) := by
  have hle : blocks.length ≤ k / blockSize := (Nat.le_div_iff_mul_le hpos).mpr h
  have hdiv : (k - blocks.length * blockSize) / blockSize = k / blockSize - blocks.length := by
    rw [Nat.mul_comm, Nat.sub_mul_div]
  have hmod : (k - blocks.length * blockSize) % blockSize = k % blockSize := by
    rw [Nat.mul_comm]
    exact Nat.sub_mul_mod (by rwa [Nat.mul_comm])
  rw [dcpRowAt, dcpRowAt, List.getD_append_right _ _ _ _ hle, hdiv, hmod]

namespace DcpSlotBatch

variable {batch : DcpSlotBatch} {blocks : List BlockId}

/-- One more grant extends what the slot names. -/
theorem Names.grant (hof : RankOf blockSize dcpSize rank maxSeqLen batch)
    (hnames : batch.Names blockSize dcpSize rank maxSeqLen slot blocks) {write : TableWrite}
    (hstart : write.startBlock = blocks.length) :
    (batch.pointAt slot write).Names blockSize dcpSize rank maxSeqLen slot
      (blocks ++ write.blockIds) := by
  intro position hlt hin
  rw [List.length_append] at hlt
  rw [pointAt_table hof write slot hin, hstart]
  by_cases h : blocks.length * blockSize ≤ position
  · have hpos : 0 < blockSize := Nat.pos_of_ne_zero fun h0 => by
      rw [h0, Nat.mul_zero] at hlt
      exact Nat.not_lt_zero position hlt
    rw [if_pos ⟨rfl, h, hlt⟩, dcpRowAt_append_right hpos h]
  · rw [if_neg fun hcond => h hcond.2.1, dcpRowAt_append_left (Nat.lt_of_not_le h),
      hnames position (Nat.lt_of_not_le h) hin]

/-- A grant of another slot leaves it alone. -/
theorem Names.other (hof : RankOf blockSize dcpSize rank maxSeqLen batch)
    (hnames : batch.Names blockSize dcpSize rank maxSeqLen slot blocks) {slot' : Nat}
    (hne : slot ≠ slot') (write : TableWrite) :
    (batch.pointAt slot' write).Names blockSize dcpSize rank maxSeqLen slot blocks := by
  intro position hlt hin
  rw [pointAt_table hof write slot hin, if_neg fun hcond => hne hcond.1,
    hnames position hlt hin]

/-- A run of writes: the grants of one slot among those of all the others. -/
theorem names_of_grants {writes : List (Nat × TableWrite)} {rest : List BlockId}
    (hof : RankOf blockSize dcpSize rank maxSeqLen batch)
    (hnames : batch.Names blockSize dcpSize rank maxSeqLen slot blocks)
    (hgrants : Grants blocks.length
      ((writes.filter fun write => write.1 = slot).map Prod.snd) rest) :
    RankOf blockSize dcpSize rank maxSeqLen
        (writes.foldl (fun batch write => batch.pointAt write.1 write.2) batch) ∧
      (writes.foldl (fun batch write => batch.pointAt write.1 write.2) batch).Names
        blockSize dcpSize rank maxSeqLen slot (blocks ++ rest) := by
  induction writes generalizing batch blocks rest with
  | nil =>
    cases hgrants
    exact ⟨hof, (List.append_nil blocks).symm ▸ hnames⟩
  | cons write writes ih =>
    have hof' : RankOf blockSize dcpSize rank maxSeqLen (batch.pointAt write.1 write.2) :=
      pointAt_of hof write.2
    by_cases hslot : write.1 = slot
    · rw [List.filter_cons_of_pos (by simpa using hslot), List.map_cons] at hgrants
      cases hgrants with
      | cons hstart hrest =>
        rw [← List.length_append] at hrest
        subst hslot
        rw [← List.append_assoc]
        exact ih hof' (Names.grant hof hnames hstart) hrest
    · rw [List.filter_cons_of_neg (by simpa using hslot)] at hgrants
      exact ih hof' (Names.other hof hnames (fun h => hslot h.symm) write.2) hgrants

theorem writes_of {writes : List (Nat × TableWrite)}
    (hof : RankOf blockSize dcpSize rank maxSeqLen batch) :
    RankOf blockSize dcpSize rank maxSeqLen
      (writes.foldl (fun batch write => batch.pointAt write.1 write.2) batch) := by
  induction writes generalizing batch with
  | nil => exact hof
  | cons write writes ih => exact ih (pointAt_of hof write.2)

theorem writeBlockTables_ok {writes : List (Nat × TableWrite)}
    (hgroup : ∀ write ∈ writes, write.2.groupId = 0) : batch.writeBlockTables writes =
      .ok (writes.foldl (fun batch write => batch.pointAt write.1 write.2) batch) := by
  have hnone : (writes.find? fun write => write.2.groupId ≠ 0) = none := by
    rw [List.find?_eq_none]
    intro write hwrite
    simp [hgroup write hwrite]
  rw [writeBlockTables, hnone]

/-- Calls of `write_block_tables` write what their writes do one after another. -/
theorem calls_ok {calls : List (List (Nat × TableWrite))}
    (hgroup : ∀ write ∈ calls.flatten, write.2.groupId = 0) :
    calls.foldlM writeBlockTables batch =
      .ok (calls.flatten.foldl (fun batch write => batch.pointAt write.1 write.2) batch) := by
  induction calls generalizing batch with
  | nil => rfl
  | cons writes calls ih =>
    rw [List.flatten_cons] at hgroup ⊢
    rw [List.foldlM_cons,
      writeBlockTables_ok fun write h => hgroup write (List.mem_append_left _ h), ok_bind,
      ih fun write h => hgroup write (List.mem_append_right _ h), List.foldl_append]

/-- A rank owns the positions whose offset has a row in its blocks. -/
def owns (batch : DcpSlotBatch) (position : Nat) : Bool :=
  (batch.blockOffsets.getD (position % batch.blockSize) none).isSome

theorem owns_iff (hof : RankOf blockSize dcpSize rank maxSeqLen batch) (hdvd : dcpSize ∣ blockSize)
    (hpos : 0 < blockSize) (position : Nat) :
    batch.owns position = true ↔ position % dcpSize = rank := by
  have hlt : position % blockSize < ((List.range blockSize).map fun offset =>
      if offset % dcpSize = rank then some (offset / dcpSize) else none).length := by
    rw [List.length_map, List.length_range]
    exact Nat.mod_lt position hpos
  rw [owns, hof.blockOffsets_eq, hof.blockSize_eq, List.getD_eq_getElem _ _ hlt,
    List.getElem_map, List.getElem_range, Nat.mod_mod_of_dvd position hdvd]
  by_cases h : position % dcpSize = rank
  · simp [h]
  · simp [h]

/-- The view starts at the rank's first position and takes every `dcpSize`-th from there. -/
theorem strided_eq (hof : RankOf blockSize dcpSize rank maxSeqLen batch) (hrank : rank < dcpSize) :
    batch.strided slot = (List.range (RoundRobin.share dcpSize rank maxSeqLen)).map
      fun j => batch.table slot (rank + j * dcpSize) := by
  have hsame : ∀ position ∈ List.range maxSeqLen,
      decide (rank ≤ position ∧ (position - rank) % dcpSize = 0) =
        decide (position % dcpSize = rank) := by
    intro position _
    refine decide_eq_decide.mpr ⟨fun ⟨hle, hmod⟩ => ?_, fun hmod => ?_⟩
    · obtain ⟨k, hk⟩ := Nat.dvd_of_mod_eq_zero hmod
      have hsum : position = rank + dcpSize * k := by omega
      rw [hsum, Nat.add_mul_mod_self_left, Nat.mod_eq_of_lt hrank]
    · refine ⟨hmod ▸ Nat.mod_le position dcpSize, ?_⟩
      rw [← hmod]
      exact Nat.sub_mod_eq_zero_of_mod_eq (Nat.mod_mod position dcpSize).symm
  rw [strided, hof.maxSeqLen_eq, hof.dcpRank_eq, hof.dcpSize_eq, List.filter_congr hsame,
    RoundRobin.filter_range hrank, List.map_map]
  rfl

end DcpSlotBatch

/-! ### The rows of a sequence -/

section Rows

variable {blocks : List BlockId} {p q : Nat}

theorem block_pos (h : p < blocks.length * blockSize) : 0 < blockSize :=
  Nat.pos_of_ne_zero fun h0 => by
    rw [h0, Nat.mul_zero] at h
    exact Nat.not_lt_zero p h

theorem div_lt_blocks (h : p < blocks.length * blockSize) : p / blockSize < blocks.length :=
  Nat.div_lt_of_lt_mul (by rwa [Nat.mul_comm])

/-- An owned position has a row of a block that is not the null block. -/
theorem dcpRowAt_pos (hdvd : dcpSize ∣ blockSize) (hnull : nullBlockId ∉ blocks)
    (h : p < blocks.length * blockSize) (howned : p % dcpSize = rank) :
    0 < dcpRowAt blockSize dcpSize rank blocks p := by
  have hpos : 0 < blockSize := block_pos h
  have hblock : 0 < blocks.getD (p / blockSize) nullBlockId := by
    have hlt : p / blockSize < blocks.length := div_lt_blocks h
    have hmem : blocks[p / blockSize] ∈ blocks := List.getElem_mem hlt
    rw [List.getD_eq_getElem _ _ hlt]
    refine Nat.pos_of_ne_zero fun h0 => ?_
    rw [h0] at hmem
    exact hnull hmem
  have hrows : 0 < blockSize / dcpSize :=
    Nat.div_pos (Nat.le_of_dvd hpos hdvd) (Nat.pos_of_dvd_of_pos hdvd hpos)
  rw [dcpRowAt, Nat.mod_mod_of_dvd p hdvd, if_pos howned]
  exact Nat.add_pos_left (Nat.mul_pos hblock hrows) _

theorem dcpRowAt_other (hdvd : dcpSize ∣ blockSize) (hother : p % dcpSize ≠ rank) :
    dcpRowAt blockSize dcpSize rank blocks p = 0 := by
  rw [dcpRowAt, Nat.mod_mod_of_dvd p hdvd, if_neg hother]

/-- A row names its block and its offset: two owned positions in one row are one position. -/
theorem dcpRowAt_injective (hdvd : dcpSize ∣ blockSize) (hnodup : blocks.Nodup)
    (hp : p < blocks.length * blockSize) (hq : q < blocks.length * blockSize)
    (hownp : p % dcpSize = rank) (hownq : q % dcpSize = rank)
    (hrow : dcpRowAt blockSize dcpSize rank blocks p = dcpRowAt blockSize dcpSize rank blocks q) :
    p = q := by
  have hpos : 0 < blockSize := block_pos hp
  have hrows : 0 < blockSize / dcpSize :=
    Nat.div_pos (Nat.le_of_dvd hpos hdvd) (Nat.pos_of_dvd_of_pos hdvd hpos)
  have hoffset : ∀ k, k % blockSize / dcpSize < blockSize / dcpSize := fun k =>
    Nat.div_lt_div_of_lt_of_dvd hdvd (Nat.mod_lt k hpos)
  rw [dcpRowAt, dcpRowAt, Nat.mod_mod_of_dvd p hdvd, Nat.mod_mod_of_dvd q hdvd, if_pos hownp,
    if_pos hownq] at hrow
  have hblock : blocks.getD (p / blockSize) nullBlockId =
      blocks.getD (q / blockSize) nullBlockId := by
    have hdiv := congrArg (· / (blockSize / dcpSize)) hrow
    simpa only [Nat.mul_comm _ (blockSize / dcpSize), Nat.mul_add_div hrows,
      Nat.div_eq_of_lt (hoffset p), Nat.div_eq_of_lt (hoffset q), Nat.add_zero] using hdiv
  have hindex : p / blockSize = q / blockSize := by
    rw [List.getD_eq_getElem _ _ (div_lt_blocks hp), List.getD_eq_getElem _ _ (div_lt_blocks hq),
      hnodup.getElem_inj_iff] at hblock
    exact hblock
  have hquot : p % blockSize / dcpSize = q % blockSize / dcpSize := by
    rw [hblock] at hrow
    exact Nat.add_left_cancel hrow
  have hrem : p % blockSize % dcpSize = q % blockSize % dcpSize := by
    rw [Nat.mod_mod_of_dvd p hdvd, Nat.mod_mod_of_dvd q hdvd, hownp, hownq]
  have hmod : p % blockSize = q % blockSize := by
    rw [← Nat.div_add_mod (p % blockSize) dcpSize, hquot, hrem, Nat.div_add_mod]
  rw [← Nat.div_add_mod p blockSize, hindex, hmod, Nat.div_add_mod]

end Rows

/-- What the tables of a group say about the first `seqLen` positions of a slot. Positions
from `maxSeqLen` on have no entry in any table. -/
structure DcpLayout (blockSize dcpSize maxSeqLen slot seqLen : Nat)
    (tables : Nat → DcpSlotBatch) : Prop where
  /-- Each position is owned by exactly one rank. -/
  owner : ∀ p < seqLen, ∃! rank, rank < dcpSize ∧ (tables rank).owns p = true
  /-- The owner has a row for it, every other rank discards it. -/
  discard : ∀ rank < dcpSize, ∀ p < seqLen, p < maxSeqLen →
    ((tables rank).table slot p ≠ 0 ↔ (tables rank).owns p = true)
  /-- No two positions share a row of a rank. -/
  injective : ∀ rank < dcpSize, ∀ rank' < dcpSize, ∀ p < seqLen, ∀ q < seqLen,
    p < maxSeqLen → q < maxSeqLen → (tables rank).owns p = true → (tables rank').owns q = true →
    (rank, (tables rank).table slot p) = (rank', (tables rank').table slot q) → p = q
  /-- The view a rank attends over lists its rows in position order. -/
  view : ∀ rank < dcpSize,
    ((tables rank).strided slot).take (dcpLocalSeqLen seqLen rank dcpSize) =
      ((List.range (min seqLen maxSeqLen)).filter (tables rank).owns).map ((tables rank).table slot)
  /-- The shares add up to the sequence. -/
  share : ∑ rank ∈ Finset.range dcpSize, dcpLocalSeqLen seqLen rank dcpSize = seqLen
  /-- `dcp_block_rows` and the offsets of the slot batch agree. -/
  offsets : ∀ rank < dcpSize, ∀ blockId,
    dcpBlockRows blockId blockSize rank dcpSize = .ok ((tables rank).blockRows blockId)

namespace DcpSlotBatch

variable {earlier calls : List (List (Nat × TableWrite))} {blocks : List BlockId}

/-- A rank's table after the grants of a sequence, whatever was written before. -/
theorem written_ok (hdvd : dcpSize ∣ blockSize)
    (hgroup : ∀ write ∈ (earlier ++ calls).flatten, write.2.groupId = 0)
    (hgrants : Grants 0 ((calls.flatten.filter fun write => write.1 = slot).map Prod.snd) blocks)
    (rank : Nat) :
    ∃ batch, written blockSize dcpSize rank maxSeqLen totalSlots (earlier ++ calls) = .ok batch ∧
      RankOf blockSize dcpSize rank maxSeqLen batch ∧
      batch.Names blockSize dcpSize rank maxSeqLen slot blocks := by
  obtain ⟨fresh, hfresh, hof⟩ := @create_ok blockSize dcpSize rank maxSeqLen totalSlots hdvd
  have hnone : Names (earlier.flatten.foldl (fun batch write => batch.pointAt write.1 write.2) fresh)
      blockSize dcpSize rank maxSeqLen slot [] := by
    intro position hlt
    rw [List.length_nil, Nat.zero_mul] at hlt
    exact absurd hlt (Nat.not_lt_zero position)
  obtain ⟨hof', hnames⟩ := names_of_grants (writes_of hof) hnone hgrants
  refine ⟨_, ?_, hof', hnames⟩
  rw [written, hfresh, ok_bind, calls_ok hgroup, List.flatten_append, List.foldl_append]

end DcpSlotBatch

variable {earlier calls : List (List (Nat × TableWrite))} {blocks : List BlockId}

/-- The KV layout of a group: block packing, strided read and local length compose. -/
theorem dcp_layout (hsize : 0 < dcpSize) (hdvd : dcpSize ∣ blockSize)
    (hgroup : ∀ write ∈ (earlier ++ calls).flatten, write.2.groupId = 0)
    (hgrants : Grants 0 ((calls.flatten.filter fun write => write.1 = slot).map Prod.snd) blocks)
    (hnodup : blocks.Nodup) (hnull : nullBlockId ∉ blocks)
    (hcover : seqLen ≤ blocks.length * blockSize) :
    ∃ tables : Nat → DcpSlotBatch,
      (∀ rank < dcpSize, DcpSlotBatch.written blockSize dcpSize rank maxSeqLen totalSlots
        (earlier ++ calls) = .ok (tables rank)) ∧
      DcpLayout blockSize dcpSize maxSeqLen slot seqLen tables := by
  have hwrites := fun rank => @DcpSlotBatch.written_ok blockSize dcpSize maxSeqLen totalSlots slot
    earlier calls blocks hdvd hgroup hgrants rank
  choose tables hwritten hof hnames using hwrites
  have hcovered : ∀ {p}, p < seqLen → p < blocks.length * blockSize := fun hp =>
    Nat.lt_of_lt_of_le hp hcover
  have howns : ∀ rank {p}, p < seqLen →
      ((tables rank).owns p = true ↔ p % dcpSize = rank) := fun rank p hp =>
    DcpSlotBatch.owns_iff (hof rank) hdvd (block_pos (hcovered hp)) p
  refine ⟨tables, fun rank _ => hwritten rank, ?_⟩
  constructor
  case owner =>
    intro p hp
    refine ⟨p % dcpSize, ⟨Nat.mod_lt p hsize, (howns _ hp).mpr rfl⟩, fun rank ⟨_, hown⟩ => ?_⟩
    exact ((howns rank hp).mp hown).symm
  case discard =>
    intro rank _ p hp hin
    rw [hnames rank p (hcovered hp) hin, howns rank hp]
    constructor
    · intro hne
      by_contra hother
      exact hne (dcpRowAt_other hdvd hother)
    · intro howned
      exact Nat.ne_of_gt (dcpRowAt_pos hdvd hnull (hcovered hp) howned)
  case injective =>
    intro rank _ rank' _ p hp q hq hinp hinq hownp hownq heq
    obtain ⟨rfl, hrow⟩ := Prod.mk.inj heq
    rw [hnames rank p (hcovered hp) hinp, hnames rank q (hcovered hq) hinq] at hrow
    exact dcpRowAt_injective hdvd hnodup (hcovered hp) (hcovered hq) ((howns rank hp).mp hownp)
      ((howns rank hq).mp hownq) hrow
  case view =>
    intro rank hrank
    have hfilter : (List.range (min seqLen maxSeqLen)).filter (tables rank).owns =
        (List.range (min seqLen maxSeqLen)).filter fun p => p % dcpSize = rank := by
      refine List.filter_congr fun p hp => ?_
      have hlt : p < seqLen := Nat.lt_of_lt_of_le (List.mem_range.mp hp) (Nat.min_le_left _ _)
      rw [Bool.eq_iff_iff, howns rank hlt, decide_eq_true_iff]
    rw [hfilter, RoundRobin.filter_range hrank, DcpSlotBatch.strided_eq (hof rank) hrank,
      dcpLocalSeqLen_eq hrank, ← List.map_take, List.take_range, ← RoundRobin.share_min,
      List.map_map]
    rfl
  case share =>
    rw [Finset.sum_congr rfl fun rank hrank => dcpLocalSeqLen_eq (Finset.mem_range.mp hrank)]
    exact RoundRobin.sum_share hsize seqLen
  case offsets => exact fun rank _ => DcpSlotBatch.blockRows_eq hdvd (hof rank)

theorem dcp_layout_two : ∃ tables : Nat → DcpSlotBatch,
    (∀ rank < 2, DcpSlotBatch.written 4 2 rank 8 3
      ([[(0, ⟨0, 0, [2]⟩)]] ++ [[(0, ⟨0, 0, [3]⟩), (1, ⟨0, 0, [5]⟩)], [(0, ⟨0, 1, [1]⟩)]]) =
        .ok (tables rank)) ∧
    DcpLayout 4 2 8 0 6 tables :=
  dcp_layout (by decide) (by decide) (by decide)
    (@Grants.cons 0 ⟨0, 0, [3]⟩ _ _ rfl (@Grants.cons 1 ⟨0, 1, [1]⟩ _ _ rfl (.nil 2)))
    (by decide) (by decide) (by decide)

end RapidLlm
