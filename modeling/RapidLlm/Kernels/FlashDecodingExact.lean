import RapidLlm.Kernels.FlashDecoding

/-!
# RapidLlm.Kernels.FlashDecodingExact

**One softmax, however the history is cut.** Whatever partition size `_resolve_partition_size`
returns, and through either stage-1 kernel, `flash_decoding` leaves for every row and query head
the softmax-weighted sum over its whole history, and its log-sum-exp
(`flashDecoding_softmax`). A partition stands for what its positions weigh (`walk_stands`), the
partitions of a row add up to its history (`sum_parts`), and stage 2 loads only the slots of
these, all of them stored (`stage2_defined`).

The packed kernel multiplies by the two scales where the per-head kernel looks at the dtype
first. With an unquantised cache they agree when the scales are 1, as the attention layer passes
them (`Promised`).
-/

namespace RapidLlm

open Floating Tiling

variable {K : Type*} [Field K]

namespace KvCaches

/-- What an element of the key cache stands for. -/
def key (caches : KvCaches K) (kScale : K) (addr : Nat) : K :=
  match caches with
  | unquantized k _ => k addr
  | uint8 k _ => (dequantFp8e4m3 (k addr) : ℚ) * (fp8BitTrickScale : ℚ) * kScale

/-- What an element of the value cache stands for. -/
def value (caches : KvCaches K) (vScale : K) (addr : Nat) : K :=
  match caches with
  | unquantized _ v => v addr
  | uint8 _ v => (dequantFp8e4m3 (v addr) : ℚ) * (fp8BitTrickScale : ℚ) * vScale

variable (caches : KvCaches K) (scale : K) (addr : Nat)

/-- The per-head kernel scales what it widened. -/
theorem widened_key :
    (if caches.kvFp8 then caches.loadK true addr * caches.kernelScale scale
      else caches.loadK true addr) = caches.key scale addr := by
  cases caches with
  | unquantized k v => rfl
  | uint8 k v =>
    simp only [kernelScale, kvFp8, if_true, loadK, key]
    ring

theorem widened_value :
    (if caches.kvFp8 then caches.loadV true addr * caches.kernelScale scale
      else caches.loadV true addr) = caches.value scale addr := by
  cases caches with
  | unquantized k v => rfl
  | uint8 k v =>
    simp only [kernelScale, kvFp8, if_true, loadV, value]
    ring

variable {caches scale}

/-- The other kernels scale in any case, by 1 where there is nothing to scale. -/
theorem scaled_key (hscale : caches.kvFp8 = false → scale = 1) :
    caches.loadK true addr * caches.kernelScale scale = caches.key scale addr := by
  rw [← widened_key]
  split
  · rfl
  · next h =>
    rw [kernelScale, if_neg h, hscale (by simpa using h), mul_one]

theorem scaled_value (hscale : caches.kvFp8 = false → scale = 1) :
    caches.loadV true addr * caches.kernelScale scale = caches.value scale addr := by
  rw [← widened_value]
  split
  · rfl
  · next h =>
    rw [kernelScale, if_neg h, hscale (by simpa using h), mul_one]

end KvCaches

namespace DecodeCall

/-- The cache row of a position of a batch row. -/
def rowOf (call : DecodeCall K) (b n : Nat) : Nat :=
  call.bReqTokensTable.row (call.bReqIdx b) n

/-- The key at a position, for a query head. -/
def key (call : DecodeCall K) (b h n d : Nat) : K :=
  call.caches.key call.kScale (call.kStrides.offset (call.rowOf b n) (h / call.numKvGroups) d)

/-- The value at a position, for a query head. -/
def value (call : DecodeCall K) (b h n d : Nat) : K :=
  call.caches.value call.vScale (call.vStrides.offset (call.rowOf b n) (h / call.numKvGroups) d)

/-- The score of a position. -/
def score (call : DecodeCall K) (b h n : Nat) : K :=
  call.qkScale * ∑ d ∈ Finset.range call.headDim, call.q b h d * call.key b h n d

/-- What the callers keep: both caches are laid out alike, an unquantised one has no scale, and
no row is longer than the longest. -/
structure Promised (call : DecodeCall K) : Prop where
  sameLayout : call.vStrides = call.kStrides
  unscaled : call.caches.kvFp8 = false → call.kScale = 1 ∧ call.vScale = 1
  bounded : ∀ b < call.batchs, call.bSeqLen b ≤ call.maxActualSeqLen

variable [LinearOrder K] [Exponential K]

/-- The softmax over positions `0 .. len - 1` of a row, each once, with its log-sum-exp; over no
position, zero and `-inf`. -/
def softmaxRow (call : DecodeCall K) (b h : Nat) : Partial K :=
  let positions := Finset.range (call.bSeqLen b)
  if call.bSeqLen b = 0 then ⟨fun _ => num 0, negInf⟩
  else {
    out := fun d => num ((∑ n ∈ positions, Exponential.exp (call.score b h n) * call.value b h n d) /
      ∑ n ∈ positions, Exponential.exp (call.score b h n))
    lse := num (Exponential.log (∑ n ∈ positions, Exponential.exp (call.score b h n))) }

/-- What one position weighs. -/
def position (call : DecodeCall K) (b h n : Nat) : Total K :=
  .weigh (call.score b h n) (call.value b h n)

/-- What the whole history weighs. -/
def history (call : DecodeCall K) (b h : Nat) : Total K :=
  ∑ n ∈ Finset.range (call.bSeqLen b), call.position b h n

end DecodeCall

/-- A total, normalised. -/
def Partial.of [LinearOrder K] [Exponential K] (total : Total K) : Partial K :=
  ⟨total.softmax, total.lse⟩

/-- A query head's KV head is one of them. -/
theorem HeadGeometry.kvHead_lt (heads : HeadGeometry) {h : Nat} (hh : h < heads.numHeads) :
    h / (heads.numHeads / heads.numKvHeads) < heads.numKvHeads := by
  have hmul : heads.numKvHeads * (heads.numHeads / heads.numKvHeads) = heads.numHeads :=
    Nat.mul_div_cancel' heads.grouped
  exact Nat.div_lt_of_lt_mul (by rw [Nat.mul_comm, hmul]; exact hh)

/-! ### Partition sizes -/

namespace DecodeEnv

theorem adaptivePartitionSize_spec (batch numHeads maxSeqLen numSms : Nat) :
    0 < adaptivePartitionSize batch numHeads maxSeqLen numSms ∧
      adaptivePartitionSize batch numHeads maxSeqLen numSms % 16 = 0 := by
  unfold adaptivePartitionSize
  have hmul : ∀ a : Nat, 0 < max 32 (a * 16) ∧ max 32 (a * 16) % 16 = 0 := fun a => by
    refine ⟨by omega, ?_⟩
    rcases le_total 32 (a * 16) with h | h
    · rw [max_eq_right h, Nat.mul_mod_left]
    · rw [max_eq_left h]
  split
  · exact ⟨by decide, rfl⟩
  · dsimp only
    split
    · exact ⟨by decide, by decide⟩
    · exact hmul _

/-- Whatever the environment says, a partition is a number of inner blocks. -/
theorem resolvePartitionSize_spec (env : DecodeEnv) (batch numHeads maxSeqLen : Nat) :
    0 < env.resolvePartitionSize batch numHeads maxSeqLen ∧
      env.resolvePartitionSize batch numHeads maxSeqLen % 16 = 0 := by
  unfold resolvePartitionSize
  dsimp only
  split
  · exact ⟨by decide, rfl⟩
  · split
    · split
      · exact ⟨by decide, rfl⟩
      · next pinned _ => omega
    · exact adaptivePartitionSize_spec _ _ _ _

end DecodeEnv

namespace DecodeCall

/-! ### What the kernels load -/

theorem mem_grid {x y z a b c : Nat} : (a, b, c) ∈ grid x y z ↔ a < x ∧ b < y ∧ c < z := by
  simp only [grid, List.pair_mem_product, List.mem_range]

variable (call : DecodeCall K) {blockSeq : Nat}

omit [Field K] in
/-- A partition outside the history has no block, and no other is without one. -/
theorem numBlocks_eq_zero_iff {blockN : Nat} (hblock : 0 < blockN) (b p : Nat) (hseq : 0 < blockSeq) :
    numBlocks blockN (p * blockSeq) (call.partitionEnd blockSeq b p) = 0 ↔
      ¬p * blockSeq < call.bSeqLen b := by
  unfold numBlocks partitionEnd
  split
  · next h => simp only [true_iff]; omega
  · next h =>
    have hdiv : 0 < (min (call.bSeqLen b) (p * blockSeq + blockSeq) - p * blockSeq + blockN - 1) /
        blockN := Nat.div_pos (by omega) hblock
    constructor
    · intro hzero
      omega
    · intro hnot
      omega

variable {call}

omit [Field K] in
/-- A group the packed kernel serves fits the rows of its tile. -/
theorem packed_spec {env : DecodeEnv} (h : call.packed env = true) :
    0 < call.numKvGroups ∧ call.numKvGroups ≤ 16 := by
  unfold packed DecodeEnv.packedDecodeSupported at h
  split at h
  · cases h
  · split at h
    · cases h
    · have hgroup := of_decide_eq_true h
      exact ⟨by unfold numKvGroups; omega, hgroup.2.1⟩

omit [Field K] in
theorem kvHead_lt {h : Nat} (hh : h < call.numHeads) :
    h / call.numKvGroups < call.numKvHeads :=
  call.toHeadGeometry.kvHead_lt hh

omit [Field K] in
/-- The second axis of the packed grid is the KV heads. -/
theorem numHeads_div (hgroups : 0 < call.numKvGroups) :
    call.numHeads / call.numKvGroups = call.numKvHeads := by
  have hmul : call.numKvHeads * call.numKvGroups = call.numHeads :=
    Nat.mul_div_cancel' call.grouped
  rw [← hmul, Nat.mul_div_cancel _ hgroups]

/-- The values may be addressed as the keys are. -/
theorem Promised.value_eq (hpromised : call.Promised) (b h n d : Nat) :
    call.value b h n d = call.caches.value call.vScale
      (call.kStrides.offset (call.rowOf b n) (h / call.numKvGroups) d) := by
  rw [value, hpromised.sameLayout]

end DecodeCall

namespace DecodeCall

variable [LinearOrder K] [Exponential K]

theorem numBlocks_eq {blockN : Nat} (hblock : 0 < blockN) (startIndex endIndex : Nat) :
    numBlocks blockN startIndex endIndex = numTiles (endIndex - startIndex) blockN := by
  unfold numBlocks
  split
  · next h =>
    rw [Nat.sub_eq_zero_of_le h, numTiles, Nat.zero_add, Nat.div_eq_of_lt (by omega)]
  · rfl

variable (call : DecodeCall K) {blockSeq : Nat}

/-- What the positions of one partition weigh. -/
def part (blockSeq b h p : Nat) : Total K :=
  ∑ j ∈ Finset.range blockSeq with p * blockSeq + j < call.bSeqLen b,
    call.position b h (p * blockSeq + j)

theorem sum_parts (hseq : 0 < blockSeq) (b h : Nat) :
    ∑ p ∈ Finset.range (numTiles (call.bSeqLen b) blockSeq), call.part blockSeq b h p =
      call.history b h :=
  sum_masked_tiles (call.bSeqLen b) hseq (call.position b h)

theorem history_fst (b h : Nat) : (call.history b h).1 =
    ∑ n ∈ Finset.range (call.bSeqLen b), (call.position b h n).1 :=
  Total.sum_fst _ _

theorem history_snd (b h d : Nat) : (call.history b h).2 d =
    ∑ n ∈ Finset.range (call.bSeqLen b), (call.position b h n).2 d :=
  Total.sum_snd _ _ d

/-- A partition by its bounds. -/
theorem part_eq (blockSeq b h p : Nat) :
    call.part blockSeq b h p =
      ∑ j ∈ Finset.range (call.partitionEnd blockSeq b p - p * blockSeq),
        call.position b h (p * blockSeq + j) := by
  refine Finset.sum_congr (Finset.ext fun j => ?_) fun _ _ => rfl
  rw [Finset.mem_filter, Finset.mem_range, Finset.mem_range, partitionEnd]
  omega

/-- What a program stores of a state that stands for something. -/
theorem partial_of_stands {st : SoftmaxState K} {total : Total K} (h : st.Stands total)
    (hpos : 0 < total.1) :
    (⟨fun d => st.acc d / st.d, st.m + log st.d⟩ : Partial K) = .of total :=
  Partial.ext (funext (h.softmax hpos)) (h.lse hpos)

variable [IsStrictOrderedRing K]

theorem history_pos {b : Nat} (h : Nat) (hlen : call.bSeqLen b ≠ 0) :
    0 < (call.history b h).1 :=
  Total.sum_pos ⟨0, Finset.mem_range.mpr (Nat.pos_of_ne_zero hlen)⟩

theorem of_history (b h : Nat) : Partial.of (call.history b h) = call.softmaxRow b h := by
  unfold softmaxRow
  dsimp only
  split
  · next hlen =>
    rw [history, hlen]
    exact Partial.ext (funext Total.softmax_zero) Total.lse_zero
  · next hlen =>
    have hpos := call.history_pos h hlen
    refine Partial.ext (funext fun d => ?_) ?_
    · change (call.history b h).softmax d = _
      rw [Total.softmax_pos hpos, history_fst, history_snd]
      rfl
    · change (call.history b h).lse = _
      rw [Total.lse_pos hpos, history_fst]
      rfl

theorem part_pos (h : Nat) {b p : Nat} (hseq : 0 < blockSeq)
    (hp : p * blockSeq < call.bSeqLen b) : 0 < (call.part blockSeq b h p).1 :=
  Total.sum_pos ⟨0, Finset.mem_filter.mpr ⟨Finset.mem_range.mpr hseq, hp⟩⟩

/-! ### Stage 1 -/

/-- A loop over a partition stands for what its positions weigh. -/
theorem walk_stands {blockN endIndex : Nat} {qk : Nat → Bool → K}
    {v : Nat → Bool → Nat → K} (startIndex : Nat) (score : Nat → K) (value : Nat → Nat → K) (hblock : 0 < blockN)
    (hqk : ∀ n < endIndex, qk n true = score n) (hv : ∀ n < endIndex, v n true = value n) :
    (walk blockN startIndex endIndex qk v).Stands
      (∑ j ∈ Finset.range (endIndex - startIndex),
        Total.weigh (score (startIndex + j)) (value (startIndex + j))) := by
  have hparts := sum_masked_tiles (endIndex - startIndex) hblock fun j =>
    Total.weigh (score (startIndex + j)) (value (startIndex + j))
  rw [walk, numBlocks_eq hblock, ← hparts, ← zero_add (∑ _ ∈ _, _)]
  refine SoftmaxState.stands_init.foldl (fun startN =>
    ∑ j ∈ Finset.range blockN with startN * blockN + j < endIndex - startIndex,
      Total.weigh (score (startIndex + (startN * blockN + j)))
        (value (startIndex + (startN * blockN + j)))) fun startN hstart st total hst => ?_
  have hlt := tile_start_lt hblock (List.mem_range.mp hstart)
  have hlive : ∀ j, startIndex + j + startN * blockN < endIndex ↔
      startN * blockN + j < endIndex - startIndex := fun j => by omega
  have hpos : ∀ j, startIndex + (startN * blockN + j) = startIndex + j + startN * blockN :=
    fun j => by omega
  have hlanes : ∀ j ∈ (Finset.range blockN).filter (startN * blockN + · < endIndex - startIndex),
      Total.weigh (score (startIndex + (startN * blockN + j)))
          (value (startIndex + (startN * blockN + j))) =
        Total.weigh (qk (startIndex + j + startN * blockN) true)
          (v (startIndex + j + startN * blockN)
            (decide (startIndex + j + startN * blockN < endIndex))) := fun j hj => by
    have hin := (hlive j).mpr (Finset.mem_filter.mp hj).2
    rw [hpos, decide_eq_true hin, hqk _ hin, hv _ hin]
  rw [Finset.sum_congr rfl hlanes]
  refine hst.tile _ (Finset.filter_subset _ _)
    (.inl ⟨0, Finset.mem_filter.mpr ⟨Finset.mem_range.mpr hblock, hlt⟩⟩) (fun j hj => ?_)
    fun j _ d => rfl
  by_cases hin : startIndex + j + startN * blockN < endIndex
  · rw [if_pos (Finset.mem_filter.mpr ⟨Finset.mem_range.mpr hj, (hlive j).mp hin⟩)]
    simp [hin]
  · have hout : j ∉ (Finset.range blockN).filter
        (startN * blockN + · < endIndex - startIndex) :=
      fun hmem => hin ((hlive j).mpr (Finset.mem_filter.mp hmem).2)
    rw [if_neg hout]
    simp [hin]

/-- The same where the values are scaled at the end. -/
theorem partial_of_walk {blockN startIndex endIndex : Nat} {qk : Nat → Bool → K}
    {v : Nat → Bool → Nat → K} (score : Nat → K) (value : Nat → Nat → K) (hblock : 0 < blockN)
    (hlt : startIndex < endIndex) (hqk : ∀ n < endIndex, qk n true = score n) (c : K)
    (hv : ∀ n < endIndex, ∀ d, v n true d * c = value n d) :
    (⟨fun d => (walk blockN startIndex endIndex qk v).acc d * num c /
        (walk blockN startIndex endIndex qk v).d,
      (walk blockN startIndex endIndex qk v).m +
        log (walk blockN startIndex endIndex qk v).d⟩ : Partial K) =
      .of (∑ j ∈ Finset.range (endIndex - startIndex),
        Total.weigh (score (startIndex + j)) (value (startIndex + j))) := by
  have hst := walk_stands startIndex score (fun n => v n true) hblock hqk fun _ _ => rfl
  have hscale := Total.scale_sum (Finset.range (endIndex - startIndex))
    (fun j => score (startIndex + j)) (fun j => v (startIndex + j) true) c
  have hvalues : ∀ j ∈ Finset.range (endIndex - startIndex),
      Total.weigh (score (startIndex + j)) (fun d => v (startIndex + j) true d * c) =
        Total.weigh (score (startIndex + j)) (value (startIndex + j)) := fun j hj => by
    have hj := Finset.mem_range.mp hj
    rw [funext (hv (startIndex + j) (by omega))]
  rw [Finset.sum_congr rfl hvalues] at hscale
  rw [← hscale]
  exact partial_of_stands (hst.scale c)
    (Total.sum_pos ⟨0, Finset.mem_range.mpr (Nat.sub_pos_of_lt hlt)⟩)

variable {call}

/-- The per-head kernel stores the softmax of the partition, if there is anything in it. -/
theorem stage1Program_eq (hpromised : call.Promised) (hseq : 0 < blockSeq) (b h p : Nat) :
    call.stage1Program blockSeq (call.caches.kernelScale call.kScale) (call.caches.kernelScale call.vScale)
        (b, h, p) =
      if p * blockSeq < call.bSeqLen b then
        [((b, h, p), some (.of (call.part blockSeq b h p)))] else [] := by
  unfold stage1Program
  dsimp only
  by_cases hin : p * blockSeq < call.bSeqLen b
  · have hblocks := mt (call.numBlocks_eq_zero_iff (by decide : 0 < 16) b p hseq).mp
      (not_not.mpr hin)
    rw [if_neg hblocks, if_pos hin]
    refine congrArg (fun cell => [((b, h, p), some cell)])
      (partial_of_stands ?_ (call.part_pos h hseq hin))
    rw [part_eq]
    refine walk_stands _ (call.score b h) (call.value b h) (by decide) (fun n _ => ?_) fun n _ =>
      funext fun d => (KvCaches.widened_value _ _ _).trans (hpromised.value_eq b h n d).symm
    rw [mul_comm]
    exact congrArg (call.qkScale * ·) (Finset.sum_congr rfl fun d _ =>
      congrArg (call.q b h d * ·) (KvCaches.widened_key _ _ _))
  · rw [if_pos ((call.numBlocks_eq_zero_iff (by decide) b p hseq).mpr hin), if_neg hin]

/-- The packed kernel stores the same for every head of the group. -/
theorem packedStage1Program_eq (hpromised : call.Promised) (hseq : 0 < blockSeq) (b kv p : Nat) :
    call.packedStage1Program blockSeq (call.caches.kernelScale call.kScale)
        (call.caches.kernelScale call.vScale) call.numKvGroups (b, kv, p) =
      if p * blockSeq < call.bSeqLen b then
        (List.range 16).filterMap fun m => if m < call.numKvGroups then
          some ((b, kv * call.numKvGroups + m, p),
            some (.of (call.part blockSeq b (kv * call.numKvGroups + m) p))) else none
      else [] := by
  unfold packedStage1Program
  dsimp only
  by_cases hin : p * blockSeq < call.bSeqLen b
  · have hblocks := mt (call.numBlocks_eq_zero_iff (by decide : 0 < 64) b p hseq).mp
      (not_not.mpr hin)
    rw [if_neg hblocks, if_pos hin]
    refine congrArg (fun f => List.filterMap f (List.range 16)) (funext fun m => ?_)
    by_cases hm : m < call.numKvGroups
    · -- the head of the row is one of the group's, and the group reads one KV head
      have hhead : (kv * call.numKvGroups + m) / call.numKvGroups = kv := (div_mod_of_lt hm).1
      generalize hh : kv * call.numKvGroups + m = h at hhead ⊢
      have hlt : p * blockSeq < call.partitionEnd blockSeq b p := lt_min hin (by omega)
      rw [if_pos hm, if_pos hm, part_eq]
      refine congrArg (fun cell => some ((b, h, p), some cell))
        (partial_of_walk (call.score b h) (call.value b h) (by decide) hlt (fun n _ => ?_) _
          fun n _ d => ?_)
      · simp only [hm, if_true]
        rw [score, Finset.sum_mul, Finset.mul_sum]
        refine Finset.sum_congr rfl fun d _ => ?_
        rw [key, hhead, ← KvCaches.scaled_key _ fun hfp8 => (hpromised.unscaled hfp8).1]
        simp only [kLoc, rowOf, if_true]
        ring
      · rw [hpromised.value_eq, hhead,
          ← KvCaches.scaled_value _ fun hfp8 => (hpromised.unscaled hfp8).2, hpromised.sameLayout]
        rfl
    · rw [if_neg hm, if_neg hm]
  · rw [if_pos ((call.numBlocks_eq_zero_iff (by decide) b p hseq).mpr hin), if_neg hin]

/-- A slot whose partition has a position in it was stored to, whichever kernel ran. -/
theorem Stage1.stored (hpromised : call.Promised) (hseq : 0 < blockSeq) {packed : Bool}
    (hpacked : packed = true → 0 < call.numKvGroups ∧ call.numKvGroups ≤ 16)
    {mid : Buffer (Nat × Nat × Nat) K}
    (hmid : call.Stage1 blockSeq (call.caches.kernelScale call.kScale) (call.caches.kernelScale call.vScale)
      packed mid) {b h p : Nat} (hb : b < call.batchs) (hh : h < call.numHeads)
    (hp : p * blockSeq < call.bSeqLen b) :
    mid (b, h, p) = some (.of (call.part blockSeq b h p)) := by
  have hgrid : p < numTiles call.maxActualSeqLen blockSeq := by
    have hlt := lt_numTiles hseq (hp.trans_le (hpromised.bounded b hb))
    rwa [Nat.mul_div_cancel _ hseq] at hlt
  unfold Stage1 at hmid
  dsimp only at hmid
  cases packed with
  | false =>
    refine hmid.stored (List.mem_flatMap.mpr ⟨(b, h, p), mem_grid.mpr ⟨hb, hh, hgrid⟩, ?_⟩)
      fun other hother => ?_
    · rw [stage1Program_eq hpromised hseq, if_pos hp]
      exact List.mem_singleton_self _
    · obtain ⟨⟨b', h', p'⟩, -, hstore⟩ := List.mem_flatMap.mp hother
      rw [stage1Program_eq hpromised hseq] at hstore
      split at hstore
      · cases List.mem_singleton.mp hstore
        rfl
      · cases hstore
  | true =>
    obtain ⟨hgroups, hrows⟩ := hpacked rfl
    refine hmid.stored (List.mem_flatMap.mpr ⟨(b, h / call.numKvGroups, p),
      mem_grid.mpr ⟨hb, (numHeads_div hgroups).symm ▸ kvHead_lt hh, hgrid⟩, ?_⟩) fun other hother => ?_
    · rw [packedStage1Program_eq hpromised hseq, if_pos hp]
      have hrow := Nat.mod_lt h hgroups
      refine List.mem_filterMap.mpr ⟨h % call.numKvGroups,
        List.mem_range.mpr (hrow.trans_le hrows), ?_⟩
      rw [if_pos hrow, Nat.div_add_mod']
    · obtain ⟨⟨b', kv, p'⟩, -, hstore⟩ := List.mem_flatMap.mp hother
      rw [packedStage1Program_eq hpromised hseq] at hstore
      split at hstore
      · obtain ⟨m, -, hstore⟩ := List.mem_filterMap.mp hstore
        split at hstore
        · cases Option.some.inj hstore
          rfl
        · cases hstore
      · cases hstore

/-! ### Stage 2 -/

/-- Stage 2 loads no slot that was not stored to, and finds the softmax of the whole row. -/
theorem stage2Program_eq (hseq : 0 < blockSeq) {mid : Buffer (Nat × Nat × Nat) K} {b h : Nat}
    (hmid : ∀ p, p * blockSeq < call.bSeqLen b →
      mid (b, h, p) = some (.of (call.part blockSeq b h p))) :
    call.stage2Program blockSeq mid (b, h) = some [((b, h), some (call.softmaxRow b h))] := by
  have hcells : (List.range (numTiles (call.bSeqLen b) blockSeq)).mapM (fun p => mid (b, h, p)) =
      some ((List.range (numTiles (call.bSeqLen b) blockSeq)).map fun p =>
        .of (call.part blockSeq b h p)) := mapM_cells fun p hp =>
    hmid p (tile_start_lt hseq (List.mem_range.mp hp))
  have hst : ((List.range (numTiles (call.bSeqLen b) blockSeq)).foldl
      (fun (st : SoftmaxState K) p =>
        st.absorb (call.part blockSeq b h p).lse (call.part blockSeq b h p).softmax) .init).Stands
        (0 + ((List.range (numTiles (call.bSeqLen b) blockSeq)).map
          (call.part blockSeq b h)).sum) :=
    SoftmaxState.stands_init.foldl (call.part blockSeq b h) fun p hp st total hst =>
      hst.absorb (call.part_pos h hseq (tile_start_lt hseq (List.mem_range.mp hp)))
  rw [zero_add] at hst
  change SoftmaxState.Stands _ (∑ p ∈ Finset.range _, _) at hst
  rw [call.sum_parts hseq] at hst
  unfold stage2Program
  dsimp only
  rw [hcells, Option.bind_eq_bind, Option.bind_some, List.foldl_map]
  refine congrArg (fun cell => some [((b, h), some cell)]) ?_
  rw [← of_history]
  refine Partial.ext (funext fun d => ?_) ?_
  · exact hst.finish_out d
  · exact hst.finish_lse

/-! ### The whole call -/

/-- What a call of `flash_decoding` may return. -/
def Returns (call : DecodeCall K) (env : DecodeEnv) (result : Nat → Nat → Partial K) : Prop :=
  ∃ outcomes, call.flashDecoding env = .ok outcomes ∧ ∃ out, outcomes out ∧
    ∀ b < call.batchs, ∀ h < call.numHeads, out (b, h) = some (result b h)

/-- Stage 2 is defined on whatever stage 1 leaves. -/
theorem stage2_defined (hpromised : call.Promised) (env : DecodeEnv)
    {mid : Buffer (Nat × Nat × Nat) K}
    (hmid : call.Stage1 (call.partitionSize env) (call.caches.kernelScale call.kScale)
      (call.caches.kernelScale call.vScale) (call.packed env) mid) {b h : Nat} (hb : b < call.batchs)
    (hh : h < call.numHeads) :
    call.stage2Program (call.partitionSize env) mid (b, h) =
      some [((b, h), some (call.softmaxRow b h))] := by
  have hseq := (env.resolvePartitionSize_spec call.batchs
    (if call.packed env then call.numKvHeads else call.numHeads) call.maxActualSeqLen).1
  exact stage2Program_eq hseq fun p hp =>
    hmid.stored hpromised hseq (fun hpacked => packed_spec hpacked) hb hh hp

/-- What stage 2 may leave is the softmax of every row and head. -/
theorem Stage2.softmax (hpromised : call.Promised) (env : DecodeEnv)
    {mid : Buffer (Nat × Nat × Nat) K}
    (hmid : call.Stage1 (call.partitionSize env) (call.caches.kernelScale call.kScale)
      (call.caches.kernelScale call.vScale) (call.packed env) mid) {out : Buffer (Nat × Nat) K}
    (hout : call.Stage2 (call.partitionSize env) mid out) {b h : Nat} (hb : b < call.batchs)
    (hh : h < call.numHeads) : out (b, h) = some (call.softmaxRow b h) := by
  have hdef := hout.outcome (fun pid => [(pid, some (call.softmaxRow pid.1 pid.2))])
    fun pid hpid => by
      obtain ⟨hb, hh⟩ := List.pair_mem_product.mp hpid
      exact stage2_defined hpromised env hmid (List.mem_range.mp hb) (List.mem_range.mp hh)
  refine hdef.stored (List.mem_flatMap.mpr ⟨(b, h), ?_, List.mem_singleton_self _⟩)
    fun other hother => ?_
  · exact List.pair_mem_product.mpr ⟨List.mem_range.mpr hb, List.mem_range.mpr hh⟩
  · obtain ⟨pid, -, hstore⟩ := List.mem_flatMap.mp hother
    cases List.mem_singleton.mp hstore
    rfl

/-- A call returns, and what it returns is the softmax of every row and head. -/
theorem flashDecoding_softmax (hpromised : call.Promised) (env : DecodeEnv) :
    ∃ outcomes, call.flashDecoding env = .ok outcomes ∧ (∃ out, outcomes out) ∧
      ∀ out, outcomes out → ∀ b < call.batchs, ∀ h < call.numHeads,
        out (b, h) = some (call.softmaxRow b h) := by
  unfold flashDecoding
  by_cases hmax : call.maxActualSeqLen = 0
  · rw [if_pos hmax]
    refine ⟨_, rfl, ⟨_, rfl⟩, fun out hout b hb h _ => ?_⟩
    have hlen : call.bSeqLen b = 0 := Nat.le_zero.mp (hmax ▸ hpromised.bounded b hb)
    rw [hout, softmaxRow]
    dsimp only
    rw [if_pos hlen]
  · have hsize := (env.resolvePartitionSize_spec call.batchs
      (if call.packed env then call.numKvHeads else call.numHeads) call.maxActualSeqLen).2
    rw [if_neg hmax, if_neg fun h => h.2 hsize]
    refine ⟨_, rfl, ?_, fun out hout b hb h hh => ?_⟩
    · obtain ⟨out, hout⟩ := ran_exists ((List.range call.batchs).product (List.range call.numHeads))
        (call.stage2Program (call.partitionSize env) _) fun _ => none
      exact ⟨out, _, outcome_exists _ _, hout⟩
    · obtain ⟨mid, hmid, hout⟩ := hout
      exact hout.softmax hpromised env hmid hb hh

theorem Promised.returns (hpromised : call.Promised) (env : DecodeEnv) :
    call.Returns env call.softmaxRow := by
  obtain ⟨outcomes, hcall, ⟨out, hout⟩, hall⟩ := flashDecoding_softmax hpromised env
  exact ⟨outcomes, hcall, out, hout, hall out hout⟩

/-- The returned values are no others. -/
theorem Returns.eq {env : DecodeEnv} {result : Nat → Nat → Partial K}
    (h : call.Returns env result) (hpromised : call.Promised) {b : Nat} (hb : b < call.batchs)
    {head : Nat} (hh : head < call.numHeads) : result b head = call.softmaxRow b head := by
  obtain ⟨outcomes, hcall, out, hout, hresult⟩ := h
  obtain ⟨outcomes', hcall', -, hall⟩ := flashDecoding_softmax hpromised env
  rw [hcall] at hcall'
  cases hcall'
  exact Option.some.inj ((hresult b hb head hh).symm.trans (hall out hout b hb head hh))

end DecodeCall

end RapidLlm
