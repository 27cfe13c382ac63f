import Mathlib.Analysis.SpecialFunctions.Log.Base
import Mathlib.Data.List.GetD
import RapidLlm.Kernels.FlashDecodingExact
import RapidLlm.Kernels.FlashPrefill

/-!
# RapidLlm.Kernels.FlashPrefillExact

**One causal softmax, by whatever route a row is prefilled.** Row `m` of a chunk that follows `p`
cached positions is the softmax-weighted sum over positions `0 .. p + m` of its own sequence:
from `flash_attention2_no_pad` and from `prefill_attention`, where `p = 0`, and from
`flash_attention2_chunked`. A padded grid is no obstacle, since a real row never reaches the
padding after it (`causalWalk_stands`), and neither is FlashInfer's accident: a segment of its
plan starts where a sequence does (`Serves.indptr`).

What a row comes to depends on its sequence and its position only, and so a prompt may be fed in
any sequence of chunks (`prefill_routes_agree`).
-/

namespace RapidLlm

open Floating Tiling

variable {K : Type*} [Field K] [LinearOrder K] [Exponential K]

/-! ### What a row should be -/

/-- The queries, keys and values of a sequence by position, head and lane. -/
structure Prompt (K : Type*) where
  q : Nat → Nat → Nat → K
  key : Nat → Nat → Nat → K
  value : Nat → Nat → Nat → K

namespace Prompt

/-- The score of position `n` for the query at position `o`, on the query head's own KV head. -/
def score (prompt : Prompt K) (heads : HeadGeometry) (smScale : K) (h o n : Nat) : K :=
  smScale * ∑ d ∈ Finset.range heads.headDim,
    prompt.q o h d * prompt.key n (h / (heads.numHeads / heads.numKvHeads)) d

/-- Causal attention: the softmax-weighted sum over positions `0 .. o`. -/
def row (prompt : Prompt K) (heads : HeadGeometry) (smScale log2e : K) (h o d : Nat) : K :=
  (∑ n ∈ Finset.range (o + 1), naturalExp log2e (prompt.score heads smScale h o n) *
      prompt.value n (h / (heads.numHeads / heads.numKvHeads)) d) /
    ∑ n ∈ Finset.range (o + 1), naturalExp log2e (prompt.score heads smScale h o n)

/-- What positions `0 .. o` weigh for the query at `o`. -/
def upTo (prompt : Prompt K) (heads : HeadGeometry) (smScale log2e : K) (h o : Nat) : Total K :=
  ∑ n ∈ Finset.range (o + 1), .weigh (prompt.score heads smScale h o n * log2e)
    (prompt.value n (h / (heads.numHeads / heads.numKvHeads)))

variable [IsStrictOrderedRing K]

theorem softmax_upTo (prompt : Prompt K) (heads : HeadGeometry) (smScale log2e : K)
    (h o d : Nat) : (prompt.upTo heads smScale log2e h o).softmax d =
      num (prompt.row heads smScale log2e h o d) := by
  have hpos : 0 < (prompt.upTo heads smScale log2e h o).1 :=
    Total.sum_pos ⟨0, Finset.mem_range.mpr o.succ_pos⟩
  rw [Total.softmax_pos hpos, upTo, Total.sum_fst, Total.sum_snd]
  rfl

omit [IsStrictOrderedRing K] in
/-- A row reads the lanes of the heads of its own sequence, up to its position. -/
theorem row_congr {prompt other : Prompt K} {heads : HeadGeometry} {smScale log2e : K}
    {h o d : Nat} (hh : h < heads.numHeads) (hd : d < heads.headDim)
    (hq : ∀ d < heads.headDim, prompt.q o h d = other.q o h d)
    (hkey : ∀ n ≤ o, ∀ kv < heads.numKvHeads, ∀ d < heads.headDim,
      prompt.key n kv d = other.key n kv d)
    (hvalue : ∀ n ≤ o, ∀ kv < heads.numKvHeads, ∀ d < heads.headDim,
      prompt.value n kv d = other.value n kv d) :
    prompt.row heads smScale log2e h o d = other.row heads smScale log2e h o d := by
  have hkv : h / (heads.numHeads / heads.numKvHeads) < heads.numKvHeads := heads.kvHead_lt hh
  have hscore : ∀ n ∈ Finset.range (o + 1),
      prompt.score heads smScale h o n = other.score heads smScale h o n := fun n hn => by
    refine congrArg (smScale * ·) (Finset.sum_congr rfl fun d hd => ?_)
    have hd := Finset.mem_range.mp hd
    rw [hq d hd, hkey n (Nat.lt_succ_iff.mp (Finset.mem_range.mp hn)) _ hkv d hd]
  refine congrArg₂ (· / ·) (Finset.sum_congr rfl fun n hn => ?_)
    (Finset.sum_congr rfl fun n hn => ?_)
  · rw [hscore n hn, hvalue n (Nat.lt_succ_iff.mp (Finset.mem_range.mp hn)) _ hkv d hd]
  · rw [hscore n hn]

end Prompt

/-! ### The loop -/

section Walk

variable [IsStrictOrderedRing K]

/-- The loop of a real row: every position it may see is under the mask, whatever else is. -/
theorem causalWalk_stands {blockN stop maskEnd position : Nat} (qk : Nat → Bool → K)
    (v : Nat → Bool → Nat → K) (score : Nat → K) (value : Nat → Nat → K) (hblock : 0 < blockN)
    (hstop : position < stop) (hmask : position < maskEnd)
    (hqk : ∀ n ≤ position, qk n true = score n) (hv : ∀ n ≤ position, v n true = value n) :
    (causalWalk blockN stop maskEnd position qk v).Stands
      (∑ n ∈ Finset.range (position + 1), Total.weigh (score n) (value n)) := by
  have hcover : position + 1 ≤ numTiles stop blockN * blockN :=
    hstop.trans_le (le_numTiles_mul stop hblock)
  rw [causalWalk, ← sum_masked hcover]
  refine SoftmaxState.Stands.foldl_range (fun tile =>
    ∑ j ∈ Finset.range blockN with tile * blockN + j < position + 1,
      Total.weigh (score (tile * blockN + j)) (value (tile * blockN + j)))
    (fun tile => Total.proper_sum _ _ _)
    (Total.sum_pos ⟨0, Finset.mem_filter.mpr ⟨Finset.mem_range.mpr hblock, by omega⟩⟩)
    fun tile _ st total hst hfirst => ?_
  have hlanes : ∀ j ∈ (Finset.range blockN).filter (tile * blockN + · < position + 1),
      Total.weigh (score (tile * blockN + j)) (value (tile * blockN + j)) =
        Total.weigh (qk (tile * blockN + j) (decide (tile * blockN + j < maskEnd)))
          (v (tile * blockN + j) (decide (tile * blockN + j < maskEnd))) := fun j hj => by
    have hle := Nat.lt_succ_iff.mp (Finset.mem_filter.mp hj).2
    rw [decide_eq_true (hle.trans_lt hmask), hqk _ hle, hv _ hle]
  rw [Finset.sum_congr rfl hlanes]
  refine hst.tile _ (Finset.filter_subset _ _) ?_ (fun j hj => ?_) fun j _ d => rfl
  · -- the first tile has position 0 in it; a later one may be masked as a whole
    rcases hfirst with rfl | hpos
    · exact .inl ⟨0, Finset.mem_filter.mpr ⟨Finset.mem_range.mpr hblock, by omega⟩⟩
    · exact .inr hpos
  · by_cases hle : tile * blockN + j ≤ position
    · rw [if_pos hle, if_pos (Finset.mem_filter.mpr ⟨Finset.mem_range.mpr hj,
        Nat.lt_succ_of_le hle⟩)]
    · have hout : j ∉ (Finset.range blockN).filter (tile * blockN + · < position + 1) :=
        fun hmem => hle (Nat.lt_succ_iff.mp (Finset.mem_filter.mp hmem).2)
      rw [if_neg hle, if_neg hout]

end Walk

/-! ### Where the rows go -/

theorem place_inj {width i i' o o' : Nat} (ho : o < width) (ho' : o' < width)
    (h : i * width + o = i' * width + o') : i = i' ∧ o = o' := by
  obtain ⟨hdiv, hmod⟩ := div_mod_of_lt (q := i) ho
  rw [h, (div_mod_of_lt ho').1] at hdiv
  rw [h, (div_mod_of_lt ho').2] at hmod
  exact ⟨hdiv.symm, hmod.symm⟩

/-- A launch whose programs store the rows of their query block, of the sequence and head they
are for, leaves every real row of every sequence. -/
theorem outcome_rows {A : Type*} {maxLen blockM batchs heads width : Nat} {len : Nat → Nat}
    (cell : Nat → Nat → Nat → A) {program : Nat × Nat → List ((Nat × Nat) × Option A)}
    {out : Nat × Nat → Option A} (hblock : 0 < blockM) (hfit : ∀ i < batchs, len i ≤ width)
    (hmax : ∀ i < batchs, len i ≤ maxLen)
    (hprogram : ∀ block, ∀ i < batchs, ∀ h < heads, program (block, i * heads + h) =
      (List.range blockM).filterMap fun m =>
        if block * blockM + m < len i then
          some ((i * width + (block * blockM + m), h), some (cell i h (block * blockM + m)))
        else none)
    (hout : Outcome ((prefillGrid maxLen blockM batchs heads).flatMap program) (fun _ => none) out)
    {i h o : Nat} (hi : i < batchs) (hh : h < heads) (ho : o < len i) :
    out (i * width + o, h) = some (cell i h o) := by
  have hsplit : o / blockM * blockM + o % blockM = o := Nat.div_add_mod' o blockM
  refine hout.stored (List.mem_flatMap.mpr ⟨(o / blockM, i * heads + h), ?_, ?_⟩)
    fun other hother => ?_
  · refine List.pair_mem_product.mpr ⟨List.mem_range.mpr
      (lt_numTiles hblock (ho.trans_le (hmax i hi))), List.mem_range.mpr ?_⟩
    have hle := Nat.mul_le_mul_right heads (Nat.succ_le_of_lt hi)
    rw [Nat.succ_mul] at hle
    omega
  · rw [hprogram _ i hi h hh]
    refine List.mem_filterMap.mpr ⟨o % blockM, List.mem_range.mpr (Nat.mod_lt o hblock), ?_⟩
    rw [hsplit, if_pos ho]
  · obtain ⟨⟨block, bh⟩, hpid, hstore⟩ := List.mem_flatMap.mp hother
    have hbh : bh < batchs * heads := List.mem_range.mp (List.pair_mem_product.mp hpid).2
    have hpos : 0 < heads := Nat.zero_lt_of_lt hh
    have hi' : bh / heads < batchs := Nat.div_lt_of_lt_mul (by rwa [Nat.mul_comm])
    have hh' := Nat.mod_lt bh hpos
    rw [← Nat.div_add_mod' bh heads, hprogram _ _ hi' _ hh'] at hstore
    obtain ⟨m, -, hstore⟩ := List.mem_filterMap.mp hstore
    split at hstore
    · next ho' =>
      have heq := Option.some.inj hstore
      have hplace := congrArg (fun store => store.1.1) heq
      have hhead : bh % heads = h := congrArg (fun store => store.1.2) heq
      obtain ⟨hseq, hrow⟩ := place_inj (ho'.trans_le (hfit _ hi')) (ho.trans_le (hfit i hi)) hplace
      rw [hseq, hrow, hhead] at heq
      exact (congrArg Prod.snd heq).symm
    · cases hstore

/-! ### The routes -/

/-- Row `r` of an output holds, on the lanes of head `h`, the numbers of `row`. -/
def HoldsRow (out : OutputRows K) (headDim r h : Nat) (row : Nat → K) : Prop :=
  ∃ lanes, out (r, h) = some lanes ∧ ∀ d < headDim, lanes d = num (row d)

omit [Field K] [LinearOrder K] [Exponential K] in
theorem HoldsRow.lanes {out : OutputRows K} {headDim r h d : Nat} {row : Nat → K}
    (hholds : HoldsRow out headDim r h row) {lanes : Nat → Floating K}
    (hread : out (r, h) = some lanes) (hd : d < headDim) : lanes d = num (row d) := by
  obtain ⟨lanes', hlanes, hvalues⟩ := hholds
  rw [Option.some.inj (hread.symm.trans hlanes), hvalues d hd]

/-- A grid of first chunks: row `i * width + o` is position `o` of sequence `i`. -/
structure PrefillCall.Serves (call : PrefillCall K) (width : Nat) (chunk : Nat → Nat)
    (prompt : Nat → Prompt K) : Prop where
  totalQ : call.totalQ = call.batchs * width
  startLoc : ∀ i < call.batchs, call.bStartLoc i = i * width
  seqLen : ∀ i < call.batchs, call.bSeqLen i = chunk i
  fits : ∀ i < call.batchs, chunk i ≤ width
  longest : ∀ i < call.batchs, chunk i ≤ call.maxSeqLen
  q : ∀ i < call.batchs, ∀ o < chunk i, ∀ h < call.numHeads, ∀ d < call.headDim,
    call.q (i * width + o) h d = (prompt i).q o h d
  key : ∀ i < call.batchs, ∀ n < chunk i, ∀ kv < call.numKvHeads, ∀ d < call.headDim,
    call.k (i * width + n) kv d = (prompt i).key n kv d
  value : ∀ i < call.batchs, ∀ n < chunk i, ∀ kv < call.numKvHeads, ∀ d < call.headDim,
    call.v (i * width + n) kv d = (prompt i).value n kv d

/-- A grid of resumed chunks: row `i * width + m` is position `prefix i + m` of sequence `i`, and
the cache holds the whole sequence from row `b_kv_base`. -/
structure ChunkedCall.Serves (call : ChunkedCall K) (width : Nat) (cached chunk : Nat → Nat)
    (prompt : Nat → Prompt K) : Prop where
  startLoc : ∀ i < call.batchs, call.bStartLoc i = i * width
  prefixLen : ∀ i < call.batchs, call.bPrefixLen i = cached i
  seqLen : ∀ i < call.batchs, call.bSeqLen i = cached i + chunk i
  fits : ∀ i < call.batchs, chunk i ≤ width
  longest : ∀ i < call.batchs, chunk i ≤ call.maxChunkLen
  unscaled : call.caches.kvFp8 = false → call.kScale = 1 ∧ call.vScale = 1
  q : ∀ i < call.batchs, ∀ m < chunk i, ∀ h < call.numHeads, ∀ d < call.headDim,
    call.q (i * width + m) h d = (prompt i).q (cached i + m) h d
  key : ∀ i < call.batchs, ∀ n < cached i + chunk i, ∀ kv < call.numKvHeads,
    ∀ d < call.headDim, call.caches.key call.kScale
      (call.kStrides.offset (call.bKvBase i + n) kv d) = (prompt i).key n kv d
  value : ∀ i < call.batchs, ∀ n < cached i + chunk i, ∀ kv < call.numKvHeads,
    ∀ d < call.headDim, call.caches.value call.vScale
      (call.vStrides.offset (call.bKvBase i + n) kv d) = (prompt i).value n kv d

/-- FlashInfer's promise: a causal plan with a non-decreasing `indptr` attends causally inside each
segment of it. -/
def RaggedCausal (log2e : K) (ragged : RaggedRun K) : Prop :=
  ∀ (heads : HeadGeometry) (plan : RaggedPlan K) q k v, plan.causal = true →
    plan.qoIndptr.Pairwise (· ≤ ·) → plan.kvIndptr = plan.qoIndptr → plan.numQoHeads = heads.numHeads →
    plan.numKvHeads = heads.numKvHeads → plan.headDim = heads.headDim →
    ∀ s o, plan.qoIndptr.getD s 0 + o < plan.qoIndptr.getD (s + 1) 0 → ∀ h < heads.numHeads,
      HoldsRow (ragged plan q k v) heads.headDim (plan.qoIndptr.getD s 0 + o) h
        ((⟨fun o => q (plan.qoIndptr.getD s 0 + o), fun n => k (plan.qoIndptr.getD s 0 + n),
          fun n => v (plan.qoIndptr.getD s 0 + n)⟩ : Prompt K).row heads plan.smScale log2e h o)

section Routes

variable [IsStrictOrderedRing K] {blocks : NopadBlocks K} {width : Nat}
  {prompt : Nat → Prompt K}

namespace PrefillCall

variable {call : PrefillCall K} {chunk : Nat → Nat}

/-- The sequence at row `start`, as the tensors of the call have it. -/
def sequenceAt (call : PrefillCall K) (start : Nat) : Prompt K :=
  ⟨fun o => call.q (start + o), fun n => call.k (start + n), fun n => call.v (start + n)⟩

/-- What a program stores, for a sequence and head of the grid. -/
theorem program_eq (hblock : 0 < blocks.blockN) (block : Nat) {i h : Nat} (hh : h < call.numHeads)
    (hstart : call.bStartLoc i = i * width) (hlen : call.bSeqLen i = chunk i) :
    call.program blocks (block, i * call.numHeads + h) =
      (List.range blocks.blockM).filterMap fun m =>
        if block * blocks.blockM + m < chunk i then
          some ((i * width + (block * blocks.blockM + m), h),
            some ((call.sequenceAt (i * width)).upTo call.toHeadGeometry call.smScale blocks.log2e
              h (block * blocks.blockM + m)).softmax)
        else none := by
  obtain ⟨hi, hhead⟩ := div_mod_of_lt (q := i) hh
  unfold program
  dsimp only
  rw [hi, hhead, hstart, hlen]
  refine List.filterMap_congr fun m hm => ?_
  by_cases hreal : block * blocks.blockM + m < chunk i
  · have hm := List.mem_range.mp hm
    have hend : block * blocks.blockM + m < min (block * blocks.blockM + blocks.blockM) (chunk i) :=
      lt_min (by omega) hreal
    have hmask : block * blocks.blockM < chunk i := by omega
    rw [if_pos hreal, if_pos hreal, if_pos hmask, Nat.one_mul]
    refine congrArg (fun cell => some ((i * width + (block * blocks.blockM + m), h), some cell))
      (funext fun d => ?_)
    refine SoftmaxState.Stands.softmax (causalWalk_stands _ _ _ _ hblock hend hend (fun n _ => ?_)
      fun n _ => rfl) (Total.sum_pos ⟨0, Finset.mem_range.mpr (Nat.succ_pos _)⟩) d
    simp only [hreal, if_true]
    exact (mul_left_comm _ _ _).trans (mul_assoc _ _ _).symm
  · rw [if_neg hreal, if_neg hreal]

omit [IsStrictOrderedRing K] in
/-- The sequence in the call is the prompt, on the lanes that are read. -/
theorem Serves.row_eq (hserves : call.Serves width chunk prompt) {i o h d : Nat}
    (hi : i < call.batchs) (ho : o < chunk i) (hh : h < call.numHeads) (hd : d < call.headDim)
    (log2e : K) :
    (call.sequenceAt (i * width)).row call.toHeadGeometry call.smScale log2e h o d =
      (prompt i).row call.toHeadGeometry call.smScale log2e h o d :=
  Prompt.row_congr hh hd (hserves.q i hi o ho h hh)
    (fun n hn => hserves.key i hi n (hn.trans_lt ho))
    fun n hn => hserves.value i hi n (hn.trans_lt ho)

/-- `flash_attention2_no_pad` leaves causal attention in every real row. -/
theorem Serves.noPad (hserves : call.Serves width chunk prompt) (hblockM : 0 < blocks.blockM)
    (hblockN : 0 < blocks.blockN) {out : OutputRows K}
    (hout : call.FlashAttention2NoPad blocks out) {i o h : Nat} (hi : i < call.batchs)
    (ho : o < chunk i) (hh : h < call.numHeads) :
    HoldsRow out call.headDim (i * width + o) h
      ((prompt i).row call.toHeadGeometry call.smScale blocks.log2e h o) := by
  have hrow := outcome_rows (fun i h o => ((call.sequenceAt (i * width)).upTo call.toHeadGeometry
    call.smScale blocks.log2e h o).softmax) hblockM hserves.fits hserves.longest
    (fun block i hi h hh => program_eq hblockN block hh (hserves.startLoc i hi)
      (hserves.seqLen i hi)) hout hi hh ho
  refine ⟨_, hrow, fun d hd => ?_⟩
  rw [Prompt.softmax_upTo, hserves.row_eq hi ho hh hd]

omit [Field K] [LinearOrder K] [Exponential K] [IsStrictOrderedRing K] in
/-- The plan of a padded grid: where its sequences start, and where the last one ends. -/
theorem Serves.indptr_eq (hserves : call.Serves width chunk prompt) (hbatchs : 0 < call.batchs) :
    call.raggedPlan.qoIndptr = (List.range call.batchs).map (fun i => i * width) ++
      [(call.batchs - 1) * width + chunk (call.batchs - 1)] := by
  have hlast : call.batchs - 1 < call.batchs := Nat.sub_one_lt hbatchs.ne'
  obtain ⟨n, hn⟩ := Nat.exists_eq_succ_of_ne_zero hbatchs.ne'
  have hmap : ((List.range call.batchs).drop 1).map call.bStartLoc =
      ((List.range call.batchs).drop 1).map fun i => i * width :=
    List.map_congr_left fun i hi =>
      hserves.startLoc i (List.mem_range.mp (List.mem_of_mem_drop hi))
  unfold raggedPlan
  dsimp only
  rw [hmap, hserves.startLoc _ hlast, hserves.seqLen _ hlast, hn, List.range_succ_eq_map,
    List.map_cons, Nat.zero_mul]
  rfl

omit [Field K] [LinearOrder K] [Exponential K] [IsStrictOrderedRing K] in
theorem Serves.indptr_sorted (hserves : call.Serves width chunk prompt)
    (hbatchs : 0 < call.batchs) : call.raggedPlan.qoIndptr.Pairwise (· ≤ ·) := by
  rw [hserves.indptr_eq hbatchs, List.pairwise_append]
  refine ⟨?_, List.pairwise_singleton _ _, fun a ha b hb => ?_⟩
  · refine List.pairwise_map.mpr (List.pairwise_lt_range.imp fun h => ?_)
    exact Nat.mul_le_mul_right width h.le
  · obtain ⟨i, hi, rfl⟩ := List.mem_map.mp ha
    rw [List.mem_singleton.mp hb]
    have hle : i ≤ call.batchs - 1 := Nat.le_sub_one_of_lt (List.mem_range.mp hi)
    exact (Nat.mul_le_mul_right width hle).trans (Nat.le_add_right _ _)

omit [Field K] [LinearOrder K] [Exponential K] [IsStrictOrderedRing K] in
/-- A segment of the plan starts where its sequence does, and ends no earlier than it. -/
theorem Serves.indptr (hserves : call.Serves width chunk prompt) {i o : Nat}
    (hi : i < call.batchs) (ho : o < chunk i) :
    call.raggedPlan.qoIndptr.getD i 0 = i * width ∧
      i * width + o < call.raggedPlan.qoIndptr.getD (i + 1) 0 := by
  rw [hserves.indptr_eq (Nat.zero_lt_of_lt hi)]
  have hget : ∀ j < call.batchs, ((List.range call.batchs).map (fun i => i * width) ++
      [(call.batchs - 1) * width + chunk (call.batchs - 1)]).getD j 0 = j * width := fun j hj => by
    rw [List.getD_append _ _ _ _ (by simpa using hj)]
    simp [hj]
  refine ⟨hget i hi, ?_⟩
  have hfit := hserves.fits i hi
  rcases Nat.lt_or_ge (i + 1) call.batchs with hnext | hlast
  · rw [hget _ hnext, Nat.succ_mul]
    omega
  · have heq : call.batchs - 1 = i := by omega
    have hlen : i + 1 = ((List.range call.batchs).map fun i => i * width).length := by
      rw [List.length_map, List.length_range]
      omega
    rw [hlen, List.getD_append_right _ _ _ _ le_rfl, Nat.sub_self, List.getD_cons_zero, heq]
    omega

/-- `prefill_attention` leaves it whichever branch it takes. -/
theorem Serves.prefillAttention (hserves : call.Serves width chunk prompt)
    (hblockM : 0 < blocks.blockM) (hblockN : 0 < blocks.blockN) {ragged : RaggedRun K}
    (hragged : RaggedCausal blocks.log2e ragged) (hbatchs : 0 < call.batchs) :
    ∃ outcomes, call.prefillAttention blocks ragged = .ok outcomes ∧ (∃ out, outcomes out) ∧
      ∀ out, outcomes out → ∀ i < call.batchs, ∀ o < chunk i, ∀ h < call.numHeads,
        HoldsRow out call.headDim (i * width + o) h
          ((prompt i).row call.toHeadGeometry call.smScale blocks.log2e h o) := by
  unfold PrefillCall.prefillAttention
  rw [if_neg hbatchs.ne']
  dsimp only
  split
  · exact ⟨_, rfl, ⟨_, outcome_exists _ _⟩, fun out hout i hi o ho h hh =>
      hserves.noPad hblockM hblockN hout hi ho hh⟩
  · refine ⟨_, rfl, ⟨_, rfl⟩, fun out hout i hi o ho h hh => ?_⟩
    obtain ⟨hstart, hend⟩ := hserves.indptr hi ho
    have hseg := hragged call.toHeadGeometry call.raggedPlan call.q call.k call.v rfl
      (hserves.indptr_sorted hbatchs) rfl rfl rfl rfl i o (by rwa [hstart]) h hh
    rw [hstart] at hseg
    obtain ⟨lanes, hlanes, hvalues⟩ := hseg
    exact ⟨lanes, by rw [hout, hlanes], fun d hd =>
      (hvalues d hd).trans (congrArg num (hserves.row_eq hi ho hh hd blocks.log2e))⟩

end PrefillCall

namespace ChunkedCall

variable {call : ChunkedCall K} {cached chunk : Nat → Nat}

/-- The sequence of a chunk: its queries from the grid, its keys and values from the cache. -/
def sequenceAt (call : ChunkedCall K) (start cached kvBase : Nat) : Prompt K where
  q o := call.q (start + (o - cached))
  key n kv d := call.caches.key call.kScale (call.kStrides.offset (kvBase + n) kv d)
  value n kv d := call.caches.value call.vScale (call.vStrides.offset (kvBase + n) kv d)

/-- What a program stores, for a sequence and head of the grid. -/
theorem program_eq (hblock : 0 < blocks.blockN) (block : Nat) {i h : Nat} (hh : h < call.numHeads)
    (hunscaled : call.caches.kvFp8 = false → call.kScale = 1 ∧ call.vScale = 1)
    (hstart : call.bStartLoc i = i * width) (hcachedLen : call.bPrefixLen i = cached i)
    (hlen : call.bSeqLen i = cached i + chunk i) :
    call.program blocks (block, i * call.numHeads + h) =
      (List.range blocks.blockM).filterMap fun m =>
        if block * blocks.blockM + m < chunk i then
          some ((i * width + (block * blocks.blockM + m), h),
            some ((call.sequenceAt (i * width) (cached i) (call.bKvBase i)).upTo
              call.toHeadGeometry call.smScale blocks.log2e h
              (cached i + (block * blocks.blockM + m))).softmax)
        else none := by
  obtain ⟨hi, hhead⟩ := div_mod_of_lt (q := i) hh
  unfold program
  dsimp only
  rw [hi, hhead, hstart, hcachedLen, hlen, Nat.add_sub_cancel_left]
  refine List.filterMap_congr fun m hm => ?_
  by_cases hreal : block * blocks.blockM + m < chunk i
  · have hm := List.mem_range.mp hm
    have hend : cached i + (block * blocks.blockM + m) <
        cached i + min (block * blocks.blockM + blocks.blockM) (chunk i) :=
      Nat.add_lt_add_left (lt_min (by omega) hreal) _
    have hmask : block * blocks.blockM < chunk i := by omega
    rw [if_pos hreal, if_pos hreal, if_pos hmask, Nat.one_mul]
    refine congrArg (fun cell => some ((i * width + (block * blocks.blockM + m), h), some cell))
      (funext fun d => ?_)
    -- the scale of the values is applied to what the loop accumulated
    have hraw := causalWalk_stands (fun n mask =>
        (∑ d ∈ Finset.range call.headDim,
          (if block * blocks.blockM + m < chunk i then
              call.q (i * width + (block * blocks.blockM + m)) h d else 0) *
            call.caches.loadK mask (call.kStrides.offset (call.bKvBase i + n)
              (h / (call.numHeads / call.numKvHeads)) d)) *
          (call.smScale * blocks.log2e * call.caches.kernelScale call.kScale))
      (fun n mask d => call.caches.loadV mask (call.vStrides.offset (call.bKvBase i + n)
        (h / (call.numHeads / call.numKvHeads)) d))
      (fun n => (call.sequenceAt (i * width) (cached i) (call.bKvBase i)).score
        call.toHeadGeometry call.smScale h (cached i + (block * blocks.blockM + m)) n * blocks.log2e)
      (fun n d => call.caches.loadV true (call.vStrides.offset (call.bKvBase i + n)
        (h / (call.numHeads / call.numKvHeads)) d)) hblock hend hend (fun n _ => ?_)
      fun n _ => rfl
    · have hst := hraw.scale (call.caches.kernelScale call.vScale)
      rw [Total.scale_sum] at hst
      simp only [KvCaches.scaled_value _ fun hfp8 => (hunscaled hfp8).2] at hst
      exact hst.softmax (Total.sum_pos ⟨0, Finset.mem_range.mpr (Nat.succ_pos _)⟩) d
    · simp only [hreal, if_true]
      rw [Prompt.score, Finset.sum_mul, Finset.mul_sum, Finset.sum_mul]
      refine Finset.sum_congr rfl fun d _ => ?_
      change _ = call.smScale * (call.q (i * width +
        (cached i + (block * blocks.blockM + m) - cached i)) h d *
          call.caches.key call.kScale _) * blocks.log2e
      rw [Nat.add_sub_cancel_left, ← KvCaches.scaled_key _ fun hfp8 => (hunscaled hfp8).1]
      ring
  · rw [if_neg hreal, if_neg hreal]

omit [IsStrictOrderedRing K] in
/-- The sequence in the call is the prompt, on the lanes that are read. -/
theorem Serves.row_eq (hserves : call.Serves width cached chunk prompt) {i m h d : Nat}
    (hi : i < call.batchs) (hm : m < chunk i) (hh : h < call.numHeads) (hd : d < call.headDim)
    (log2e : K) :
    (call.sequenceAt (i * width) (cached i) (call.bKvBase i)).row call.toHeadGeometry call.smScale
        log2e h (cached i + m) d =
      (prompt i).row call.toHeadGeometry call.smScale log2e h (cached i + m) d := by
  refine Prompt.row_congr hh hd (fun d hd => ?_) (fun n hn => hserves.key i hi n (by omega))
    fun n hn => hserves.value i hi n (by omega)
  change call.q (i * width + (cached i + m - cached i)) h d = _
  rw [Nat.add_sub_cancel_left]
  exact hserves.q i hi m hm h hh d hd

/-- `flash_attention2_chunked` leaves causal attention in every real row. -/
theorem Serves.chunked (hserves : call.Serves width cached chunk prompt)
    (hblockM : 0 < blocks.blockM) (hblockN : 0 < blocks.blockN) {out : OutputRows K}
    (hout : call.FlashAttention2Chunked blocks out) {i m h : Nat} (hi : i < call.batchs)
    (hm : m < chunk i) (hh : h < call.numHeads) :
    HoldsRow out call.headDim (i * width + m) h
      ((prompt i).row call.toHeadGeometry call.smScale blocks.log2e h (cached i + m)) := by
  have hrow := outcome_rows (fun i h m => ((call.sequenceAt (i * width) (cached i)
      (call.bKvBase i)).upTo call.toHeadGeometry call.smScale blocks.log2e h
      (cached i + m)).softmax) hblockM hserves.fits hserves.longest
    (fun block i hi h hh => program_eq hblockN block hh hserves.unscaled (hserves.startLoc i hi)
      (hserves.prefixLen i hi) (hserves.seqLen i hi)) hout hi hh hm
  refine ⟨_, hrow, fun d hd => ?_⟩
  rw [Prompt.softmax_upTo, hserves.row_eq hi hm hh hd]

end ChunkedCall

/-! ### A prompt in chunks -/

/-- The rows of `chunk` positions after `cached` ones of a prompt, as some pass of some batch left
them in its output, whatever the route. -/
inductive Feeds (heads : HeadGeometry) (smScale log2e : K) (prompt : Prompt K) :
    Nat → Nat → (Nat → Nat → Nat → Floating K) → Prop
  | noPad {call : PrefillCall K} {blocks : NopadBlocks K} {width i : Nat} {chunk : Nat → Nat}
      {prompts : Nat → Prompt K} {out : OutputRows K} {rows : Nat → Nat → Nat → Floating K}
      (geometry : call.toHeadGeometry = heads) (scale : call.smScale = smScale)
      (constant : blocks.log2e = log2e) (tiles : 0 < blocks.blockM ∧ 0 < blocks.blockN)
      (serves : call.Serves width chunk prompts) (ran : call.FlashAttention2NoPad blocks out)
      (sequence : i < call.batchs ∧ prompts i = prompt)
      (read : ∀ o < chunk i, ∀ h < heads.numHeads, out (i * width + o, h) = some (rows o h)) :
      Feeds heads smScale log2e prompt 0 (chunk i) rows
  | flashInfer {call : PrefillCall K} {blocks : NopadBlocks K} {width i : Nat}
      {chunk : Nat → Nat} {prompts : Nat → Prompt K} {ragged : RaggedRun K}
      {outcomes : OutputRows K → Prop} {out : OutputRows K} {rows : Nat → Nat → Nat → Floating K}
      (geometry : call.toHeadGeometry = heads) (scale : call.smScale = smScale)
      (constant : blocks.log2e = log2e) (tiles : 0 < blocks.blockM ∧ 0 < blocks.blockN)
      (serves : call.Serves width chunk prompts) (promise : RaggedCausal log2e ragged)
      (returned : call.prefillAttention blocks ragged = .ok outcomes) (ran : outcomes out)
      (sequence : i < call.batchs ∧ prompts i = prompt)
      (read : ∀ o < chunk i, ∀ h < heads.numHeads, out (i * width + o, h) = some (rows o h)) :
      Feeds heads smScale log2e prompt 0 (chunk i) rows
  | chunked {call : ChunkedCall K} {blocks : NopadBlocks K} {width i : Nat}
      {cached chunk : Nat → Nat} {prompts : Nat → Prompt K} {out : OutputRows K}
      {rows : Nat → Nat → Nat → Floating K}
      (geometry : call.toHeadGeometry = heads) (scale : call.smScale = smScale)
      (constant : blocks.log2e = log2e) (tiles : 0 < blocks.blockM ∧ 0 < blocks.blockN)
      (serves : call.Serves width cached chunk prompts)
      (ran : call.FlashAttention2Chunked blocks out)
      (sequence : i < call.batchs ∧ prompts i = prompt)
      (read : ∀ m < chunk i, ∀ h < heads.numHeads, out (i * width + m, h) = some (rows m h)) :
      Feeds heads smScale log2e prompt (cached i) (chunk i) rows

/-- A prompt fed in chunks, each with the rows its pass left, from position `start` on. -/
def FedInChunks (heads : HeadGeometry) (smScale log2e : K) (prompt : Prompt K) :
    Nat → List (Nat × (Nat → Nat → Nat → Floating K)) → Prop
  | _, [] => True
  | start, (chunk, rows) :: rest =>
    Feeds heads smScale log2e prompt start chunk rows ∧
      FedInChunks heads smScale log2e prompt (start + chunk) rest

/-- The rows of all chunks, one after another. -/
def joinRows : List (Nat × (Nat → Nat → Nat → Floating K)) → Nat → Nat → Nat → Floating K
  | [], _ => fun _ _ => nan
  | (chunk, rows) :: rest, o => if o < chunk then rows o else joinRows rest (o - chunk)

variable {heads : HeadGeometry} {smScale log2e : K} {whole : Prompt K}

/-- Whatever the route, a row is that of its position in the prompt. -/
theorem Feeds.row_eq {cached chunk : Nat} {rows : Nat → Nat → Nat → Floating K}
    (hfeeds : Feeds heads smScale log2e whole cached chunk rows) {m h d : Nat} (hm : m < chunk)
    (hh : h < heads.numHeads) (hd : d < heads.headDim) :
    rows m h d = num (whole.row heads smScale log2e h (cached + m) d) := by
  cases hfeeds with
  | noPad geometry scale constant tiles serves ran sequence read =>
    subst geometry scale constant
    obtain ⟨hi, rfl⟩ := sequence
    rw [Nat.zero_add]
    exact (serves.noPad tiles.1 tiles.2 ran hi hm hh).lanes (read m hm h hh) hd
  | flashInfer geometry scale constant tiles serves promise returned ran sequence read =>
    subst geometry scale constant
    obtain ⟨hi, rfl⟩ := sequence
    obtain ⟨outcomes, hok, -, hall⟩ :=
      serves.prefillAttention tiles.1 tiles.2 promise (Nat.zero_lt_of_lt hi)
    rw [returned] at hok
    cases hok
    rw [Nat.zero_add]
    exact (hall _ ran _ hi m hm h hh).lanes (read m hm h hh) hd
  | chunked geometry scale constant tiles serves ran sequence read =>
    subst geometry scale constant
    obtain ⟨hi, rfl⟩ := sequence
    exact (serves.chunked tiles.1 tiles.2 ran hi hm hh).lanes (read m hm h hh) hd

/-- The rows of a prompt fed in chunks are those of its positions. -/
theorem FedInChunks.row_eq {passes : List (Nat × (Nat → Nat → Nat → Floating K))} {start o : Nat}
    (hfed : FedInChunks heads smScale log2e whole start passes)
    (ho : o < (passes.map Prod.fst).sum) {h d : Nat} (hh : h < heads.numHeads)
    (hd : d < heads.headDim) :
    joinRows passes o h d = num (whole.row heads smScale log2e h (start + o) d) := by
  induction passes generalizing start o with
  | nil => exact absurd ho (Nat.not_lt_zero o)
  | cons pass rest ih =>
    obtain ⟨chunk, rows⟩ := pass
    obtain ⟨hfirst, hrest⟩ := hfed
    rw [List.map_cons, List.sum_cons] at ho
    rw [joinRows]
    split
    · next hlt => exact hfirst.row_eq hlt hh hd
    · next hge =>
      have hle := Nat.le_of_not_lt hge
      rw [ih hrest (by omega), Nat.add_assoc, Nat.add_sub_cancel' hle]

/-- **Prefill routes agree.** Row `m` of sequence `i` is causal attention at position `p_i + m` of
that sequence, in each of the three routes, for every batch, padded grid and tile size. And so a
prompt fed in any sequence of chunks, each by any route and in any batch, has the rows of one
pass. -/
theorem prefill_routes_agree (blocks : NopadBlocks K) (hblockM : 0 < blocks.blockM)
    (hblockN : 0 < blocks.blockN) (width : Nat) (chunk : Nat → Nat) (prompt : Nat → Prompt K) :
    (∀ call : PrefillCall K, call.Serves width chunk prompt →
      (∃ out, call.FlashAttention2NoPad blocks out) ∧
      ∀ out, call.FlashAttention2NoPad blocks out →
        ∀ i < call.batchs, ∀ m < chunk i, ∀ h < call.numHeads,
          HoldsRow out call.headDim (i * width + m) h
            ((prompt i).row call.toHeadGeometry call.smScale blocks.log2e h m)) ∧
    (∀ call : PrefillCall K, call.Serves width chunk prompt → 0 < call.batchs →
      ∀ ragged, RaggedCausal blocks.log2e ragged →
        ∃ outcomes, call.prefillAttention blocks ragged = .ok outcomes ∧ (∃ out, outcomes out) ∧
          ∀ out, outcomes out → ∀ i < call.batchs, ∀ m < chunk i, ∀ h < call.numHeads,
            HoldsRow out call.headDim (i * width + m) h
              ((prompt i).row call.toHeadGeometry call.smScale blocks.log2e h m)) ∧
    (∀ (call : ChunkedCall K) (cached : Nat → Nat), call.Serves width cached chunk prompt →
      (∃ out, call.FlashAttention2Chunked blocks out) ∧
      ∀ out, call.FlashAttention2Chunked blocks out →
        ∀ i < call.batchs, ∀ m < chunk i, ∀ h < call.numHeads,
          HoldsRow out call.headDim (i * width + m) h
            ((prompt i).row call.toHeadGeometry call.smScale blocks.log2e h (cached i + m))) ∧
    ∀ (heads : HeadGeometry) (smScale : K) (whole : Prompt K) passes rows,
      FedInChunks heads smScale blocks.log2e whole 0 passes →
      Feeds heads smScale blocks.log2e whole 0 (passes.map Prod.fst).sum rows →
      ∀ o < (passes.map Prod.fst).sum, ∀ h < heads.numHeads, ∀ d < heads.headDim,
        joinRows passes o h d = rows o h d := by
  refine ⟨fun call hserves => ⟨⟨_, outcome_exists _ _⟩, fun out hout i hi m hm h hh =>
      hserves.noPad hblockM hblockN hout hi hm hh⟩,
    fun call hserves hbatchs ragged hragged =>
      hserves.prefillAttention hblockM hblockN hragged hbatchs,
    fun call cached hserves => ⟨⟨_, outcome_exists _ _⟩, fun out hout i hi m hm h hh =>
      hserves.chunked hblockM hblockN hout hi hm hh⟩,
    fun heads smScale whole passes rows hfed hwhole o ho h hh d hd => ?_⟩
  rw [hfed.row_eq ho hh hd, hwhole.row_eq ho hh hd]

/-! ### Decoding on -/

omit [Exponential K] [IsStrictOrderedRing K] in
/-- Row `b` decodes position `o` of a prompt: its history is the prompt up to there. -/
structure DecodeCall.Continues (call : DecodeCall K) (prompt : Prompt K) (b o : Nat) : Prop where
  row : b < call.batchs
  seqLen : call.bSeqLen b = o + 1
  q : ∀ h < call.numHeads, ∀ d < call.headDim, call.q b h d = prompt.q o h d
  key : ∀ n ≤ o, ∀ h < call.numHeads, ∀ d < call.headDim,
    call.key b h n d = prompt.key n (h / call.numKvGroups) d
  value : ∀ n ≤ o, ∀ h < call.numHeads, ∀ d < call.headDim,
    call.value b h n d = prompt.value n (h / call.numKvGroups) d

omit [Exponential K] in
/-- **Decoding continues a prefill.** A token fed to `flash_decoding`, through either kernel and
any partition of its history, attends to what it would have in a pass of the prefill, of whatever
route and chunk: the decode kernel's `exp`, and the `exp2` of the prefill's with `log2(e)` in its
scale, weigh alike. -/
theorem decode_eq_prefill {base2 : Exponential K} [Exponential K] {log2e : K}
    (hbase : ∀ x, base2.exp (x * log2e) = Exponential.exp x) {call : DecodeCall K}
    (hpromised : call.Promised) {env : DecodeEnv} {result : Nat → Nat → Partial K}
    (hdecode : call.Returns env result) {prompt : Prompt K} {b cached chunk m : Nat}
    (hcontinues : call.Continues prompt b (cached + m)) {rows : Nat → Nat → Nat → Floating K}
    (hfeeds : @Feeds K _ _ base2 call.toHeadGeometry call.qkScale log2e prompt cached chunk rows)
    (hm : m < chunk) {h d : Nat} (hh : h < call.numHeads) (hd : d < call.headDim) :
    (result b h).out d = rows m h d := by
  have hscore : ∀ n ∈ Finset.range (cached + m + 1), Exponential.exp (call.score b h n) =
      @naturalExp K _ _ base2 log2e
        (prompt.score call.toHeadGeometry call.qkScale h (cached + m) n) := fun n hn => by
    change _ = base2.exp (_ * log2e)
    rw [hbase, DecodeCall.score, Prompt.score]
    refine congrArg (fun x => Exponential.exp (call.qkScale * x)) (Finset.sum_congr rfl fun d hd => ?_)
    have hd := Finset.mem_range.mp hd
    rw [hcontinues.q h hh d hd,
      hcontinues.key n (Nat.lt_succ_iff.mp (Finset.mem_range.mp hn)) h hh d hd]
    rfl
  have hrow := @Feeds.row_eq K _ _ base2 _ _ _ _ _ _ _ _ hfeeds _ _ _ hm hh hd
  rw [hdecode.eq hpromised hcontinues.row hh, hrow, DecodeCall.softmaxRow,
    if_neg (by rw [hcontinues.seqLen]; exact Nat.succ_ne_zero _), hcontinues.seqLen]
  refine congrArg num (congrArg₂ (· / ·) (Finset.sum_congr rfl fun n hn => ?_)
    (Finset.sum_congr rfl hscore))
  rw [hscore n hn, hcontinues.value n (Nat.lt_succ_iff.mp (Finset.mem_range.mp hn)) h hh d hd]
  rfl

end Routes

/-! ### One prompt, twice -/

/-- The ragged wrapper as its documentation has it: a row belongs to the first segment it is in. -/
def referenceRagged [IsStrictOrderedRing K] (log2e : K) : RaggedRun K := fun plan q k v place =>
  if hgroups : plan.numKvHeads ∣ plan.numQoHeads then
    match (List.range plan.qoIndptr.length).find? fun s => decide
        (plan.qoIndptr.getD s 0 ≤ place.1 ∧ place.1 < plan.qoIndptr.getD (s + 1) 0) with
    | none => none
    | some s =>
      let start := plan.qoIndptr.getD s 0
      some fun d => num ((⟨fun o => q (start + o), fun n => k (start + n), fun n => v (start + n)⟩ :
        Prompt K).row ⟨plan.numQoHeads, plan.numKvHeads, plan.headDim, hgroups⟩ plan.smScale log2e
          place.2 (place.1 - start) d)
  else none

theorem getD_mono {xs : List Nat} (hxs : xs.Pairwise (· ≤ ·)) {s t : Nat} (hst : s ≤ t)
    (ht : t < xs.length) : xs.getD s 0 ≤ xs.getD t 0 := by
  rw [List.getD_eq_getElem _ _ (hst.trans_lt ht), List.getD_eq_getElem _ _ ht]
  rcases Nat.eq_or_lt_of_le hst with rfl | hlt
  · exact le_rfl
  · exact List.pairwise_iff_getElem.mp hxs s t _ _ hlt

theorem referenceRagged_causal [IsStrictOrderedRing K] (log2e : K) :
    RaggedCausal log2e (referenceRagged log2e) := by
  intro heads plan q k v _ hsorted _ hq hkv hdim s o hend h hh
  have hbound : ∀ t, 0 < plan.qoIndptr.getD (t + 1) 0 → t + 1 < plan.qoIndptr.length := fun t ht => by
    by_contra hge
    rw [List.getD_eq_default _ _ (Nat.le_of_not_lt hge)] at ht
    exact lt_irrefl 0 ht
  have hs := hbound s (Nat.zero_lt_of_lt hend)
  have hfind : (List.range plan.qoIndptr.length).find? (fun t => decide
      (plan.qoIndptr.getD t 0 ≤ plan.qoIndptr.getD s 0 + o ∧
        plan.qoIndptr.getD s 0 + o < plan.qoIndptr.getD (t + 1) 0)) = some s := by
    refine List.find?_range_eq_some.mpr ⟨?_, ?_, fun t ht => ?_⟩
    · exact decide_eq_true ⟨Nat.le_add_right _ _, hend⟩
    · exact List.mem_range.mpr (Nat.lt_of_succ_lt hs)
    · -- a segment before `s` ends where `s` starts, or earlier
      have hle := getD_mono hsorted (Nat.succ_le_of_lt ht) (Nat.lt_of_succ_lt hs)
      simp only [Bool.not_eq_true', decide_eq_false_iff_not, not_and, not_lt]
      intro _
      exact hle.trans (Nat.le_add_right _ _)
  have hgroups : plan.numKvHeads ∣ plan.numQoHeads := by
    rw [hq, hkv]
    exact heads.grouped
  obtain ⟨qoIndptr, kvIndptr, numQoHeads, numKvHeads, headDim, causal, smScale⟩ := plan
  subst hq hkv hdim
  refine ⟨_, ?_, fun d _ => rfl⟩
  unfold referenceRagged
  rw [dif_pos hgroups]
  simp only [hfind, Nat.add_sub_cancel_left]

/-- Two query heads on one KV head, of prompts told apart by their index. -/
def demoHeads : HeadGeometry := ⟨2, 1, 16, Nat.one_dvd 2⟩

def demoPrompt (i : Nat) : Prompt ℝ where
  q o h d := i + o + h + d
  key n _ d := i + n + d
  value n _ d := i * n + d

def demoBlocks : NopadBlocks ℝ := ⟨2, 2, 1⟩

/-- Two prompts in a padded grid of first chunks. -/
def gridCall (width : Nat) (chunk : Nat → Nat) : PrefillCall ℝ where
  toHeadGeometry := demoHeads
  totalQ := 2 * width
  batchs := 2
  q r := (demoPrompt (r / width)).q (r % width)
  k r := (demoPrompt (r / width)).key (r % width)
  v r := (demoPrompt (r / width)).value (r % width)
  smScale := 1
  bStartLoc i := i * width
  bSeqLen := chunk
  maxSeqLen := width

/-- Two prompts that resume, in a cache of eight rows for each. -/
def resumedCall (width : Nat) (cached chunk : Nat → Nat) : ChunkedCall ℝ where
  toHeadGeometry := demoHeads
  batchs := 2
  q r := (demoPrompt (r / width)).q (cached (r / width) + r % width)
  caches := .unquantized
    (fun addr => (demoPrompt (addr / 16 / 8)).key (addr / 16 % 8) 0 (addr % 16))
    (fun addr => (demoPrompt (addr / 16 / 8)).value (addr / 16 % 8) 0 (addr % 16))
  kStrides := ⟨16, 16, 1⟩
  vStrides := ⟨16, 16, 1⟩
  smScale := 1
  bStartLoc i := i * width
  bKvBase i := i * 8
  bPrefixLen := cached
  bSeqLen i := cached i + chunk i
  maxChunkLen := width
  kScale := 1
  vScale := 1

theorem gridCall_serves (width : Nat) (chunk : Nat → Nat) (hfit : ∀ i < 2, chunk i ≤ width) :
    (gridCall width chunk).Serves width chunk demoPrompt where
  totalQ := rfl
  startLoc _ _ := rfl
  seqLen _ _ := rfl
  fits := hfit
  longest := hfit
  q i hi o ho _ _ _ _ := by
    simp only [gridCall, div_mod_of_lt (ho.trans_le (hfit i hi))]
  key i hi o ho _ _ _ _ := by
    simp only [gridCall, div_mod_of_lt (ho.trans_le (hfit i hi))]
  value i hi o ho _ _ _ _ := by
    simp only [gridCall, div_mod_of_lt (ho.trans_le (hfit i hi))]

/-- The address of a lane of a cached position gives back all three. -/
theorem address_split {i n kv d : Nat} (hn : n < 8) (hkv : kv < 1) (hd : d < 16) :
    ((i * 8 + n) * 16 + (kv * 16 + d * 1)) / 16 / 8 = i ∧
      ((i * 8 + n) * 16 + (kv * 16 + d * 1)) / 16 % 8 = n ∧
      ((i * 8 + n) * 16 + (kv * 16 + d * 1)) % 16 = d := by
  omega

theorem resumedCall_serves (width : Nat) (cached chunk : Nat → Nat)
    (hfit : ∀ i < 2, chunk i ≤ width) (hcache : ∀ i < 2, cached i + chunk i ≤ 8) :
    (resumedCall width cached chunk).Serves width cached chunk demoPrompt where
  startLoc _ _ := rfl
  prefixLen _ _ := rfl
  seqLen _ _ := rfl
  fits := hfit
  longest := hfit
  unscaled _ := ⟨rfl, rfl⟩
  q i hi m hm _ _ _ _ := by
    simp only [resumedCall, div_mod_of_lt (hm.trans_le (hfit i hi))]
  key i hi n hn kv hkv d hd := by
    obtain ⟨hseq, hrow, hlane⟩ := address_split (i := i) (hn.trans_le (hcache i hi)) hkv hd
    change (demoPrompt (_ / 16 / 8)).key (_ / 16 % 8) 0 (_ % 16) = _
    simp only [resumedCall, Strides.offset, hseq, hrow, hlane]
    rfl
  value i hi n hn kv hkv d hd := by
    obtain ⟨hseq, hrow, hlane⟩ := address_split (i := i) (hn.trans_le (hcache i hi)) hkv hd
    change (demoPrompt (_ / 16 / 8)).value (_ / 16 % 8) 0 (_ % 16) = _
    simp only [resumedCall, Strides.offset, hseq, hrow, hlane]
    rfl

/-- The rows of a sequence, out of an output that holds them. -/
def rowsOf (out : OutputRows ℝ) (start o h : Nat) : Nat → Floating ℝ :=
  (out (start + o, h)).getD fun _ => nan

theorem HoldsRow.read {out : OutputRows ℝ} {headDim start o h : Nat} {row : Nat → ℝ}
    (hholds : HoldsRow out headDim (start + o) h row) :
    out (start + o, h) = some (rowsOf out start o h) := by
  obtain ⟨lanes, hlanes, -⟩ := hholds
  rw [rowsOf, hlanes, Option.getD_some]

/-- Prompt 1, two positions in a grid beside prompt 0 and then a third on its own, has the rows of
one pass through FlashInfer. -/
theorem twoChunks_agree : ∃ passes rows,
    FedInChunks demoHeads 1 1 (demoPrompt 1) 0 passes ∧ passes.map Prod.fst = [2, 1] ∧
    Feeds demoHeads 1 1 (demoPrompt 1) 0 3 rows ∧
    ∀ o < 3, ∀ h < 2, ∀ d < 16, joinRows passes o h d = rows o h d := by
  let first : Nat → Nat := fun i => i + 1
  let whole : Nat → Nat := fun i => 2 * i + 1
  let cached : Nat → Nat := fun i => 2 * i
  have agree := fun width chunk =>
    prefill_routes_agree demoBlocks two_pos two_pos width chunk demoPrompt
  have hserves := gridCall_serves 2 first fun i hi => Nat.succ_le_of_lt hi
  have hresumed := resumedCall_serves 1 cached (fun _ => 1)
    (fun _ _ => le_rfl) fun i hi => by change 2 * i + 1 ≤ 8; omega
  have hgrid := gridCall_serves 3 whole fun i hi => by
    change 2 * i + 1 ≤ 3; omega
  obtain ⟨⟨out, hout⟩, hrows⟩ := (agree 2 first).1 _ hserves
  obtain ⟨⟨out', hout'⟩, hrows'⟩ := (agree 1 fun _ => 1).2.2.1 _ _ hresumed
  obtain ⟨outcomes, hok, ⟨all, hall⟩, hrows''⟩ := (agree 3 whole).2.1 _ hgrid two_pos
    (referenceRagged 1) (referenceRagged_causal 1)
  have hwhole : Feeds demoHeads 1 1 (demoPrompt 1) 0 3 (rowsOf all (1 * 3)) :=
    Feeds.flashInfer (i := 1) rfl rfl rfl ⟨two_pos, two_pos⟩ hgrid (referenceRagged_causal 1) hok
      hall ⟨one_lt_two, rfl⟩ fun o ho h hh => (hrows'' _ hall 1 one_lt_two o ho h hh).read
  have hfed : FedInChunks demoHeads 1 1 (demoPrompt 1) 0
      [(2, rowsOf out (1 * 2)), (1, rowsOf out' (1 * 1))] :=
    ⟨Feeds.noPad (i := 1) rfl rfl rfl ⟨two_pos, two_pos⟩ hserves hout ⟨one_lt_two, rfl⟩
      fun o ho h hh => (hrows _ hout 1 one_lt_two o ho h hh).read,
    Feeds.chunked (i := 1) rfl rfl rfl ⟨two_pos, two_pos⟩ hresumed hout' ⟨one_lt_two, rfl⟩
      fun o ho h hh => (hrows' _ hout' 1 one_lt_two o ho h hh).read, trivial⟩
  exact ⟨_, _, hfed, rfl, hwhole, (agree 3 whole).2.2.2 demoHeads 1 (demoPrompt 1) _ _ hfed hwhole⟩

/-- The last of three positions of prompt 1 as a decode row, over a cache of its positions. -/
def lastToken : DecodeCall ℝ where
  toHeadGeometry := demoHeads
  batchs := 1
  q _ := (demoPrompt 1).q 2
  caches := .unquantized (fun addr => (demoPrompt 1).key (addr / 16) 0 (addr % 16))
    fun addr => (demoPrompt 1).value (addr / 16) 0 (addr % 16)
  kStrides := ⟨16, 0, 1⟩
  vStrides := ⟨16, 0, 1⟩
  qkScale := 1
  bReqTokensTable := ⟨id, 0, 0, 1⟩
  bReqIdx _ := 0
  bSeqLen _ := 3
  maxActualSeqLen := 3
  kScale := 1
  vScale := 1

/-- `exp2`. -/
noncomputable abbrev exp2 : Exponential ℝ where
  exp x := 2 ^ x
  log := Real.logb 2
  exp_pos := Real.rpow_pos_of_pos two_pos
  exp_add := Real.rpow_add two_pos
  log_exp _ := Real.logb_rpow two_pos one_lt_two.ne'
  exp_log _ h := Real.rpow_logb two_pos one_lt_two.ne' h

theorem gridCall_feeds (base : Exponential ℝ) (log2e : ℝ) :
    ∃ rows, @Feeds ℝ _ _ base demoHeads 1 log2e (demoPrompt 1) 0 3 rows := by
  have hserves := gridCall_serves 3 (fun i => 2 * i + 1) fun i hi => by omega
  have hout : (gridCall 3 fun i => 2 * i + 1).FlashAttention2NoPad ⟨2, 2, log2e⟩ _ :=
    outcome_exists _ _
  exact ⟨_, Feeds.noPad (i := 1) rfl rfl rfl ⟨two_pos, two_pos⟩ hserves hout ⟨one_lt_two, rfl⟩
    fun o ho h hh => (hserves.noPad two_pos two_pos hout one_lt_two ho hh).read⟩

/-- It leaves the row that a prefill of all three does. -/
theorem lastToken_eq_prefill : ∃ result rows,
    lastToken.Returns ⟨none, none, fun _ => none, 72⟩ result ∧
    @Feeds ℝ _ _ exp2 demoHeads 1 (Real.logb 2 (Real.exp 1)) (demoPrompt 1) 0 3 rows ∧
    ∀ h < 2, ∀ d < 16, (result 0 h).out d = rows 2 h d := by
  have hbase : ∀ x : ℝ, (2 : ℝ) ^ (x * Real.logb 2 (Real.exp 1)) = Real.exp x := fun x => by
    rw [mul_comm, Real.rpow_mul two_pos.le, Real.rpow_logb two_pos one_lt_two.ne' (Real.exp_pos 1),
      Real.exp_one_rpow]
  have hpromised : lastToken.Promised := ⟨rfl, fun _ => ⟨rfl, rfl⟩, fun _ _ => le_rfl⟩
  have haddr : ∀ n kv, ∀ d < 16, lastToken.kStrides.offset (lastToken.rowOf 0 n) kv d / 16 = n ∧
      lastToken.kStrides.offset (lastToken.rowOf 0 n) kv d % 16 = d := fun n kv d hd => by
    simp only [lastToken, DecodeCall.rowOf, RowTable.row, Strides.offset, id]
    omega
  have hcontinues : lastToken.Continues (demoPrompt 1) 0 (0 + 2) :=
    { row := one_pos, seqLen := rfl, q := fun _ _ _ _ => rfl
      key := fun n _ h _ d hd => congrArg₂ (fun row lane => (demoPrompt 1).key row 0 lane)
        (haddr n _ d hd).1 (haddr n _ d hd).2
      value := fun n _ h _ d hd => congrArg₂ (fun row lane => (demoPrompt 1).value row 0 lane)
        (haddr n _ d hd).1 (haddr n _ d hd).2 }
  obtain ⟨rows, hfeeds⟩ := gridCall_feeds exp2 (Real.logb 2 (Real.exp 1))
  have hreturns := hpromised.returns ⟨none, none, fun _ => none, 72⟩
  exact ⟨_, rows, hreturns, hfeeds, fun h hh d hd =>
    decode_eq_prefill hbase hpromised hreturns hcontinues hfeeds (by decide) hh hd⟩

end RapidLlm
