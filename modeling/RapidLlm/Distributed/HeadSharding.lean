import RapidLlm.Distributed.Topology
import RapidLlm.Lib.Grouping

/-!
# RapidLlm.Distributed.HeadSharding

**Attention heads over tensor and decode-context parallel ranks** (`QKVParallelLinear`,
`dcp_kv_head_range`, `PagedAttention`). Query heads split `tp` ways and key/value heads `tp / dcp`
ways, so the ranks of a DCP group hold the same KV heads. In decode a rank attends the gathered
query heads of its group against those, in prefill its own query heads against a sub-range; each
time the kernel divides a query head's place by one ratio.

`readHead` is what a kernel does to two lists of heads. `heads_right_iff` says when every query
head of every rank reads the KV head of its global index: under DCP always, since
`dcp_kv_head_range` refuses what one ratio cannot express, and without DCP when the KV heads
divide the query heads, which nothing checks there.
-/

namespace RapidLlm

/-- The widths of a tensor-parallel group. -/
structure TpGrid where
  tpSize : Nat
  dcpSize : Nat
  tpSize_pos : 0 < tpSize
  dcpSize_dvd : dcpSize ∣ tpSize

/-- `divide`. -/
def divide (a b : Nat) (what : String) : Except Raised Nat :=
  if b = 0 then .error (.zeroDivisionError "integer modulo by zero")
  else if a % b ≠ 0 then
    .error (.valueError s!"{what} {a} does not divide across {b} tensor-parallel ranks")
  else .ok (a / b)

/-- The scale blocks of a quantisation config, as far as a split looks at them. -/
structure ScaleBlocks where
  name : String
  groupN : Nat
  groupK : Nat

/-- `QuantizationConfig.shard_is_aligned`. -/
def ScaleBlocks.shardIsAligned (quant : ScaleBlocks) (size : Nat) : Bool :=
  if quant.groupN ≤ 1 ∧ 2 ^ 30 ≤ quant.groupK then true
  else size % max quant.groupN quant.groupK = 0

/-- `_check_shard_alignment`. -/
def checkShardAlignment (quant : Option ScaleBlocks) (localSize : Nat) (what : String) :
    Except Raised Unit :=
  match quant with
  | none => .ok ()
  | some blocks =>
    if blocks.shardIsAligned localSize then .ok ()
    else .error (.valueError (s!"tensor-parallel shard of {what} is {localSize} channels, which " ++
      s!"is not a multiple of the {blocks.name} scale block ({blocks.groupN}x{blocks.groupK}); " ++
      "use a smaller tensor_parallel_size"))

namespace TpGrid

variable (grid : TpGrid)

/-- `kv_shard_count`. -/
def kvShardCount : Nat := grid.tpSize / grid.dcpSize

/-- `kv_shard_index` of a rank. -/
def kvShardIndex (rank : Nat) : Nat := rank / grid.dcpSize

/-- `get_decode_context_parallel_rank` of a rank. -/
def dcpRank (rank : Nat) : Nat := rank % grid.dcpSize

end TpGrid

/-! ### The projection -/

/-- The local geometry of a `QKVParallelLinear`. -/
structure QKVParallelLinear where
  numHeads : Nat
  numKvHeads : Nat
  headDim : Nat
  qSize : Nat
  kvSize : Nat
  fullOutputSize : Nat

namespace QKVParallelLinear

/-- `QKVParallelLinear.__init__`. -/
def create (grid : TpGrid) (quant : Option ScaleBlocks) (numHeads numKvHeads headDim : Nat) :
    Except Raised QKVParallelLinear := do
  let localHeads ← divide numHeads grid.tpSize "attention heads"
  let localKvHeads ← divide numKvHeads grid.kvShardCount "key/value heads"
  let qSize := localHeads * headDim
  let kvSize := localKvHeads * headDim
  checkShardAlignment quant qSize "query features"
  checkShardAlignment quant kvSize "key/value features"
  pure
    { numHeads := localHeads
      numKvHeads := localKvHeads
      headDim := headDim
      qSize := qSize
      kvSize := kvSize
      fullOutputSize := (numHeads + 2 * numKvHeads) * headDim }

/-- The start and count of the rows `_weight_loader` narrows a checkpoint tensor to. -/
def loadedRows (grid : TpGrid) (rank shardId rows : Nat) : Nat × Nat :=
  let shards := if shardId ≠ 0 then grid.kvShardCount else grid.tpSize
  let index := if shardId ≠ 0 then grid.kvShardIndex rank else rank
  if 1 < shards then (index * (rows / shards), rows / shards) else (0, rows)

/-- The query heads of a rank. -/
def queryHeads (qkv : QKVParallelLinear) (rank : Nat) : List Nat :=
  List.range' (rank * qkv.numHeads) qkv.numHeads

/-- The key/value heads of a rank. -/
def kvHeads (qkv : QKVParallelLinear) (grid : TpGrid) (rank : Nat) : List Nat :=
  List.range' (grid.kvShardIndex rank * qkv.numKvHeads) qkv.numKvHeads

end QKVParallelLinear

/-! ### Attention -/

/-- `dcp_kv_head_range`. -/
def dcpKvHeadRange (numHeads numKvHeads dcpRank dcpSize : Nat) : Except Raised (Nat × Nat) :=
  let groupHeads := numHeads * dcpSize
  if numKvHeads = 0 then .error (.zeroDivisionError "integer modulo by zero")
  else if groupHeads % numKvHeads ≠ 0 then
    .error (.valueError
      s!"{groupHeads} DCP-group query heads do not share {numKvHeads} KV heads evenly")
  else
    let ratio := groupHeads / numKvHeads
    if ratio = 0 then .error (.zeroDivisionError "integer division or modulo by zero")
    else
      let first := dcpRank * numHeads
      let start := first / ratio
      let stop := (first + numHeads - 1) / ratio + 1
      let span := stop - start
      if numHeads % span ≠ 0 ∨ (numHeads / span ≠ ratio ∧ span ≠ 1) then
        .error (.valueError (s!"DCP rank {dcpRank}'s {numHeads} query heads do not map onto " ++
          s!"whole KV heads (GQA ratio {ratio})"))
      else .ok (start, stop)

/-- What `PagedAttention.__init__` keeps of the head geometry. -/
structure PagedAttention where
  numKvHeads : Nat
  prefillKvHeads : Option (Nat × Nat)
  deriving DecidableEq

/-- `PagedAttention.__init__` on a rank. -/
def PagedAttention.create (grid : TpGrid) (rank numKvHeads : Nat) (numHeads : Option Nat) :
    Except Raised PagedAttention :=
  if 1 < grid.dcpSize then
    match numHeads with
    | none =>
      .error (.valueError "decode context parallelism needs the local query head count")
    | some numHeads =>
      (dcpKvHeadRange numHeads numKvHeads (grid.dcpRank rank) grid.dcpSize).map fun range =>
        { numKvHeads := numKvHeads
          prefillKvHeads := some range }
  else
    .ok
      { numKvHeads := numKvHeads
        prefillKvHeads := none }

/-- The KV head an attention kernel reads for the query head at place `p`: the place divided by
`q.shape[1] // k.shape[1]`. Nothing where the ratio is undefined, zero, or leads past the heads. -/
def readHead (queries kvs : List Nat) (p : Nat) : Option Nat :=
  if kvs.length = 0 ∨ queries.length / kvs.length = 0 then none
  else kvs[p / (queries.length / kvs.length)]?

namespace PagedAttention

variable (grid : TpGrid) (qkv : QKVParallelLinear) (attn : PagedAttention) (rank : Nat)

/-- The query heads of `token_forward`: the all-gather of `_dcp_decode` over the rank's DCP group,
whose ranks are consecutive. -/
def decodeQueries : List Nat :=
  if 1 < grid.dcpSize then
    (List.range grid.dcpSize).flatMap fun j =>
      qkv.queryHeads (rank / grid.dcpSize * grid.dcpSize + j)
  else qkv.queryHeads rank

/-- The key/value heads of `context_forward`: `xk[:, start:end]`. -/
def prefillKvs : List Nat :=
  match attn.prefillKvHeads with
  | some (start, stop) => ((qkv.kvHeads grid rank).take stop).drop start
  | none => qkv.kvHeads grid rank

end PagedAttention

/-! ### Constructed layers -/

theorem divide_inv {a b c : Nat} {what : String} (h : divide a b what = .ok c) :
    0 < b ∧ c * b = a := by
  unfold divide at h
  split at h
  · cases h
  · rename_i hb
    split at h
    · cases h
    · rename_i hmod
      cases h
      exact ⟨Nat.pos_of_ne_zero hb, Nat.div_mul_cancel (Nat.dvd_of_mod_eq_zero (not_not.mp hmod))⟩

namespace TpGrid

variable (grid : TpGrid)

theorem dcpSize_pos : 0 < grid.dcpSize :=
  Nat.pos_of_dvd_of_pos grid.dcpSize_dvd grid.tpSize_pos

theorem kvShardCount_mul : grid.kvShardCount * grid.dcpSize = grid.tpSize :=
  Nat.div_mul_cancel grid.dcpSize_dvd

theorem kvShardCount_pos : 0 < grid.kvShardCount :=
  Nat.div_pos (Nat.le_of_dvd grid.tpSize_pos grid.dcpSize_dvd) grid.dcpSize_pos

theorem kvShardIndex_lt {rank : Nat} (h : rank < grid.tpSize) :
    grid.kvShardIndex rank < grid.kvShardCount :=
  Nat.div_lt_div_of_lt_of_dvd grid.dcpSize_dvd h

theorem dcpRank_lt (rank : Nat) : grid.dcpRank rank < grid.dcpSize :=
  Nat.mod_lt rank grid.dcpSize_pos

end TpGrid

section Layers

variable {grid : TpGrid} {quant : Option ScaleBlocks} {numHeads numKvHeads headDim rank : Nat}
  {qkv : QKVParallelLinear}

/-- A constructed projection has whole heads on every rank. -/
theorem QKVParallelLinear.create_inv
    (h : QKVParallelLinear.create grid quant numHeads numKvHeads headDim = .ok qkv) :
    qkv.numHeads * grid.tpSize = numHeads ∧ qkv.numKvHeads * grid.kvShardCount = numKvHeads ∧
      qkv.headDim = headDim := by
  obtain ⟨localHeads, hheads, h⟩ := bind_eq_ok.mp h
  obtain ⟨localKvHeads, hkv, h⟩ := bind_eq_ok.mp h
  obtain ⟨-, -, h⟩ := bind_eq_ok.mp h
  obtain ⟨-, -, h⟩ := bind_eq_ok.mp h
  cases h
  exact ⟨(divide_inv hheads).2, (divide_inv hkv).2, rfl⟩

/-- What an accepted sub-range is: one KV head, or as many as the rank's heads fill. -/
theorem dcpKvHeadRange_inv {heads kvHeads dcpRank dcpSize start stop : Nat}
    (h : dcpKvHeadRange heads kvHeads dcpRank dcpSize = .ok (start, stop)) :
    ∃ ratio, 0 < ratio ∧ 0 < kvHeads ∧ ratio * kvHeads = heads * dcpSize ∧
      start = dcpRank * heads / ratio ∧ stop = (dcpRank * heads + heads - 1) / ratio + 1 ∧
        heads % (stop - start) = 0 ∧ (heads / (stop - start) = ratio ∨ stop - start = 1) := by
  unfold dcpKvHeadRange at h
  simp only at h
  split at h
  · cases h
  · rename_i hkv
    split at h
    · cases h
    · rename_i hmod
      split at h
      · cases h
      · rename_i hratio
        split at h
        · cases h
        · rename_i hspan
          cases h
          refine ⟨_, Nat.pos_of_ne_zero hratio, Nat.pos_of_ne_zero hkv,
            Nat.div_mul_cancel (Nat.dvd_of_mod_eq_zero (not_not.mp hmod)), rfl, rfl, ?_, ?_⟩
          · by_contra hne
            exact hspan (Or.inl hne)
          · by_contra hne
            rw [not_or] at hne
            exact hspan (Or.inr hne)

theorem PagedAttention.create_inv {heads kvHeads : Nat} {attn : PagedAttention}
    (h : PagedAttention.create grid rank kvHeads (some heads) = .ok attn) :
    if 1 < grid.dcpSize then
      ∃ start stop, dcpKvHeadRange heads kvHeads (grid.dcpRank rank) grid.dcpSize =
        .ok (start, stop) ∧ attn.prefillKvHeads = some (start, stop)
    else attn.prefillKvHeads = none := by
  unfold PagedAttention.create at h
  split at h
  · rename_i hdcp
    rw [if_pos hdcp]
    cases hrange : dcpKvHeadRange heads kvHeads (grid.dcpRank rank) grid.dcpSize with
    | error raised =>
      simp only [hrange] at h
      cases h
    | ok range =>
      simp only [hrange] at h
      cases h
      exact ⟨range.1, range.2, rfl, rfl⟩
  · rename_i hdcp
    cases h
    rw [if_neg hdcp]

/-- The heads of consecutive ranks, one after another. -/
theorem flatMap_heads (first count width : Nat) :
    ((List.range count).flatMap fun j => List.range' ((first + j) * width) width) =
      List.range' (first * width) (count * width) := by
  induction count with
  | zero => simp
  | succ count ih =>
    rw [List.range_succ, List.flatMap_append, ih, List.flatMap_singleton, Nat.succ_mul,
      Nat.add_mul, List.range'_append_1]

/-- **Every query head reads its KV head**: the shards of the checkpoint's heads, and what decode
and prefill read. -/
structure HeadsRight (grid : TpGrid) (numHeads numKvHeads headDim : Nat) (qkv : QKVParallelLinear)
    (attn : Nat → PagedAttention) : Prop where
  /-- The query rows a rank loads are those of its heads. -/
  query_rows : ∀ rank < grid.tpSize,
    QKVParallelLinear.loadedRows grid rank 0 (numHeads * headDim) =
      (rank * qkv.numHeads * headDim, qkv.numHeads * headDim)
  kv_rows : ∀ rank < grid.tpSize, ∀ shardId, shardId ≠ 0 →
    QKVParallelLinear.loadedRows grid rank shardId (numKvHeads * headDim) =
      (grid.kvShardIndex rank * qkv.numKvHeads * headDim, qkv.numKvHeads * headDim)
  /-- The ranks' query heads are the checkpoint's, in order. -/
  query_partition : (List.range grid.tpSize).flatMap qkv.queryHeads = List.range numHeads
  /-- So are the groups' key/value heads, and the ranks of a group hold the same. -/
  kv_partition : ((List.range grid.kvShardCount).flatMap fun group =>
    qkv.kvHeads grid (group * grid.dcpSize)) = List.range numKvHeads
  kv_shared : ∀ rank rank', rank / grid.dcpSize = rank' / grid.dcpSize →
    qkv.kvHeads grid rank = qkv.kvHeads grid rank'
  /-- A rank's own heads are among those it decodes with. -/
  own : ∀ rank < grid.tpSize, qkv.queryHeads rank ⊆ PagedAttention.decodeQueries grid qkv rank
  decode : ∀ rank < grid.tpSize, ∀ p head,
    (PagedAttention.decodeQueries grid qkv rank)[p]? = some head →
      readHead (PagedAttention.decodeQueries grid qkv rank) (qkv.kvHeads grid rank) p =
        some (head * numKvHeads / numHeads)
  prefill : ∀ rank < grid.tpSize, ∀ p head, (qkv.queryHeads rank)[p]? = some head →
    readHead (qkv.queryHeads rank) (PagedAttention.prefillKvs grid qkv (attn rank) rank) p =
      some (head * numKvHeads / numHeads)

/-! ### Reading through one ratio -/

/-- Consecutive heads read through a whole ratio. -/
theorem readHead_range' {a b n m p ratio : Nat} (hratio : 0 < ratio) (hn : ratio * m = n)
    (hp : p < n) : readHead (List.range' a n) (List.range' b m) p = some (b + p / ratio) := by
  have hm : 0 < m := by
    refine Nat.pos_of_ne_zero ?_
    rintro rfl
    omega
  have hdiv : n / m = ratio := by rw [← hn, Nat.mul_div_cancel _ hm]
  have hlt : p / ratio < m := (Nat.div_lt_iff_lt_mul hratio).mpr (by rwa [Nat.mul_comm, hn])
  rw [readHead, List.length_range', List.length_range', hdiv, if_neg (by omega),
    List.getElem?_range' hlt, Nat.one_mul]

/-- Where the ratio is not whole, the last head reads past the KV heads. -/
theorem readHead_last {a b n m : Nat} (hdvd : ¬ m ∣ n) :
    readHead (List.range' a n) (List.range' b m) (n - 1) = none := by
  rw [readHead, List.length_range', List.length_range']
  split
  · rfl
  · rename_i hratio
    rw [not_or] at hratio
    obtain ⟨hm, hdiv⟩ := hratio
    refine List.getElem?_eq_none ?_
    rw [List.length_range', Nat.le_div_iff_mul_le (Nat.pos_of_ne_zero hdiv)]
    have hle : m * (n / m) ≤ n := Nat.mul_div_le n m
    have hne : m * (n / m) ≠ n := fun h => hdvd ⟨n / m, h.symm⟩
    omega

/-- The KV head of a global query head, in the ratio of one group. -/
theorem kvOf_eq {heads kvHeads size count ratio : Nat} (hratio : ratio * kvHeads = heads * size)
    (hpos : 0 < kvHeads * count) (head : Nat) :
    head * (kvHeads * count) / (heads * (count * size)) = head / ratio := by
  have hheads : heads * (count * size) = ratio * (kvHeads * count) := by
    rw [← Nat.mul_assoc, Nat.mul_right_comm, ← hratio, Nat.mul_assoc]
  rw [hheads, Nat.mul_div_mul_right _ _ hpos]

/-! ### Every layer -/

theorem QKVParallelLinear.loadedRows_query (grid : TpGrid) (heads headDim : Nat) {rank : Nat}
    (hrank : rank < grid.tpSize) :
    loadedRows grid rank 0 (heads * grid.tpSize * headDim) =
      (rank * heads * headDim, heads * headDim) := by
  have hdiv : heads * grid.tpSize * headDim / grid.tpSize = heads * headDim := by
    rw [Nat.mul_right_comm, Nat.mul_div_cancel _ grid.tpSize_pos]
  simp only [loadedRows, ne_eq, not_true_eq_false, if_false, hdiv]
  split
  · rw [Nat.mul_assoc]
  · have hone : grid.tpSize = 1 := by have := grid.tpSize_pos; omega
    obtain rfl : rank = 0 := by omega
    simp [hone]

theorem QKVParallelLinear.loadedRows_kv (grid : TpGrid) (heads headDim : Nat) {rank shardId : Nat}
    (hrank : rank < grid.tpSize) (hshard : shardId ≠ 0) :
    loadedRows grid rank shardId (heads * grid.kvShardCount * headDim) =
      (grid.kvShardIndex rank * heads * headDim, heads * headDim) := by
  have hdiv : heads * grid.kvShardCount * headDim / grid.kvShardCount = heads * headDim := by
    rw [Nat.mul_right_comm, Nat.mul_div_cancel _ grid.kvShardCount_pos]
  simp only [loadedRows, if_pos hshard, hdiv]
  split
  · rw [Nat.mul_assoc]
  · have hlt := grid.kvShardIndex_lt hrank
    have hone : grid.kvShardCount = 1 := by have := grid.kvShardCount_pos; omega
    have hindex : grid.kvShardIndex rank = 0 := by omega
    simp [hone, hindex]

theorem decodeQueries_eq (grid : TpGrid) (qkv : QKVParallelLinear) (rank : Nat) :
    PagedAttention.decodeQueries grid qkv rank =
      List.range' (grid.kvShardIndex rank * grid.dcpSize * qkv.numHeads)
        (grid.dcpSize * qkv.numHeads) := by
  unfold PagedAttention.decodeQueries QKVParallelLinear.queryHeads TpGrid.kvShardIndex
  split
  · exact flatMap_heads _ _ _
  · have hone : grid.dcpSize = 1 := by have := grid.dcpSize_pos; omega
    rw [hone, Nat.div_one, Nat.mul_one, Nat.one_mul]

/-- A rank is a place in its DCP group. -/
theorem rank_eq (grid : TpGrid) (rank : Nat) :
    grid.kvShardIndex rank * grid.dcpSize + grid.dcpRank rank = rank :=
  Nat.div_add_mod' rank grid.dcpSize

/-- The heads of a rank stand in its group's after those of the ranks before it. -/
theorem own_subset (grid : TpGrid) (qkv : QKVParallelLinear) (rank : Nat) :
    qkv.queryHeads rank ⊆ PagedAttention.decodeQueries grid qkv rank := by
  intro head hhead
  rw [decodeQueries_eq]
  simp only [QKVParallelLinear.queryHeads, List.mem_range'_1] at hhead ⊢
  have hrank := rank_eq grid rank
  have hlt := grid.dcpRank_lt rank
  have hle : (grid.dcpRank rank + 1) * qkv.numHeads ≤ grid.dcpSize * qkv.numHeads :=
    Nat.mul_le_mul_right _ hlt
  have hsplit : rank * qkv.numHeads = grid.kvShardIndex rank * grid.dcpSize * qkv.numHeads +
      grid.dcpRank rank * qkv.numHeads := by
    rw [← Nat.add_mul, hrank]
  rw [Nat.succ_mul] at hle
  omega

/-- The shards of the heads, whatever the ratio. -/
theorem partitions (grid : TpGrid) (qkv : QKVParallelLinear) :
    (List.range grid.tpSize).flatMap qkv.queryHeads = List.range (qkv.numHeads * grid.tpSize) ∧
      ((List.range grid.kvShardCount).flatMap fun group => qkv.kvHeads grid (group * grid.dcpSize)) =
        List.range (qkv.numKvHeads * grid.kvShardCount) := by
  constructor
  · have h := flatMap_heads 0 grid.tpSize qkv.numHeads
    simp only [Nat.zero_add, Nat.zero_mul, ← List.range_eq_range'] at h
    rw [Nat.mul_comm]
    exact h
  · have h := flatMap_heads 0 grid.kvShardCount qkv.numKvHeads
    simp only [Nat.zero_add, Nat.zero_mul, ← List.range_eq_range'] at h
    rw [Nat.mul_comm qkv.numKvHeads, ← h]
    simp only [QKVParallelLinear.kvHeads, TpGrid.kvShardIndex,
      Nat.mul_div_cancel _ grid.dcpSize_pos]

/-- Under one whole ratio for the group, decode reads the right heads. -/
theorem decode_right {ratio p head : Nat} (hpos : 0 < ratio)
    (hratio : ratio * qkv.numKvHeads = qkv.numHeads * grid.dcpSize)
    (hhead : (PagedAttention.decodeQueries grid qkv rank)[p]? = some head) :
    readHead (PagedAttention.decodeQueries grid qkv rank) (qkv.kvHeads grid rank) p =
      some (head * (qkv.numKvHeads * grid.kvShardCount) / (qkv.numHeads * grid.tpSize)) := by
  rw [decodeQueries_eq] at hhead ⊢
  have hp : p < grid.dcpSize * qkv.numHeads := by
    by_contra hge
    rw [List.getElem?_eq_none (by rwa [List.length_range', ← Nat.not_lt])] at hhead
    cases hhead
  rw [List.getElem?_range' hp, Option.some.injEq, Nat.one_mul] at hhead
  have hn : ratio * qkv.numKvHeads = grid.dcpSize * qkv.numHeads := by rw [hratio, Nat.mul_comm]
  have hkv : 0 < qkv.numKvHeads := by
    refine Nat.pos_of_ne_zero ?_
    intro hzero
    rw [hzero] at hn
    omega
  have hsplit : head = grid.kvShardIndex rank * qkv.numKvHeads * ratio + p := by
    rw [← hhead, Nat.mul_assoc _ grid.dcpSize, ← hn, Nat.mul_comm ratio, Nat.mul_assoc]
  rw [QKVParallelLinear.kvHeads, readHead_range' hpos hn hp, ← grid.kvShardCount_mul,
    kvOf_eq hratio (Nat.mul_pos hkv grid.kvShardCount_pos), hsplit, Nat.add_comm _ p,
    Nat.add_mul_div_right _ _ hpos, Nat.add_comm]

/-- Without DCP, where the KV heads divide the query heads. -/
theorem decode_alone {p head : Nat} (hdcp : ¬ 1 < grid.dcpSize)
    (hdvd : qkv.numKvHeads * grid.kvShardCount ∣ qkv.numHeads * grid.tpSize)
    (hhead : (PagedAttention.decodeQueries grid qkv rank)[p]? = some head) :
    readHead (PagedAttention.decodeQueries grid qkv rank) (qkv.kvHeads grid rank) p =
      some (head * (qkv.numKvHeads * grid.kvShardCount) / (qkv.numHeads * grid.tpSize)) := by
  have hone : grid.dcpSize = 1 := by have := grid.dcpSize_pos; omega
  have hcount : grid.kvShardCount = grid.tpSize := by
    have := grid.kvShardCount_mul
    rwa [hone, Nat.mul_one] at this
  rw [hcount] at hdvd
  obtain ⟨ratio, hratio⟩ := Nat.dvd_of_mul_dvd_mul_right grid.tpSize_pos hdvd
  have hpos : 0 < ratio := by
    refine Nat.pos_of_ne_zero ?_
    rintro rfl
    rw [decodeQueries_eq, hratio] at hhead
    simp at hhead
  refine decode_right hpos ?_ hhead
  rw [hone, Nat.mul_one, hratio, Nat.mul_comm]

/-- A sub-range that `dcp_kv_head_range` accepts is where the rank's own heads read. -/
theorem prefill_right {ratio start stop p head : Nat} {attn : PagedAttention} (hpos : 0 < ratio)
    (hratio : ratio * qkv.numKvHeads = qkv.numHeads * grid.dcpSize) (hkv : 0 < qkv.numKvHeads)
    (hstart : start = grid.dcpRank rank * qkv.numHeads / ratio)
    (hstop : stop = (grid.dcpRank rank * qkv.numHeads + qkv.numHeads - 1) / ratio + 1)
    (hmod : qkv.numHeads % (stop - start) = 0)
    (hspan : qkv.numHeads / (stop - start) = ratio ∨ stop - start = 1)
    (hattn : attn.prefillKvHeads = some (start, stop))
    (hhead : (qkv.queryHeads rank)[p]? = some head) :
    readHead (qkv.queryHeads rank) (PagedAttention.prefillKvs grid qkv attn rank) p =
      some (head * (qkv.numKvHeads * grid.kvShardCount) / (qkv.numHeads * grid.tpSize)) := by
  have hp : p < qkv.numHeads := by
    by_contra hge
    rw [QKVParallelLinear.queryHeads,
      List.getElem?_eq_none (by rwa [List.length_range', ← Nat.not_lt])] at hhead
    cases hhead
  rw [QKVParallelLinear.queryHeads, List.getElem?_range' hp, Option.some.injEq, Nat.one_mul]
    at hhead
  -- The rank's heads stay within the group's.
  have hgroup : grid.dcpRank rank * qkv.numHeads + qkv.numHeads ≤ ratio * qkv.numKvHeads := by
    rw [hratio, Nat.mul_comm qkv.numHeads, ← Nat.succ_mul]
    exact Nat.mul_le_mul_right _ (grid.dcpRank_lt rank)
  have hstop_le : stop ≤ qkv.numKvHeads := by
    rw [hstop]
    refine Nat.succ_le_of_lt ((Nat.div_lt_iff_lt_mul hpos).mpr ?_)
    rw [Nat.mul_comm qkv.numKvHeads]
    omega
  have hle : start < stop := by
    rw [hstart, hstop]
    exact Nat.lt_succ_of_le (Nat.div_le_div_right (by omega))
  -- Where one ratio expresses the reads, the place of the head in the group gives the head read.
  have hread : start + p / (qkv.numHeads / (stop - start)) =
      (grid.dcpRank rank * qkv.numHeads + p) / ratio := by
    rcases hspan with hwhole | hone
    · have hheads : ratio * (stop - start) = qkv.numHeads := by
        rw [← hwhole, Nat.div_mul_cancel (Nat.dvd_of_mod_eq_zero hmod)]
      have hfirst : grid.dcpRank rank * qkv.numHeads =
          ratio * (grid.dcpRank rank * (stop - start)) := by
        rw [← hheads, Nat.mul_left_comm]
      rw [hwhole, hstart, hfirst, Nat.mul_div_cancel_left _ hpos, Nat.mul_add_div hpos]
    · rw [hone, Nat.div_one, Nat.div_eq_of_lt hp, Nat.add_zero]
      refine Nat.le_antisymm ?_ ?_
      · rw [hstart]
        exact Nat.div_le_div_right (Nat.le_add_right _ _)
      · have hlast : (grid.dcpRank rank * qkv.numHeads + p) / ratio ≤
            (grid.dcpRank rank * qkv.numHeads + qkv.numHeads - 1) / ratio :=
          Nat.div_le_div_right (by omega)
        omega
  have hkvs : PagedAttention.prefillKvs grid qkv attn rank =
      List.range' (grid.kvShardIndex rank * qkv.numKvHeads + start) (stop - start) := by
    simp only [PagedAttention.prefillKvs, hattn, QKVParallelLinear.kvHeads]
    rw [List.take_range'_of_length_ge hstop_le, List.drop_range', Nat.mul_one]
  have hsplit : head = grid.kvShardIndex rank * qkv.numKvHeads * ratio +
      (grid.dcpRank rank * qkv.numHeads + p) := by
    have hrank : rank * qkv.numHeads = grid.kvShardIndex rank * grid.dcpSize * qkv.numHeads +
        grid.dcpRank rank * qkv.numHeads := by
      rw [← Nat.add_mul, rank_eq]
    have hmul : grid.kvShardIndex rank * grid.dcpSize * qkv.numHeads =
        grid.kvShardIndex rank * qkv.numKvHeads * ratio := by
      rw [Nat.mul_assoc, Nat.mul_comm grid.dcpSize, ← hratio, Nat.mul_comm ratio, Nat.mul_assoc]
    omega
  have hdiv : 0 < qkv.numHeads / (stop - start) :=
    Nat.div_pos (Nat.le_of_dvd (by omega) (Nat.dvd_of_mod_eq_zero hmod)) (by omega)
  rw [hkvs, QKVParallelLinear.queryHeads, readHead_range' hdiv
    (Nat.div_mul_cancel (Nat.dvd_of_mod_eq_zero hmod)) hp, ← grid.kvShardCount_mul,
    kvOf_eq hratio (Nat.mul_pos hkv grid.kvShardCount_pos), hsplit, Nat.add_assoc, hread,
    Nat.add_comm _ (_ + p), Nat.add_mul_div_right _ _ hpos, Nat.add_comm]

/-- **Head sharding.** Layers that construct on every rank read the right KV heads under DCP, and
without it exactly when the KV heads divide the query heads. -/
theorem heads_right_iff {attn : Nat → PagedAttention}
    (hqkv : QKVParallelLinear.create grid quant numHeads numKvHeads headDim = .ok qkv)
    (hattn : ∀ rank < grid.tpSize,
      PagedAttention.create grid rank qkv.numKvHeads (some qkv.numHeads) = .ok (attn rank)) :
    HeadsRight grid numHeads numKvHeads headDim qkv attn ↔
      1 < grid.dcpSize ∨ numKvHeads ∣ numHeads := by
  obtain ⟨rfl, rfl, rfl⟩ := QKVParallelLinear.create_inv hqkv
  obtain ⟨hquery, hkvs⟩ := partitions grid qkv
  constructor
  · intro hright
    rw [or_iff_not_imp_left]
    intro hdcp
    have hone : grid.dcpSize = 1 := by have := grid.dcpSize_pos; omega
    have hcount : grid.kvShardCount = grid.tpSize := by
      have := grid.kvShardCount_mul
      rwa [hone, Nat.mul_one] at this
    rw [hcount]
    refine Nat.mul_dvd_mul_right ?_ _
    by_contra hdvd
    have hpos : 0 < qkv.numHeads := Nat.pos_of_ne_zero fun hzero => hdvd (hzero ▸ dvd_zero _)
    have hlast : (PagedAttention.decodeQueries grid qkv 0)[qkv.numHeads - 1]? =
        some (qkv.numHeads - 1) := by
      rw [decodeQueries_eq, hone, TpGrid.kvShardIndex, Nat.zero_div, Nat.one_mul,
        List.getElem?_range' (by omega)]
      simp
    have hread := hright.decode 0 grid.tpSize_pos _ _ hlast
    rw [decodeQueries_eq, hone, Nat.one_mul, QKVParallelLinear.kvHeads, readHead_last hdvd] at hread
    cases hread
  · intro hcond
    refine ⟨fun rank hrank => QKVParallelLinear.loadedRows_query grid _ _ hrank,
      fun rank hrank shardId hshard => QKVParallelLinear.loadedRows_kv grid _ _ hrank hshard,
      hquery, hkvs, ?_, fun rank _ => own_subset grid qkv rank, ?_, ?_⟩
    · intro rank rank' heq
      simp only [QKVParallelLinear.kvHeads, TpGrid.kvShardIndex, heq]
    · intro rank hrank p head hhead
      by_cases hdcp : 1 < grid.dcpSize
      · have hinv := PagedAttention.create_inv (hattn rank hrank)
        rw [if_pos hdcp] at hinv
        obtain ⟨start, stop, hrange, -⟩ := hinv
        obtain ⟨ratio, hpos, -, hratio, -⟩ := dcpKvHeadRange_inv hrange
        exact decode_right hpos hratio hhead
      · exact decode_alone hdcp (hcond.resolve_left hdcp) hhead
    · intro rank hrank p head hhead
      have hinv := PagedAttention.create_inv (hattn rank hrank)
      by_cases hdcp : 1 < grid.dcpSize
      · rw [if_pos hdcp] at hinv
        obtain ⟨start, stop, hrange, hkept⟩ := hinv
        obtain ⟨ratio, hpos, hkv, hratio, hstart, hstop, hmod, hspan⟩ := dcpKvHeadRange_inv hrange
        exact prefill_right hpos hratio hkv hstart hstop hmod hspan hkept hhead
      · -- Without DCP prefill reads what decode does.
        rw [if_neg hdcp] at hinv
        have hqueries : PagedAttention.decodeQueries grid qkv rank = qkv.queryHeads rank :=
          if_neg hdcp
        rw [← hqueries] at hhead ⊢
        have hread := decode_alone hdcp (hcond.resolve_left hdcp) hhead
        simpa only [PagedAttention.prefillKvs, hinv] using hread

/-- Four ranks in two DCP groups, eight query heads over two KV heads. -/
def fourRanks : TpGrid where
  tpSize := 4
  dcpSize := 2
  tpSize_pos := by decide
  dcpSize_dvd := by decide

/-- A rank on its own. -/
def oneRank : TpGrid where
  tpSize := 1
  dcpSize := 1
  tpSize_pos := by decide
  dcpSize_dvd := by decide

theorem heads_right_iff_four :
    HeadsRight fourRanks 8 2 16 ⟨2, 1, 16, 32, 16, 192⟩ fun _ => ⟨1, some (0, 1)⟩ := by
  have hqkv : QKVParallelLinear.create fourRanks none 8 2 16 = .ok ⟨2, 1, 16, 32, 16, 192⟩ := rfl
  have hattn : ∀ rank < fourRanks.tpSize, PagedAttention.create fourRanks rank 1 (some 2) =
      .ok ⟨1, some (0, 1)⟩ := by decide
  exact (heads_right_iff hqkv hattn).mpr (Or.inl (by decide))

/-- Three query heads over two KV heads construct on one rank, and the last of them reads a
third KV head. -/
theorem three_heads_read_past :
    QKVParallelLinear.create oneRank none 3 2 16 = .ok ⟨3, 2, 16, 48, 32, 112⟩ ∧
      PagedAttention.create oneRank 0 2 (some 3) = .ok ⟨2, none⟩ ∧
      ¬ HeadsRight oneRank 3 2 16 ⟨3, 2, 16, 48, 32, 112⟩ fun _ => ⟨2, none⟩ := by
  refine ⟨rfl, rfl, ?_⟩
  intro hright
  have hread := hright.decode 0 (by decide) 2 2 rfl
  revert hread
  decide

end Layers

end RapidLlm
