import RapidLlm.Distributed.Dcp
import RapidLlm.Kernels.FlashDecodingExact

/-!
# RapidLlm.Distributed.DcpMerge

**Decode attention over a history dealt to several ranks** (`merge_attention_partials` and
`merge_dcp_attention` of `distributed/dcp.py`, and the call of `flash_decoding` in
`modules/attention.py`).

Every rank holds all query heads of the group and a share of the positions. It attends over its
share through a strided view of its table, and the group then combines the normalised parts by
their log-sum-exps: `ag_rs` gathers these, weights the local output and reduce-scatters the heads,
`a2a` exchanges chunks of heads and combines them locally. `decode_eq_softmax` says that either
gives each rank, for the heads it keeps, what one call over the whole history would have given,
also where some shares are empty.
-/

namespace RapidLlm

open Floating Tiling

variable {K : Type*} [Field K] [LinearOrder K] [Exponential K]

/-! ### The merge -/

/-- `merge_attention_partials`, of one row and head. -/
def mergeAttentionPartials (ranks : Nat) (partials : Nat → Partial K) : Partial K :=
  let globalLse := logSumExp ranks fun r => (partials r).lse
  let weights := fun r =>
    if globalLse.isFinite then exp ((partials r).lse - globalLse) else num 0
  ⟨fun d => ∑ r ∈ Finset.range ranks, (partials r).out d * weights r, globalLse⟩

/-- `all_to_all` along the first dimension, of size `rows`: chunk `rank` of every rank's tensor,
in the order of the ranks. -/
def dcpAllToAll {A : Type*} (worldSize rows rank : Nat) (tensors : Nat → Nat → A) : Nat → A :=
  let chunk := rows / worldSize
  fun i => tensors (i / chunk) (rank * chunk + i % chunk)

/-- `reduce_scatter` along the heads: the sums of all ranks, the shard of this one. -/
def reduceScatterHeads {A : Type*} [AddCommMonoid A] (worldSize rows rank : Nat)
    (tensors : Nat → Nat → A) : Nat → A :=
  fun i => ∑ r ∈ Finset.range worldSize, tensors r (rank * (rows / worldSize) + i)

/-- The size check of `_validate_local_partials`. -/
def validateLocalPartials (heads worldSize : Nat) : Except Raised Nat :=
  if heads % worldSize ≠ 0 then
    .error (.valueError (s!"DCP query heads {heads} must be divisible by " ++
      s!"decode_context_parallel_size={worldSize}"))
  else .ok (heads / worldSize)

/-- `merge_dcp_attention` on one rank, with what the ranks bring to the collectives: for each its
local output and log-sum-exp by row and head. `configured` is what `get_dcp_comm_backend`
returns. -/
def mergeDcpAttention (worldSize rank heads : Nat) (configured : String) (backend : Option String)
    (partials : Nat → Nat → Nat → Partial K) : Except Raised (Nat → Nat → Partial K) :=
  if worldSize ≤ 1 then .ok (partials rank)
  else
    match validateLocalPartials heads worldSize with
    | .error raised => .error raised
    | .ok headsPerRank =>
      let backend := backend.getD configured
      if backend = "ag_rs" then
        let globalLse := fun b h => logSumExp worldSize fun r => (partials r b h).lse
        let weights := fun r b h =>
          if (globalLse b h).isFinite then exp ((partials r b h).lse - globalLse b h) else num 0
        let weighted := fun r h b d => (partials r b h).out d * weights r b h
        let output := reduceScatterHeads worldSize heads rank weighted
        .ok fun b j => ⟨output j b, globalLse b (rank * headsPerRank + j)⟩
      else if backend = "a2a" then
        let exchanged := dcpAllToAll worldSize heads rank fun r h b => partials r b h
        -- `reshape(world, heads_per_rank, ...)`, then the batch in front of the heads
        let lanes := fun r b j => exchanged (r * headsPerRank + j) b
        .ok fun b j => mergeAttentionPartials worldSize fun r => lanes r b j
      else
        .error (.valueError
          s!"unknown DCP communication backend {backend}; choose from ag_rs, a2a")

/-! ### The ranks' calls -/

/-- What a rank caches: its memory, and its table of the whole sequence. -/
structure RankCache (K : Type*) where
  caches : KvCaches K
  kStrides : Strides
  vStrides : Strides
  table : RowTable

/-- Two results that no lane of a head tells apart. -/
def Partial.Agrees {K : Type*} (headDim : Nat) (result other : Partial K) : Prop :=
  result.lse = other.lse ∧ ∀ d < headDim, result.out d = other.out d

namespace DecodeCall

/-- The call of `flash_decoding` that `_dcp_decode` makes on `rank`. -/
def onRank (call : DecodeCall K) (cache : RankCache K) (rank size : Nat) : DecodeCall K :=
  { call with
    caches := cache.caches
    kStrides := cache.kStrides
    vStrides := cache.vStrides
    bReqTokensTable := cache.table.columns rank size
    bSeqLen := fun b => dcpLocalSeqLen (call.bSeqLen b) rank size
    maxActualSeqLen := dcpLocalSeqLen call.maxActualSeqLen 0 size }

/-- The history of `call` dealt round-robin: a position is in the cache of the rank that owns it,
at the row of that rank's table. -/
structure Dealt (call : DecodeCall K) (size : Nat) (cache : Nat → RankCache K) : Prop where
  sameLayout : ∀ r < size, (cache r).vStrides = (cache r).kStrides
  sameDtype : ∀ r < size, (cache r).caches.kvFp8 = call.caches.kvFp8
  key : ∀ b < call.batchs, ∀ n < call.bSeqLen b, ∀ kvHead < call.numKvHeads, ∀ d < call.headDim,
    (cache (n % size)).caches.key call.kScale ((cache (n % size)).kStrides.offset
        ((cache (n % size)).table.row (call.bReqIdx b) n) kvHead d) =
      call.caches.key call.kScale (call.kStrides.offset (call.rowOf b n) kvHead d)
  value : ∀ b < call.batchs, ∀ n < call.bSeqLen b, ∀ kvHead < call.numKvHeads, ∀ d < call.headDim,
    (cache (n % size)).caches.value call.vScale ((cache (n % size)).vStrides.offset
        ((cache (n % size)).table.row (call.bReqIdx b) n) kvHead d) =
      call.caches.value call.vScale (call.vStrides.offset (call.rowOf b n) kvHead d)

variable {call : DecodeCall K} {cache : Nat → RankCache K} {size rank : Nat}

omit [LinearOrder K] [Exponential K] in
/-- A rank's call is one the kernels are promised. -/
theorem Dealt.promised (h : call.Dealt size cache) (hpromised : call.Promised)
    (hrank : rank < size) : (call.onRank (cache rank) rank size).Promised where
  sameLayout := h.sameLayout rank hrank
  unscaled hfp8 := hpromised.unscaled ((h.sameDtype rank hrank).symm.trans hfp8)
  bounded b hb := by
    have hpos : 0 < size := Nat.zero_lt_of_lt hrank
    change dcpLocalSeqLen (call.bSeqLen b) rank size ≤ dcpLocalSeqLen call.maxActualSeqLen 0 size
    rw [dcpLocalSeqLen_eq hrank, dcpLocalSeqLen_eq hpos]
    exact (RoundRobin.share_anti (Nat.zero_le rank)).trans
      (RoundRobin.share_mono (hpromised.bounded b hb))

/-- Position `j` of a rank's view is position `rank + j * size` of the history, with the same
weight and, on the lanes of a head, the same value. -/
theorem Dealt.position (h : call.Dealt size cache) (hrank : rank < size) {b : Nat}
    (hb : b < call.batchs) {head : Nat} (hhead : head < call.numHeads) {j : Nat}
    (hj : j < RoundRobin.share size rank (call.bSeqLen b)) :
    ((call.onRank (cache rank) rank size).position b head j).1 =
        (call.position b head (rank + j * size)).1 ∧
      ∀ d < call.headDim, ((call.onRank (cache rank) rank size).position b head j).2 d =
        (call.position b head (rank + j * size)).2 d := by
  have hlt := RoundRobin.position_lt hrank hj
  have howner : (rank + j * size) % size = rank := by
    rw [Nat.add_mul_mod_self_right, Nat.mod_eq_of_lt hrank]
  have hkey := h.key b hb _ hlt _ (kvHead_lt hhead)
  have hvalue := h.value b hb _ hlt _ (kvHead_lt hhead)
  rw [howner] at hkey hvalue
  have hrow : (call.onRank (cache rank) rank size).rowOf b j =
      (cache rank).table.row (call.bReqIdx b) (rank + j * size) :=
    RowTable.columns_row _ _ _ _ _
  have hscore : (call.onRank (cache rank) rank size).score b head j =
      call.score b head (rank + j * size) := by
    refine congrArg (call.qkScale * ·) (Finset.sum_congr rfl fun d hd => ?_)
    refine congrArg (call.q b head d * ·) (Eq.trans ?_ (hkey d (Finset.mem_range.mp hd)))
    rw [DecodeCall.key, hrow]
    rfl
  refine ⟨congrArg Exponential.exp hscore, fun d hd => ?_⟩
  refine congrArg₂ (· * ·) (congrArg Exponential.exp hscore) (Eq.trans ?_ (hvalue d hd))
  rw [DecodeCall.value, hrow]
  rfl

/-- The shares of the ranks add up to the history. -/
theorem Dealt.sum_history (h : call.Dealt size cache) (hsize : 0 < size) {b : Nat}
    (hb : b < call.batchs) {head : Nat} (hhead : head < call.numHeads) :
    (∑ r ∈ Finset.range size, (call.onRank (cache r) r size).history b head).1 =
        (call.history b head).1 ∧
      ∀ d < call.headDim,
        (∑ r ∈ Finset.range size, (call.onRank (cache r) r size).history b head).2 d =
          (call.history b head).2 d := by
  have hlen : ∀ r < size, (call.onRank (cache r) r size).bSeqLen b =
      RoundRobin.share size r (call.bSeqLen b) := fun r hr => dcpLocalSeqLen_eq hr
  constructor
  · have hdeal := RoundRobin.sum_deal hsize (fun n => (call.position b head n).1) (call.bSeqLen b)
    rw [Total.sum_fst, history_fst, ← hdeal]
    refine Finset.sum_congr rfl fun r hr => ?_
    have hr := Finset.mem_range.mp hr
    rw [history_fst, hlen r hr]
    exact Finset.sum_congr rfl fun j hj =>
      (h.position hr hb hhead (Finset.mem_range.mp hj)).1
  · intro d hd
    have hdeal := RoundRobin.sum_deal hsize (fun n => (call.position b head n).2 d)
      (call.bSeqLen b)
    rw [Total.sum_snd, history_snd, ← hdeal]
    refine Finset.sum_congr rfl fun r hr => ?_
    have hr := Finset.mem_range.mp hr
    rw [history_snd, hlen r hr]
    exact Finset.sum_congr rfl fun j hj =>
      (h.position hr hb hhead (Finset.mem_range.mp hj)).2 d hd

variable [IsStrictOrderedRing K]

/-- What the ranks' shares amount to together is the softmax of the whole row. -/
theorem Dealt.agrees (h : call.Dealt size cache) (hsize : 0 < size) {b : Nat}
    (hb : b < call.batchs) {head : Nat} (hhead : head < call.numHeads) :
    (Partial.of (∑ r ∈ Finset.range size, (call.onRank (cache r) r size).history b head)).Agrees
      call.headDim (call.softmaxRow b head) := by
  obtain ⟨hfst, hsnd⟩ := h.sum_history hsize hb hhead
  rw [← of_history]
  refine ⟨?_, fun d hd => ?_⟩
  · change Total.lse _ = Total.lse _
    rw [Total.lse, Total.lse, hfst]
  · change Total.softmax _ d = Total.softmax _ d
    rw [Total.softmax, Total.softmax, hfst, hsnd d hd]

/-- The ranks' results, merged. -/
theorem merged_eq {b head : Nat} {partials : Nat → Partial K}
    (hpartials : ∀ r < size, partials r = (call.onRank (cache r) r size).softmaxRow b head) :
    mergeAttentionPartials size partials =
      .of (∑ r ∈ Finset.range size, (call.onRank (cache r) r size).history b head) := by
  have hproper : ∀ r < size, ((call.onRank (cache r) r size).history b head).Proper := fun r _ =>
    Total.proper_sum _ _ _
  have hpart : ∀ r ∈ Finset.range size,
      partials r = .of ((call.onRank (cache r) r size).history b head) := fun r hr =>
    (hpartials r (Finset.mem_range.mp hr)).trans (of_history _ b head).symm
  have hlse : logSumExp size (fun r => (partials r).lse) =
      (∑ r ∈ Finset.range size, (call.onRank (cache r) r size).history b head).lse := by
    rw [← logSumExp_parts hproper]
    refine congrArg log (Finset.sum_congr rfl fun r hr => ?_)
    exact congrArg (fun part => exp part.lse) (hpart r hr)
  unfold mergeAttentionPartials
  dsimp only
  rw [hlse]
  refine Partial.ext (funext fun d => Eq.trans ?_ (merged hproper d)) rfl
  change ∑ r ∈ Finset.range size, (partials r).out d * mergeWeight _ (partials r).lse = _
  refine Finset.sum_congr rfl fun r hr => ?_
  rw [hpart r hr]
  rfl

end DecodeCall

/-! ### Both backends -/

omit [LinearOrder K] [Exponential K] [Field K] in
/-- Row `r * chunk + j` after the exchange is row `j` of the chunk that rank `r` sent. -/
theorem dcpAllToAll_row {A : Type*} {worldSize rows : Nat} (rank r : Nat) {j : Nat}
    (hj : j < rows / worldSize) (tensors : Nat → Nat → A) :
    dcpAllToAll worldSize rows rank tensors (r * (rows / worldSize) + j) =
      tensors r (rank * (rows / worldSize) + j) := by
  unfold dcpAllToAll
  rw [(div_mod_of_lt hj).1, (div_mod_of_lt hj).2]

omit [LinearOrder K] [Exponential K] in
theorem reduceScatterHeads_apply {worldSize rows : Nat} (rank j b d : Nat)
    (tensors : Nat → Nat → Nat → Nat → Floating K) :
    reduceScatterHeads worldSize rows rank tensors j b d =
      ∑ r ∈ Finset.range worldSize, tensors r (rank * (rows / worldSize) + j) b d := by
  rw [reduceScatterHeads, Finset.sum_apply, Finset.sum_apply]

/-- Either backend merges the parts of the heads a rank keeps. -/
theorem mergeDcpAttention_eq {worldSize heads : Nat} {configured : String}
    {backend : Option String} (rank : Nat) (partials : Nat → Nat → Nat → Partial K)
    (hworld : 1 < worldSize) (hheads : worldSize ∣ heads)
    (hbackend : backend.getD configured = "ag_rs" ∨ backend.getD configured = "a2a") :
    ∃ result, mergeDcpAttention worldSize rank heads configured backend partials = .ok result ∧
      ∀ b, ∀ j < heads / worldSize, result b j = mergeAttentionPartials worldSize fun r =>
        partials r b (rank * (heads / worldSize) + j) := by
  have hvalid : validateLocalPartials heads worldSize = .ok (heads / worldSize) :=
    if_neg (not_not.mpr (Nat.mod_eq_zero_of_dvd hheads))
  unfold mergeDcpAttention
  rw [if_neg (Nat.not_le.mpr hworld), hvalid]
  rcases hbackend with hbackend | hbackend
  · refine ⟨_, if_pos hbackend, fun b j _ => Partial.ext (funext fun d => ?_) rfl⟩
    exact reduceScatterHeads_apply rank j b d fun r h b d => (partials r b h).out d *
      mergeWeight (logSumExp worldSize fun r => (partials r b h).lse) (partials r b h).lse
  · refine ⟨_, (if_neg (by rw [hbackend]; decide)).trans (if_pos hbackend), fun b j hj => ?_⟩
    refine congrArg (mergeAttentionPartials worldSize) (funext fun r => ?_)
    exact congrFun (dcpAllToAll_row rank r hj _) b

variable [IsStrictOrderedRing K]

/-- **Split-KV decode, merged over a group, is one softmax.** Whatever the environment, a call
returns the softmax over the whole history of every row and head, and stage 2 loads only what
stage 1 stored. The ranks of a group that the history is dealt to each get, for the heads they
keep, that of the undivided history, through either backend. -/
theorem decode_eq_softmax (call : DecodeCall K) (hpromised : call.Promised) :
    (∀ env, ∃ outcomes, call.flashDecoding env = .ok outcomes ∧ (∃ out, outcomes out) ∧
      ∀ out, outcomes out → ∀ b < call.batchs, ∀ h < call.numHeads,
        out (b, h) = some (call.softmaxRow b h)) ∧
    (∀ env mid,
      call.Stage1 (call.partitionSize env) (call.caches.kernelScale call.kScale)
          (call.caches.kernelScale call.vScale) (call.packed env) mid →
        ∀ b < call.batchs, ∀ h < call.numHeads,
          (call.stage2Program (call.partitionSize env) mid (b, h)).isSome) ∧
    ∀ size > 0, size ∣ call.numHeads → ∀ cache, call.Dealt size cache →
      ∀ (env : Nat → DecodeEnv) (locals : Nat → Nat → Nat → Partial K),
        (∀ r < size, (call.onRank (cache r) r size).Returns (env r) (locals r)) →
        ∀ (configured : String) (backend : Option String),
          backend.getD configured = "ag_rs" ∨ backend.getD configured = "a2a" →
          ∀ rank < size, ∃ result,
            mergeDcpAttention size rank call.numHeads configured backend locals = .ok result ∧
            ∀ b < call.batchs, ∀ j < call.numHeads / size,
              (result b j).Agrees call.headDim
                (call.softmaxRow b (rank * (call.numHeads / size) + j)) := by
  refine ⟨DecodeCall.flashDecoding_softmax hpromised, fun env mid hmid b hb h hh => ?_, ?_⟩
  · rw [DecodeCall.stage2_defined hpromised env hmid hb hh]
    rfl
  · intro size hsize hdvd cache hdealt env locals hlocals configured backend hbackend rank hrank
    have hlocal : ∀ b < call.batchs, ∀ h < call.numHeads, ∀ r < size,
        locals r b h = (call.onRank (cache r) r size).softmaxRow b h := fun b hb h hh r hr =>
      (hlocals r hr).eq (hdealt.promised hpromised hr) hb hh
    have hhead : ∀ j < call.numHeads / size,
        rank * (call.numHeads / size) + j < call.numHeads := fun j hj => by
      have hmul := Nat.mul_div_cancel' hdvd
      have hle := Nat.mul_le_mul_right (call.numHeads / size) (Nat.succ_le_of_lt hrank)
      rw [Nat.succ_mul] at hle
      omega
    rcases Nat.lt_or_ge 1 size with hworld | hworld
    · obtain ⟨result, hresult, hmerged⟩ :=
        mergeDcpAttention_eq rank locals hworld hdvd hbackend
      refine ⟨result, hresult, fun b hb j hj => ?_⟩
      rw [hmerged b j hj, DecodeCall.merged_eq fun r hr => hlocal b hb _ (hhead j hj) r hr]
      exact hdealt.agrees hsize hb (hhead j hj)
    · -- a group of one keeps its local result, and its share is the history
      obtain rfl : size = 1 := by omega
      obtain rfl : rank = 0 := by omega
      refine ⟨locals 0, if_pos le_rfl, fun b hb j hj => ?_⟩
      have hall := hdealt.agrees hsize hb (hhead j hj)
      rw [Finset.sum_range_one, DecodeCall.of_history] at hall
      rw [hlocal b hb j (by simpa using hhead j hj) 0 hsize]
      simpa using hall

/-! ### Two ranks -/

/-- Two rows of histories 3 and 0, four query heads on one KV head, cache row `n` holding the
numbers from `16 * n`. -/
def twoRows : DecodeCall ℝ where
  numHeads := 4
  numKvHeads := 1
  headDim := 16
  grouped := one_dvd 4
  batchs := 2
  q := fun b h d => b + h + d
  caches := .unquantized (fun addr => addr) fun addr => addr
  kStrides := ⟨16, 16, 1⟩
  vStrides := ⟨16, 16, 1⟩
  qkScale := 1
  bReqTokensTable := ⟨fun addr => addr % 8, 0, 8, 1⟩
  bReqIdx := fun b => b
  bSeqLen := fun b => if b = 0 then 3 else 0
  maxActualSeqLen := 3
  kScale := 1
  vScale := 1

/-- Rank `r` of two packs the rows of its positions densely. -/
def halfCache (r : Nat) : RankCache ℝ where
  caches := .unquantized (fun addr => ((addr / 16 * 2 + r) * 16 + addr % 16 : ℕ))
    fun addr => ((addr / 16 * 2 + r) * 16 + addr % 16 : ℕ)
  kStrides := ⟨16, 16, 1⟩
  vStrides := ⟨16, 16, 1⟩
  table := ⟨fun addr => addr % 8 / 2, 0, 8, 1⟩

theorem twoRows_promised : twoRows.Promised where
  sameLayout := rfl
  unscaled _ := ⟨rfl, rfl⟩
  bounded b _ := by
    change (if b = 0 then 3 else 0) ≤ 3
    split <;> omega

theorem twoRows_dealt : twoRows.Dealt 2 halfCache := by
  have hrow : ∀ b < 2, ∀ n < twoRows.bSeqLen b, ∀ kvHead < 1, ∀ d < 16,
      ((((0 + (8 * b + n * 1)) % 8 / 2 * 16 + (kvHead * 16 + d * 1)) / 16 * 2 + n % 2) * 16 +
          ((0 + (8 * b + n * 1)) % 8 / 2 * 16 + (kvHead * 16 + d * 1)) % 16 : ℕ) =
        (0 + (8 * b + n * 1)) % 8 * 16 + (kvHead * 16 + d * 1) := by
    intro b _ n hn kvHead hkv d hd
    have hlt : n < 3 := hn.trans_le (twoRows_promised.bounded b ‹_›)
    obtain rfl : kvHead = 0 := by omega
    omega
  exact {
    sameLayout := fun _ _ => rfl
    sameDtype := fun _ _ => rfl
    key := fun b hb n hn kvHead hkv d hd =>
      congrArg (fun addr : Nat => (addr : ℝ)) (hrow b hb n hn kvHead hkv d hd)
    value := fun b hb n hn kvHead hkv d hd =>
      congrArg (fun addr : Nat => (addr : ℝ)) (hrow b hb n hn kvHead hkv d hd) }

/-- Rank 1 gets heads 2 and 3 of both rows; its own share of row 0 is one position, and the
second row is empty on every rank. -/
theorem twoRanks_eq_softmax : ∃ result,
    mergeDcpAttention 2 1 4 "ag_rs" none
        (fun r => (twoRows.onRank (halfCache r) r 2).softmaxRow) = .ok result ∧
      ∀ b < 2, ∀ j < 2, (result b j).Agrees 16 (twoRows.softmaxRow b (1 * 2 + j)) :=
  (decode_eq_softmax twoRows twoRows_promised).2.2 2 two_pos ⟨2, rfl⟩ halfCache twoRows_dealt
    (fun _ => ⟨none, none, fun _ => none, 72⟩) _
    (fun _ hr => (twoRows_dealt.promised twoRows_promised hr).returns _) "ag_rs" none
    (.inl rfl) 1 one_lt_two

end RapidLlm
