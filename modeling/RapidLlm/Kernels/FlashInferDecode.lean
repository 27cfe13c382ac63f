import Mathlib.Algebra.Group.Action.Defs
import RapidLlm.Lib.Grouping
import RapidLlm.Lib.Segments
import RapidLlm.BatchOverlap.TboSplitter

/-!
# RapidLlm.Kernels.FlashInferDecode

**Decode attention through FlashInfer** (`kernels/backend/flashinfer/attention.py`): the plan of a
step, made once by `prepare_decode`, and the calls of its layers.

A decode wrapper attends, for query row `i`, the cache rows `indices[indptr[i] : indptr[i + 1]]` of
whatever was planned last. `prepareDecode_window` says that the fixed-shape scatter plans the rows
the step's metadata names. A call that finds a plan pending runs it and looks at nothing else: not
at its own metadata, which is that of the step or of a half of it, nor at its head layout.
`decodeAttention_attends_iff` is when that is right, after any sequence of calls.
-/

namespace RapidLlm

open Segments

/-- A dtype of a query or of a cache. -/
inductive AttentionDtype
  | bf16
  | fp16
  | fp8
  deriving DecidableEq, Repr

/-- `_last_decode_shape`: what a plan has to be told beside the pages. -/
structure HeadLayout where
  numQoHeads : Nat
  numKvHeads : Nat
  headDim : Nat
  qDtype : AttentionDtype
  kvDtype : AttentionDtype
  smScale : Rat
  deriving DecidableEq

/-- `b_req_tokens_table`: a cache row for each slot and position. -/
structure TokensTable where
  width : Nat
  rows : List (List CacheRow)
  wide : ∀ row ∈ rows, row.length = width

/-- The metadata of a decode pass: its slots are in the table, its lengths within the table's width,
and the host's mirror of them, where there is one, shows the same (`installed_ledger`). -/
structure DecodeMetadata where
  bReqTokensTable : TokensTable
  bReqIdx : List Nat
  bSeqLen : List Nat
  bSeqLenCpu : Option (List Nat)
  nonempty : bReqIdx ≠ []
  named : ∀ slot ∈ bReqIdx, slot < bReqTokensTable.rows.length
  paired : bSeqLen.length = bReqIdx.length
  within : ∀ len ∈ bSeqLen, len ≤ bReqTokensTable.width
  ledger : ∀ lens, bSeqLenCpu = some lens → lens = bSeqLen

namespace DecodeMetadata

variable (info : DecodeMetadata) (i : Nat)

def batch : Nat := info.bReqIdx.length

/-- `b_req_tokens_table[b_req_idx[i]]`. -/
def tableRow : List CacheRow := info.bReqTokensTable.rows.getD (info.bReqIdx.getD i 0) []

/-- **The cache rows a row of the pass attends**:
`b_req_tokens_table[b_req_idx[i], :b_seq_len[i]]`. -/
def window : List CacheRow := (info.tableRow i).take (info.bSeqLen.getD i 0)

end DecodeMetadata

/-! ### Plans -/

/-- What `BatchDecodeWithPagedKVCacheWrapper.plan` is given. -/
structure DecodePlan where
  indptr : List Nat
  indices : List CacheRow
  lastPageLen : List Nat
  layout : HeadLayout

/-- The rows `run` attends for a query row. A row the plan has no pages for attends whatever is
there. -/
def DecodePlan.attended (plan : DecodePlan) (i : Nat) : Option (List CacheRow) :=
  match plan.indptr[i]?, plan.indptr[i + 1]? with
  | some start, some stop => some ((plan.indices.take stop).drop start)
  | _, _ => none

/-- Zero and the running sums of the lengths. -/
def indptrOf (lens : List Nat) : List Nat :=
  (List.range (lens.length + 1)).map fun i => (lens.take i).sum

/-- `paged_kv_indices_gpu`: the pages of all rows one after another, in a buffer of fixed shape.
`garbage` is what the buffer holds before; positions past a window go to the sink at its end. -/
def pagedKvIndicesGpu (garbage : Nat → CacheRow) (info : DecodeMetadata) (pageSize : Nat) :
    Except Raised (List CacheRow × List Nat × List Nat) :=
  if pageSize ≠ 1 then
    .error (.notImplementedError s!"page_size {pageSize}: pack pages with a div/mod pass first")
  else
    let width := info.bReqTokensTable.width
    let pages := info.bSeqLen.take info.batch
    let indptr := indptrOf pages
    let total := info.batch * width
    let safe := fun cell : Nat =>
      if cell % width < pages.getD (cell / width) 0 then indptr.getD (cell / width) 0 + cell % width
      else total
    let value := fun cell : Nat => (info.tableRow (cell / width)).getD (cell % width) 0
    let indices := scatter total safe value (Function.update garbage total 0)
    .ok ((List.range (total + 1)).map indices, indptr, List.replicate info.batch 1)

/-- What `decode_attention` is given beside the metadata. -/
structure DecodeQuery where
  layout : HeadLayout
  kScale : Rat
  vScale : Rat

/-- What a call makes: the cache rows each of its query rows has attended, and with what. -/
structure DecodeResult where
  attended : List (Option (List CacheRow))
  layout : HeadLayout
  kScale : Rat
  vScale : Rat

/-- The state of the module: the last plan of the decode wrapper, `_last_decode_shape` and
`_planned_pending`. -/
structure FlashInferDecode where
  planned : Option DecodePlan
  lastDecodeShape : Option HeadLayout
  plannedPending : Bool

namespace FlashInferDecode

variable (s : FlashInferDecode)

/-- `_reset_cache`. -/
def reset : FlashInferDecode := ⟨none, none, false⟩

/-- `prepare_decode`. -/
def prepareDecode (garbage : Nat → CacheRow) (info : DecodeMetadata) :
    Except Raised Unit × FlashInferDecode :=
  let s := { s with plannedPending := false }
  let seqLens := (info.bSeqLenCpu.getD info.bSeqLen).take info.batch
  match pagedKvIndicesGpu garbage info 1 with
  | .error e => (.error e, s)
  | .ok (kvIndices, _, _) =>
    match s.lastDecodeShape with
    | none => (.ok (), s)
    | some layout =>
      let plan : DecodePlan :=
        ⟨indptrOf seqLens, kvIndices, List.replicate info.batch 1, layout⟩
      (.ok (), { s with planned := some plan, plannedPending := true })

/-- `wrapper.run`, for this many query rows. -/
def run (query : DecodeQuery) (batch : Nat) : Except Raised DecodeResult :=
  match s.planned with
  | none => .error (.runtimeError "plan() must be called before run()")
  | some plan =>
    .ok ⟨(List.range batch).map plan.attended, plan.layout, query.kScale, query.vScale⟩

/-- `decode_attention`. -/
def decodeAttention (query : DecodeQuery) (info : DecodeMetadata) :
    Except Raised DecodeResult × FlashInferDecode :=
  if s.plannedPending then (s.run query info.batch, s)
  else
    let seqLens := info.bSeqLen.take info.batch
    let rows := (List.range info.batch).map fun i => (info.tableRow i).take (seqLens.getD i 0)
    let plan : DecodePlan :=
      ⟨indptrOf seqLens, rows.flatten, List.replicate info.batch 1, query.layout⟩
    let s : FlashInferDecode :=
      { s with planned := some plan, lastDecodeShape := some query.layout }
    (s.run query info.batch, s)

end FlashInferDecode

/-! ### What a plan attends -/

theorem sum_take_mono (lens : List Nat) {i k : Nat} (h : i ≤ k) :
    (lens.take i).sum ≤ (lens.take k).sum :=
  List.Sublist.sum_le_sum (List.take_sublist_take_left h) fun _ _ => Nat.zero_le _

theorem sum_take_succ (lens : List Nat) (i : Nat) :
    (lens.take (i + 1)).sum = (lens.take i).sum + lens.getD i 0 := by
  rw [List.take_add_one, List.sum_append, List.getD_eq_getElem?_getD]
  cases lens[i]? <;> simp

theorem indptrOf_getElem? (lens : List Nat) (i : Nat) :
    (indptrOf lens)[i]? = if i ≤ lens.length then some (lens.take i).sum else none := by
  unfold indptrOf
  split
  · next h => simp [Nat.lt_succ_of_le h]
  · next h =>
    refine List.getElem?_eq_none ?_
    rw [List.length_map, List.length_range]
    exact Nat.lt_of_not_le h

namespace DecodeMetadata

variable {info : DecodeMetadata} {i j : Nat}

theorem take_bSeqLen (info : DecodeMetadata) : info.bSeqLen.take info.batch = info.bSeqLen :=
  List.take_of_length_le (le_of_eq info.paired)

theorem tableRow_length (hi : i < info.batch) :
    (info.tableRow i).length = info.bReqTokensTable.width := by
  have hslot : info.bReqIdx.getD i 0 < info.bReqTokensTable.rows.length := by
    rw [List.getD_eq_getElem _ _ hi]
    exact info.named _ (List.getElem_mem hi)
  rw [tableRow, List.getD_eq_getElem _ _ hslot]
  exact info.bReqTokensTable.wide _ (List.getElem_mem hslot)

theorem len_le (hi : i < info.batch) : info.bSeqLen.getD i 0 ≤ info.bReqTokensTable.width := by
  have hlen : i < info.bSeqLen.length := info.paired ▸ hi
  rw [List.getD_eq_getElem _ _ hlen]
  exact info.within _ (List.getElem_mem hlen)

theorem window_length (hi : i < info.batch) : (info.window i).length = info.bSeqLen.getD i 0 := by
  rw [window, List.length_take, tableRow_length hi, Nat.min_eq_left (len_le hi)]

end DecodeMetadata

/-- **The plan of a pass**: row by row it attends what the metadata names, and nothing is planned
beyond its rows. -/
def DecodePlan.For (plan : DecodePlan) (info : DecodeMetadata) : Prop :=
  ∀ i, plan.attended i = if i < info.batch then some (info.window i) else none

/-- A plan is for a pass when its windows are delimited by the lengths and hold its rows. -/
theorem DecodePlan.for_of_slices {plan : DecodePlan} {info : DecodeMetadata}
    (hindptr : plan.indptr = indptrOf info.bSeqLen)
    (hindices : ∀ i < info.batch,
      (plan.indices.take (info.bSeqLen.take (i + 1)).sum).drop (info.bSeqLen.take i).sum =
        info.window i) : plan.For info := by
  intro i
  have hbatch : info.bSeqLen.length = info.batch := info.paired
  rw [attended, hindptr, indptrOf_getElem?, indptrOf_getElem?, hbatch]
  by_cases hi : i < info.batch
  · rw [if_pos (Nat.le_of_lt hi), if_pos (Nat.succ_le_of_lt hi), if_pos hi]
    exact congrArg some (hindices i hi)
  · rw [if_neg (fun h => hi (Nat.lt_of_succ_le h)), if_neg hi]
    split
    · next h => cases h
    · rfl

/-- The pages of the per-call path, one row's after another's. -/
theorem flatten_slice (info : DecodeMetadata) {i : Nat} (hi : i < info.batch) :
    ((((List.range info.batch).map info.window).flatten).take
        (info.bSeqLen.take (i + 1)).sum).drop (info.bSeqLen.take i).sum = info.window i := by
  have hoffset : ((List.range i).flatMap info.window).length = (info.bSeqLen.take i).sum := by
    induction i with
    | zero => simp
    | succ i ih =>
      rw [List.range_succ, List.flatMap_append, List.length_append,
        ih (Nat.lt_of_succ_lt hi), List.flatMap_singleton,
        DecodeMetadata.window_length (Nat.lt_of_succ_lt hi), sum_take_succ]
  rw [← List.flatMap_def, sum_take_succ, ← DecodeMetadata.window_length hi,
    Rectangle.slice_flatMap hi hoffset (Nat.le_refl _), List.take_length]

/-- **The pages of the scatter.** Whatever was in the buffer, the window of a row holds its rows. -/
theorem scatter_slice (garbage : Nat → CacheRow) (info : DecodeMetadata)
    {indices : List CacheRow} {indptr lastPageLen : List Nat}
    (h : pagedKvIndicesGpu garbage info 1 = .ok (indices, indptr, lastPageLen)) {i : Nat}
    (hi : i < info.batch) :
    (indices.take (info.bSeqLen.take (i + 1)).sum).drop (info.bSeqLen.take i).sum =
      info.window i := by
  rw [pagedKvIndicesGpu, if_neg (by simp)] at h
  obtain ⟨rfl, -⟩ := Prod.mk.inj (Except.ok.inj h)
  simp only [info.take_bSeqLen]
  set width := info.bReqTokensTable.width with hwidth
  have hbatch : info.bSeqLen.length = info.batch := info.paired
  have htotal : ∀ k, (info.bSeqLen.take k).sum ≤ info.batch * width := by
    intro k
    have hsum := List.sum_le_card_nsmul info.bSeqLen width info.within
    rw [smul_eq_mul, hbatch] at hsum
    have hall : (info.bSeqLen.take k).sum ≤ info.bSeqLen.sum :=
      List.Sublist.sum_le_sum (List.take_sublist _ _) fun _ _ => Nat.zero_le _
    omega
  refine List.ext_getElem ?_ fun j hj hj' => ?_
  · rw [List.length_drop, List.length_take, List.length_map, List.length_range,
      DecodeMetadata.window_length hi, sum_take_succ]
    have := htotal (i + 1)
    rw [sum_take_succ] at this
    omega
  · rw [DecodeMetadata.window_length hi] at hj'
    have hend := htotal (i + 1)
    rw [sum_take_succ] at hend
    have hcell : (i * width + j) / width = i ∧ (i * width + j) % width = j :=
      div_mod_of_lt (Nat.lt_of_lt_of_le hj' (DecodeMetadata.len_le hi))
    have hindptr : ∀ k ≤ info.batch, (indptrOf info.bSeqLen).getD k 0 = (info.bSeqLen.take k).sum :=
      fun k hk => by
        rw [List.getD_eq_getElem?_getD, indptrOf_getElem?, if_pos (hk.trans_eq hbatch.symm)]
        rfl
    rw [List.getElem_drop, List.getElem_take, List.getElem_map, List.getElem_range]
    refine scatter_eq ⟨i * width + j, ?_, ?_⟩ fun cell hcell' hpos => ?_
    · calc i * width + j < i * width + width :=
            Nat.add_lt_add_left (Nat.lt_of_lt_of_le hj' (DecodeMetadata.len_le hi)) _
        _ = (i + 1) * width := (Nat.succ_mul i width).symm
        _ ≤ info.batch * width := Nat.mul_le_mul_right width hi
    · rw [hcell.1, hcell.2, if_pos hj', hindptr i (Nat.le_of_lt hi)]
    · -- two windows never meet, and none of them reaches the sink
      split at hpos
      · next hin =>
        have hrow : cell / width < info.batch := Nat.div_lt_of_lt_mul (by rwa [Nat.mul_comm])
        rw [hindptr _ (Nat.le_of_lt hrow)] at hpos
        have hsame : cell / width = i := by
          rcases Nat.lt_trichotomy (cell / width) i with hlt | heq | hgt
          · have := sum_take_mono info.bSeqLen (Nat.succ_le_of_lt hlt)
            rw [Nat.succ_eq_add_one, sum_take_succ] at this
            omega
          · exact heq
          · have := sum_take_mono info.bSeqLen (Nat.succ_le_of_lt hgt)
            rw [Nat.succ_eq_add_one, sum_take_succ] at this
            omega
        rw [hsame] at hpos hin ⊢
        have hcol : cell % width = j := by omega
        rw [hcol]
        simp only [DecodeMetadata.window, List.getElem_take]
        rw [List.getD_eq_getElem]
      · omega

/-! ### Calls, in any order -/

/-- A call on the module. -/
inductive DecodeOp
  | reset
  | prepare (garbage : Nat → CacheRow) (info : DecodeMetadata)
  | decode (query : DecodeQuery) (info : DecodeMetadata)

/-- The call attends what its own metadata names, with its own head layout and scales. -/
def DecodeQuery.Attends (query : DecodeQuery) (info : DecodeMetadata)
    (out : Except Raised DecodeResult) : Prop :=
  out = .ok ⟨(List.range info.batch).map fun i => some (info.window i), query.layout,
    query.kScale, query.vScale⟩

namespace FlashInferDecode

variable {s : FlashInferDecode}

/-- The state a call leaves. -/
def after (s : FlashInferDecode) : DecodeOp → FlashInferDecode
  | .reset => reset
  | .prepare garbage info => (s.prepareDecode garbage info).2
  | .decode query info => (s.decodeAttention query info).2

/-- The pass the last `prepare_decode` was given. -/
def preparedFor (ops : List DecodeOp) : Option DecodeMetadata :=
  ops.foldl (fun last op => match op with
    | .reset => none
    | .prepare _ info => some info
    | .decode _ _ => last) none

/-- What is planned is for this pass, with the recorded head layout. -/
def PlannedFor (s : FlashInferDecode) (info : DecodeMetadata) : Prop :=
  ∃ plan, s.planned = some plan ∧ s.lastDecodeShape = some plan.layout ∧ plan.For info

/-- `prepare_decode` leaves a plan for its pass pending, or none. -/
theorem prepareDecode_pending (garbage : Nat → CacheRow) (info : DecodeMetadata)
    (h : (s.prepareDecode garbage info).2.plannedPending = true) :
    (s.prepareDecode garbage info).2.PlannedFor info := by
  have hledger : (info.bSeqLenCpu.getD info.bSeqLen).take info.batch = info.bSeqLen := by
    cases hcpu : info.bSeqLenCpu with
    | none => exact info.take_bSeqLen
    | some lens => rw [Option.getD_some, info.ledger lens hcpu, info.take_bSeqLen]
  unfold prepareDecode at h ⊢
  dsimp only at h ⊢
  rw [hledger] at h ⊢
  split at h
  · cases h
  · next indices indptr lastPageLen hpages =>
    split at h
    · cases h
    · next layout hlayout =>
      exact ⟨_, rfl, hlayout, DecodePlan.for_of_slices rfl fun i hi =>
        scatter_slice garbage info hpages hi⟩

/-- A call that finds a plan pending runs it and changes nothing. -/
theorem decodeAttention_pending (query : DecodeQuery) (info : DecodeMetadata)
    (h : s.plannedPending = true) :
    s.decodeAttention query info = (s.run query info.batch, s) :=
  if_pos h

/-- **A pending plan is for the pass that was prepared last**: the calls of its layers leave it. -/
theorem pending_preparedFor (ops : List DecodeOp)
    (h : (ops.foldl after reset).plannedPending = true) :
    ∃ info, preparedFor ops = some info ∧ (ops.foldl after reset).PlannedFor info := by
  induction ops using List.reverseRecOn with
  | nil => cases h
  | append_singleton ops op ih =>
    rw [List.foldl_append, List.foldl_cons, List.foldl_nil] at h ⊢
    rw [preparedFor, List.foldl_append, List.foldl_cons, List.foldl_nil, ← preparedFor]
    generalize ops.foldl after reset = s at h ih ⊢
    cases op with
    | reset => cases h
    | prepare garbage info => exact ⟨info, rfl, prepareDecode_pending garbage info h⟩
    | decode query info =>
      by_cases hpending : s.plannedPending = true
      · rw [after, decodeAttention_pending query info hpending]
        exact ih hpending
      · rw [after, decodeAttention, if_neg hpending] at h
        exact absurd h hpending

/-- The per-call path plans the rows of its own metadata. -/
theorem decodeAttention_idle (query : DecodeQuery) (info : DecodeMetadata)
    (h : ¬ s.plannedPending = true) : query.Attends info (s.decodeAttention query info).1 := by
  have hfor : DecodePlan.For ⟨indptrOf info.bSeqLen,
      ((List.range info.batch).map info.window).flatten, List.replicate info.batch 1,
      query.layout⟩ info :=
    DecodePlan.for_of_slices rfl fun i hi => flatten_slice info hi
  rw [decodeAttention, if_neg h]
  simp only [info.take_bSeqLen]
  refine congrArg Except.ok (congrArg (DecodeResult.mk · _ _ _) ?_)
  refine List.map_congr_left fun i hi => ?_
  exact (hfor i).trans (if_pos (List.mem_range.mp hi))

/-- **A decode call, after any calls.** It attends what its own metadata names if and only if no
plan is pending, or the head layout is the recorded one and the pass prepared last has, for each
row of the call, a row of the same cache rows in the same place. -/
theorem decodeAttention_attends_iff (ops : List DecodeOp) (query : DecodeQuery)
    (info : DecodeMetadata) :
    query.Attends info ((ops.foldl after reset).decodeAttention query info).1 ↔
      ((ops.foldl after reset).plannedPending = true →
        (ops.foldl after reset).lastDecodeShape = some query.layout ∧
          ∃ prepared, preparedFor ops = some prepared ∧
            ∀ i < info.batch, i < prepared.batch ∧ prepared.window i = info.window i) := by
  by_cases hpending : (ops.foldl after reset).plannedPending = true
  · obtain ⟨prepared, hprepared, plan, hplan, hshape, hfor⟩ := pending_preparedFor ops hpending
    have hrun : ((ops.foldl after reset).decodeAttention query info).1 =
        .ok ⟨(List.range info.batch).map plan.attended, plan.layout, query.kScale,
          query.vScale⟩ := by
      rw [decodeAttention_pending query info hpending, run, hplan]
    have hrow : ∀ i, plan.attended i = some (info.window i) ↔
        i < prepared.batch ∧ prepared.window i = info.window i := by
      intro i
      rw [hfor i]
      split_ifs with hi <;> simp [hi]
    rw [DecodeQuery.Attends, hrun, hshape, hprepared]
    constructor
    · intro h _
      obtain ⟨hrows, hlayout, -⟩ := DecodeResult.mk.inj (Except.ok.inj h)
      refine ⟨congrArg some hlayout, prepared, rfl, fun i hi => (hrow i).mp ?_⟩
      exact List.map_inj_left.mp hrows i (List.mem_range.mpr hi)
    · intro h
      obtain ⟨hlayout, prepared', hsame, hrows⟩ := h hpending
      obtain rfl := Option.some.inj hsame
      have hattended : (List.range info.batch).map plan.attended =
          (List.range info.batch).map fun i => some (info.window i) :=
        List.map_congr_left fun i hi => (hrow i).mpr (hrows i (List.mem_range.mp hi))
      rw [hattended, Option.some.inj hlayout]
  · exact ⟨fun _ h => absurd h hpending, fun _ => decodeAttention_idle query info hpending⟩

end FlashInferDecode

/-! ### The metadata of the steps -/

/-- The metadata, as `AttentionMetadata` has it. -/
structure DecodeMetadata.Reads (info : DecodeMetadata) (atten : AttenInfo) : Prop where
  bReqIdx : atten.bReqIdx = some (toDevice info.bReqIdx)
  bSeqLen : atten.bSeqLen = some (toDevice info.bSeqLen)
  bSeqLenCpu : atten.bSeqLenCpu = info.bSeqLenCpu.map toDevice
  isPrefill : atten.isPrefill = false

namespace FlashInferDecode

/-! Two requests of lengths two and one, of which the splitter gives each half one. -/

theorem twoRequests_wide : ∀ row ∈ [[3, 5], [7, 9]], row.length = 2 := by decide

def twoRequests : DecodeMetadata where
  bReqTokensTable := ⟨2, [[3, 5], [7, 9]], twoRequests_wide⟩
  bReqIdx := [0, 1]
  bSeqLen := [2, 1]
  bSeqLenCpu := some [2, 1]
  nonempty := nofun
  named := by decide
  paired := rfl
  within := by decide
  ledger _ h := (Option.some.inj h).symm

def secondRequest : DecodeMetadata where
  bReqTokensTable := twoRequests.bReqTokensTable
  bReqIdx := [1]
  bSeqLen := [1]
  bSeqLenCpu := none
  nonempty := nofun
  named := by decide
  paired := rfl
  within := by decide
  ledger := nofun

def bf16Query : DecodeQuery := ⟨⟨8, 2, 64, .bf16, .bf16, 1 / 8⟩, 1, 1⟩

/-- **The second half of a planned step attends the rows of the first request.** The step before
has recorded the head layout, so `prepare_decode` plans this one whole; the splitter narrows its
metadata, and the half runs the plan of the step. -/
theorem secondHalf_attends_first :
    let step : AttenInfo :=
      { bReqIdx := some [0, 1], bSeqLen := some [2, 1], isPrefill := false,
        bSeqLenCpu := some [2, 1] }
    let ops : List DecodeOp := [.prepare (fun _ => 0) twoRequests, .decode bf16Query twoRequests,
      .prepare (fun _ => 0) twoRequests]
    twoRequests.Reads step ∧
      (∃ half, narrowMetadata step 1 2 1 = .ok half ∧ secondRequest.Reads half) ∧
      secondRequest.window 0 = [7] ∧
      ((ops.foldl after reset).decodeAttention bf16Query secondRequest).1.toOption.map
        DecodeResult.attended = some [some [3, 5]] ∧
      ¬ bf16Query.Attends secondRequest
        ((ops.foldl after reset).decodeAttention bf16Query secondRequest).1 := by
  have hattended : ((([.prepare (fun _ => 0) twoRequests, .decode bf16Query twoRequests,
      .prepare (fun _ => 0) twoRequests] : List DecodeOp).foldl after reset).decodeAttention
        bf16Query secondRequest).1.toOption.map DecodeResult.attended = some [some [3, 5]] := by
    decide +kernel
  refine ⟨⟨rfl, rfl, rfl, rfl⟩, ⟨_, rfl, ⟨rfl, rfl, rfl, rfl⟩⟩, rfl, hattended, fun h => ?_⟩
  rw [DecodeQuery.Attends] at h
  rw [h] at hattended
  exact absurd hattended (by decide)

end FlashInferDecode

end RapidLlm
