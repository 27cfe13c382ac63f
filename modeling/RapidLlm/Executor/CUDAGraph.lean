import Mathlib.Data.Finset.Sort
import Mathlib.Data.Prod.Lex
import Mathlib.Data.List.OfFn
import Mathlib.Data.List.Sort
import RapidLlm.Lib.Lockstep
import RapidLlm.Lib.Run
import RapidLlm.Engine.BlockPool

/-!
# RapidLlm.Executor.CUDAGraph

The graph managers (`executor/cuda_graph.py`) and the two places that call them
(`ModelRunner.enable_cuda_graph`, the passes of `Worker`), as the code of one rank of a
tensor-parallel group.

* A rank's code is a `Script`: its consensus collectives are the only points where it meets its
  peers. What the hardware tells a rank (free memory, whether a capture fits, whether its
  logits match) is its `Local` input.
* A runner is its key: `runners` and `failed` are the key sets of `_runners` and `_failed`.
* `enableCudaGraph_uniform`: however the captures at startup come out, every rank installs the
  same managers. `runPass_uniform`: from equal managers, a pass whose memory floor reads the
  same everywhere keeps them equal. `path_of_floor_split` is what a split floor does.
-/

namespace RapidLlm

/-! ### Collectives -/

/-- The two consensus collectives; both are an all-reduce with `MIN`. -/
inductive Consensus
  | ranksAgree
  | allReduceMin
  deriving DecidableEq, Repr

/-- The code of one rank. -/
abbrev Rank := Script Consensus (List Int)

/-- `dist.all_reduce(tensor, op=MIN)`: the elementwise minimum of the ranks' tensors. -/
def allReduce {n : Nat} (_ : Consensus) (tensors : Fin n → List Int) : List Int :=
  match List.ofFn tensors with
  | [] => []
  | tensor :: rest => rest.foldl (List.zipWith min) tensor

/-- `tensor_model_parallel_all_reduce_min` -/
def tensorModelParallelAllReduceMin (worldSize : Nat) (value : Int) : Rank Int :=
  if worldSize ≤ 1 then .done value
  else .enter .allReduceMin [value] fun tensor => .done (tensor.getD 0 0)

/-- `tensor_model_parallel_ranks_agree` -/
def tensorModelParallelRanksAgree (worldSize : Nat) (value : Int) : Rank Bool :=
  if worldSize ≤ 1 then .done true
  else .enter .ranksAgree [value, -value] fun tensor =>
    .done (tensor.getD 0 0 == -tensor.getD 1 0)

/-! ### What a rank finds on its own -/

/-- How a capture ends: recorded, or out of memory. -/
inductive Capture
  | recorded
  | outOfMemory
  deriving DecidableEq, Repr

/-- What one rank's hardware answers during one pass: the bytes `mem_get_info` reports free, how
each capture the pass may ask for ends, and whether the prefill graph's logits are within
`TP_GRAPH_PARITY_ATOL` of its eager grid. -/
structure Local where
  free : Nat
  prefillCapture : Capture
  parity : Bool
  decodeCapture : Capture
  deriving DecidableEq, Repr

/-- `int(flag)` -/
def flag (b : Bool) : Int := if b then 1 else 0

/-! ### Decode graphs -/

/-- `_GraphKey` -/
structure GraphKey where
  batchSize : Nat
  seqLenBucket : Nat
  deriving DecidableEq, Repr

/-- `CUDAGraphManager`: the grid it may capture, and the keys it holds or gave up on. -/
structure CUDAGraphManager where
  batchSizes : List Nat
  seqLenBuckets : List Nat
  lazy : Bool
  checkLockstep : Bool
  runners : Finset GraphKey := ∅
  failed : Finset GraphKey := ∅
  deriving DecidableEq

/-- Python's `repr` of a tuple of printed items. -/
def reprTuple : List String → String
  | [item] => "(" ++ item ++ ",)"
  | items => "(" ++ String.intercalate ", " items ++ ")"

/-- One bit of the reflected CRC-32 polynomial division. -/
def crc32Bit (crc : Nat) : Nat :=
  if crc % 2 = 1 then (crc >>> 1) ^^^ 0xEDB88320 else crc >>> 1

/-- `zlib.crc32` -/
def crc32 (data : String) : Nat :=
  (data.toUTF8.toList.foldl
    (fun crc byte => (List.range 8).foldl (fun c _ => crc32Bit c) (crc ^^^ byte.toNat))
    0xFFFFFFFF) ^^^ 0xFFFFFFFF

namespace CUDAGraphManager

/-- `sorted(set(sizes))` -/
def sortedSet (sizes : List Nat) : List Nat := sizes.dedup.insertionSort (· ≤ ·)

/-- `CUDAGraphManager.__init__` -/
def new (worldSize : Nat) (batchSizes seqLenBuckets : List Nat) (lazy checkEnv : Bool) :
    Except Raised CUDAGraphManager :=
  if sortedSet batchSizes = [] ∨ (sortedSet batchSizes).any (· < 1) then
    .error (.valueError ("CUDA graph batch sizes must be positive: " ++
      reprTuple ((sortedSet batchSizes).map toString)))
  else if sortedSet seqLenBuckets = [] ∨ (sortedSet seqLenBuckets).any (· < 1) then
    .error (.valueError ("CUDA graph sequence-length buckets must be positive: " ++
      reprTuple ((sortedSet seqLenBuckets).map toString)))
  else
    .ok {
      batchSizes := sortedSet batchSizes
      seqLenBuckets := sortedSet seqLenBuckets
      lazy := lazy
      checkLockstep := checkEnv && decide (1 < worldSize) }

/-- `capture_all`, when every capture is recorded. -/
def captureAll (m : CUDAGraphManager) : CUDAGraphManager :=
  { m with
    runners := m.runners ∪
      (m.batchSizes.flatMap fun bs => m.seqLenBuckets.map fun bucket => ⟨bs, bucket⟩).toFinset }

/-- `capture_seed`, when every capture is recorded. -/
def captureSeed (m : CUDAGraphManager) : CUDAGraphManager :=
  match m.batchSizes.head?, m.seqLenBuckets.head?,
      m.batchSizes.getLast?, m.seqLenBuckets.getLast? with
  | some bs, some bucket, some largest, some longest =>
      { m with runners := insert ⟨bs, bucket⟩ (insert ⟨largest, longest⟩ m.runners) }
  | _, _, _, _ => m

/-- `_on_grid` -/
def onGrid (m : CUDAGraphManager) (key : GraphKey) : Bool :=
  m.batchSizes.contains key.batchSize && m.seqLenBuckets.contains key.seqLenBucket

/-- `_pick_bucket` -/
def pickBucket (m : CUDAGraphManager) (currentMaxSeqLen : Nat) : Option Nat :=
  m.seqLenBuckets.find? (currentMaxSeqLen ≤ ·)

/-- `grid_fingerprint` -/
def gridFingerprint (m : CUDAGraphManager) : Nat :=
  let keys := (m.runners.image fun key => toLex (key.batchSize, key.seqLenBucket)).sort (· ≤ ·)
  1 + crc32 (reprTuple [
    reprTuple (m.batchSizes.map toString),
    reprTuple (m.seqLenBuckets.map toString),
    "[" ++ String.intercalate ", " (keys.map fun key =>
      reprTuple [toString (ofLex key).1, toString (ofLex key).2]) ++ "]"])

/-- The end of `_capture_on_miss`: retire this rank's graph if a peer has none. -/
def settle (m : CUDAGraphManager) (key : GraphKey) (runner : Option GraphKey) (agree : Bool) :
    Option GraphKey × CUDAGraphManager :=
  if agree then (runner, m)
  else (none, { m with runners := m.runners.erase key, failed := insert key m.failed })

/-- The local half of `_capture_on_miss`: this rank's own capture. -/
def capture (m : CUDAGraphManager) (key : GraphKey) : Capture → Option GraphKey × CUDAGraphManager
  | .recorded => (some key, { m with runners := insert key m.runners })
  | .outOfMemory => (none, { m with failed := insert key m.failed })

/-- `_capture_on_miss` -/
def captureOnMiss (m : CUDAGraphManager) (worldSize : Nat) (outcome : Local) (key : GraphKey) :
    Rank (Option GraphKey × CUDAGraphManager) :=
  if key ∈ m.failed ∨ m.onGrid key = false then .done (none, m)
  else if 1 < worldSize then do
    let agree ← tensorModelParallelRanksAgree worldSize
      (flag (m.capture key outcome.decodeCapture).1.isSome)
    .done ((m.capture key outcome.decodeCapture).2.settle key
      (m.capture key outcome.decodeCapture).1 agree)
  else .done (m.capture key outcome.decodeCapture)

/-- `_select` -/
def select (m : CUDAGraphManager) (worldSize : Nat) (outcome : Local)
    (batchSize seqLen maxActualSeqLen : Nat) : Rank (Option GraphKey × CUDAGraphManager) :=
  if seqLen ≠ 1 then .done (none, m)
  else match m.pickBucket maxActualSeqLen with
    | none => .done (none, m)
    | some bucket =>
        if ⟨batchSize, bucket⟩ ∈ m.runners then .done (some ⟨batchSize, bucket⟩, m)
        else if m.lazy then m.captureOnMiss worldSize outcome ⟨batchSize, bucket⟩
        else .done (none, m)

/-- `choice` of `_assert_lockstep`: which graph this rank is about to replay. -/
def choice : Option GraphKey → Nat
  | none => 0
  | some runner => 1 + crc32 (toString runner.batchSize ++ ":" ++ toString runner.seqLenBucket)

/-- `_assert_lockstep` -/
def assertLockstep (worldSize : Nat) (runner : Option GraphKey) : Rank (Except Raised Unit) := do
  let agree ← tensorModelParallelRanksAgree worldSize (choice runner)
  .done (if agree then .ok ()
    else .error (.runtimeError
      ("tensor-parallel ranks disagree on which decode CUDA graph to replay " ++
        "(this rank chose " ++ toString (choice runner) ++
        "); the group would deadlock in the graph's all-reduce. " ++
        "Run with RAPID_LLM_TP_CUDA_GRAPH=0 to fall back to eager.")))

/-- `try_replay`: the graph the step is served from, `none` for the eager path. -/
def tryReplay (m : CUDAGraphManager) (worldSize : Nat) (outcome : Local)
    (batchSize seqLen maxActualSeqLen : Nat) :
    Rank (Except Raised (Option GraphKey) × CUDAGraphManager) := do
  let selected ← m.select worldSize outcome batchSize seqLen maxActualSeqLen
  if m.checkLockstep then do
    let checked ← assertLockstep worldSize selected.1
    .done (checked.map fun _ => selected.1, selected.2)
  else .done (.ok selected.1, selected.2)

end CUDAGraphManager

/-! ### Prefill graphs -/

/-- `DEFAULT_BATCH_SIZES` -/
def DEFAULT_BATCH_SIZES : List Nat := [1, 2, 4, 8, 16, 32, 64, 128]

/-- `PREFILL_WIDTH_BUCKETS` -/
def PREFILL_WIDTH_BUCKETS : List Nat :=
  (List.range 32).map (· + 1) ++
    [40, 48, 56, 64, 80, 96, 112, 128, 160, 192, 224, 256, 320, 384, 448, 512]

/-- `PREFILL_GRAPH_MAX_TOKENS` -/
def PREFILL_GRAPH_MAX_TOKENS : Nat := 8192

/-- `PREFILL_GRAPH_MAX_TOKENS_EP` -/
def PREFILL_GRAPH_MAX_TOKENS_EP : Nat := 1024

/-- `_PREFILL_GRAPH_MIN_FREE` -/
def PREFILL_GRAPH_MIN_FREE : Nat := 4 <<< 30

/-- `PrefillGraphManager` -/
structure PrefillGraphManager where
  nBuckets : List Nat := CUDAGraphManager.sortedSet DEFAULT_BATCH_SIZES
  widthBuckets : Finset Nat := PREFILL_WIDTH_BUCKETS.toFinset
  runners : Finset (Nat × Nat) := ∅
  failed : Finset (Nat × Nat) := ∅
  deriving DecidableEq

namespace PrefillGraphManager

/-- `_pad_n` -/
def padN (m : PrefillGraphManager) (n : Nat) : Option Nat :=
  m.nBuckets.find? (n ≤ ·)

/-- The grid a pass of this shape would be captured at. -/
def gridKey (m : PrefillGraphManager) (expertParallel : Bool) (nReal width : Nat) :
    Option (Nat × Nat) :=
  match m.padN nReal with
  | none => none
  | some nBucket =>
      if width ∉ m.widthBuckets then none
      else if (if expertParallel then PREFILL_GRAPH_MAX_TOKENS_EP else PREFILL_GRAPH_MAX_TOKENS)
          < nBucket * width then none
      else some (nBucket, width)

/-- `_capture_and_run` from the capture on: the graph is kept if every rank recorded it and every
rank's logits match. Whether the step was served is the first component. -/
def captureAndKeep (m : PrefillGraphManager) (worldSize : Nat) (outcome : Local)
    (key : Nat × Nat) : Rank (Bool × PrefillGraphManager) := do
  let captured := outcome.prefillCapture == .recorded
  let agree ← tensorModelParallelRanksAgree worldSize (flag captured)
  if (captured && agree) = false then .done (false, { m with failed := insert key m.failed })
  else do
    let keep ← tensorModelParallelAllReduceMin worldSize (flag outcome.parity)
    if keep ≠ 1 then .done (true, { m with failed := insert key m.failed })
    else .done (true, { m with runners := insert key m.runners })

/-- `_capture_and_run` -/
def captureAndRun (m : PrefillGraphManager) (worldSize : Nat) (outcome : Local)
    (key : Nat × Nat) : Rank (Bool × PrefillGraphManager) :=
  -- This test reads the rank's own card, and returns before any collective.
  if outcome.free < PREFILL_GRAPH_MIN_FREE then
    .done (false, { m with failed := insert key m.failed })
  else m.captureAndKeep worldSize outcome key

/-- `try_replay`: whether the step was served. -/
def tryReplay (m : PrefillGraphManager) (worldSize : Nat) (expertParallel : Bool)
    (outcome : Local) (nReal width : Nat) : Rank (Bool × PrefillGraphManager) :=
  match m.gridKey expertParallel nReal width with
  | none => .done (false, m)
  | some key =>
      if key ∈ m.failed then .done (false, m)
      else if key ∈ m.runners then .done (true, m)
      else m.captureAndRun worldSize outcome key

/-- The pass would have this manager capture: its grid is neither held nor given up on. -/
def Captures (m : PrefillGraphManager) (expertParallel : Bool) (nReal width : Nat) : Prop :=
  ∃ key, m.gridKey expertParallel nReal width = some key ∧ key ∉ m.failed ∧ key ∉ m.runners

end PrefillGraphManager

/-! ### Passes -/

/-- `ModelRunner._graph_manager` and `ModelRunner._prefill_graphs` of one rank. -/
structure RankGraphs where
  decode : Option CUDAGraphManager
  prefill : Option PrefillGraphManager
  deriving DecidableEq

/-- A pass, as far as the managers read it: a prompt grid (`_forward_grid`), or one token a row
(`_forward_extend`, `_forward_decode`). -/
inductive Pass
  | grid (nReal width maxActualSeqLen : Nat) (wantsPrompt : Bool)
  | rows (batchSize maxActualSeqLen : Nat)
  deriving DecidableEq, Repr

namespace RankGraphs

/-- `ModelRunner.forward` and `forward_maybe_tbo`, up to the eager pass: the decode manager is
asked whenever there is one, whatever the shape. -/
def forward (s : RankGraphs) (worldSize : Nat) (outcome : Local)
    (batchSize seqLen maxActualSeqLen : Nat) : Rank (Except Raised Unit × RankGraphs) :=
  match s.decode with
  | none => .done (.ok (), s)
  | some manager => do
      let replayed ← manager.tryReplay worldSize outcome batchSize seqLen maxActualSeqLen
      .done (replayed.1.map fun _ => (), { s with decode := some replayed.2 })

/-- `ModelRunner.try_replay_prefill` -/
def tryReplayPrefill (s : RankGraphs) (worldSize : Nat) (expertParallel : Bool) (outcome : Local)
    (nReal width : Nat) : Rank (Bool × RankGraphs) :=
  match s.prefill with
  | none => .done (false, s)
  | some manager => do
      let replayed ← manager.tryReplay worldSize expertParallel outcome nReal width
      .done (replayed.1, { s with prefill := some replayed.2 })

/-- `_forward_grid` before its eager pass: prompt scoring needs the whole grid's logits, which a
capture does not produce. -/
def tryReplayGrid (s : RankGraphs) (worldSize : Nat) (expertParallel : Bool) (outcome : Local)
    (nReal width : Nat) (wantsPrompt : Bool) : Rank (Bool × RankGraphs) :=
  if wantsPrompt then .done (false, s)
  else s.tryReplayPrefill worldSize expertParallel outcome nReal width

/-- The graph decisions of one pass on one rank. -/
def runPass (s : RankGraphs) (worldSize : Nat) (expertParallel : Bool) (outcome : Local) :
    Pass → Rank (Except Raised Unit × RankGraphs)
  | .rows batchSize maxActualSeqLen => s.forward worldSize outcome batchSize 1 maxActualSeqLen
  | .grid nReal width maxActualSeqLen wantsPrompt => do
      let replayed ← s.tryReplayGrid worldSize expertParallel outcome nReal width wantsPrompt
      if replayed.1 then .done (.ok (), replayed.2)
      else replayed.2.forward worldSize outcome nReal width maxActualSeqLen

/-- The pass makes the prefill manager capture. -/
def Captures (s : RankGraphs) (expertParallel : Bool) : Pass → Prop
  | .rows _ _ => False
  | .grid nReal width _ wantsPrompt =>
      wantsPrompt = false ∧ ∃ m, s.prefill = some m ∧ m.Captures expertParallel nReal width

end RankGraphs

/-! ### Startup -/

/-- What `enable_cuda_graph` is called with; the same on every rank. -/
structure GraphSettings where
  batchSizes : List Nat := DEFAULT_BATCH_SIZES
  seqLenBuckets : List Nat := [256, 512, 1024, 2048, 4096]
  lazy : Bool
  maxSeqLen : Nat
  maxRequestNum : Nat
  /-- `RAPID_LLM_TP_CUDA_GRAPH` is not `0`. -/
  tpGraphs : Bool := true
  /-- `RAPID_LLM_PREFILL_GRAPH` is not `0`, and there is no decode context parallelism. -/
  prefillGraphs : Bool := true
  /-- `RAPID_LLM_TP_GRAPH_CHECK` is `1`. -/
  checkEnv : Bool := false

/-- `_tp_graphs_are_safe` -/
def tpGraphsAreSafe (worldSize : Nat) (manager : CUDAGraphManager) (captured parity : Bool) :
    Rank Bool := do
  let fingerprint := if captured then manager.gridFingerprint else 0
  let agree ← tensorModelParallelRanksAgree worldSize fingerprint
  if agree = false ∨ fingerprint = 0 then .done false
  else do
    let ok ← tensorModelParallelAllReduceMin worldSize (flag parity)
    .done (ok == 1)

/-- `ModelRunner.enable_cuda_graph` on a fresh runner. `decodeCapture` is how this rank's startup
captures end, `parity` whether they match their eager steps. -/
def enableCudaGraph (worldSize : Nat) (settings : GraphSettings) (outcome : Local) :
    Rank (Except Raised RankGraphs) :=
  let eager : RankGraphs := ⟨none, none⟩
  let seqLenBuckets := settings.seqLenBuckets.filter (· ≤ settings.maxSeqLen)
  let batchSizes := settings.batchSizes.filter (· ≤ settings.maxRequestNum)
  if 1 < worldSize ∧ settings.tpGraphs = false then .done (.ok eager)
  else if seqLenBuckets = [] ∨ batchSizes = [] then .done (.ok eager)
  else match CUDAGraphManager.new worldSize batchSizes seqLenBuckets settings.lazy
      settings.checkEnv with
    | .error e => .done (.error e)
    | .ok manager =>
        let captured := outcome.decodeCapture == .recorded
        let manager := if settings.lazy then manager.captureSeed else manager.captureAll
        let installed : RankGraphs :=
          ⟨some manager, if settings.prefillGraphs then some {} else none⟩
        if 1 < worldSize then do
          let safe ← tpGraphsAreSafe worldSize manager captured outcome.parity
          .done (.ok (if safe && captured then installed else eager))
        else .done (.ok (if captured then installed else eager))

/-! ### The collectives agree -/

/-- The least of the values the ranks brought. -/
def least {n : Nat} (values : Fin n → Int) : Int :=
  match List.ofFn values with
  | [] => 0
  | x :: rest => rest.foldl min x

theorem foldl_min_spec : ∀ (rest : List Int) (x : Int),
    rest.foldl min x ∈ x :: rest ∧ ∀ y ∈ x :: rest, rest.foldl min x ≤ y
  | [], x => by simp
  | z :: rest, x => by
      obtain ⟨hmem, hle⟩ := foldl_min_spec rest (min x z)
      rw [List.foldl_cons]
      constructor
      · rcases List.mem_cons.mp hmem with h | h
        · rw [h]
          rcases min_choice x z with hx | hz
          · simp [hx]
          · simp [hz]
        · exact List.mem_cons_of_mem _ (List.mem_cons_of_mem _ h)
      · intro y hy
        have hmin := hle _ List.mem_cons_self
        simp only [List.mem_cons] at hy
        rcases hy with rfl | rfl | hy
        · exact hmin.trans (min_le_left _ _)
        · exact hmin.trans (min_le_right _ _)
        · exact hle y (List.mem_cons_of_mem _ hy)

/-- `least` is one of the values, and below all of them. -/
theorem least_spec {n : Nat} (hn : 0 < n) (values : Fin n → Int) :
    (∃ i, least values = values i) ∧ ∀ i, least values ≤ values i := by
  unfold least
  cases hv : List.ofFn values with
  | nil =>
    have hlen : (List.ofFn values).length = 0 := by rw [hv]; rfl
    rw [List.length_ofFn] at hlen
    omega
  | cons x rest =>
    have hmem : ∀ y, y ∈ x :: rest ↔ ∃ i, values i = y := fun y => by
      rw [← hv, List.mem_ofFn]
    obtain ⟨h, hle⟩ := foldl_min_spec rest x
    obtain ⟨i, hi⟩ := (hmem _).mp h
    exact ⟨⟨i, hi.symm⟩, fun j => hle _ ((hmem _).mpr ⟨j, rfl⟩)⟩

theorem foldl_zipWith_min {α : Type} (a : α → Int) : ∀ (ranks : List α) (x : Int),
    (ranks.map fun r => [a r]).foldl (List.zipWith min) [x] = [(ranks.map a).foldl min x]
  | [], x => rfl
  | r :: ranks, x => by
      simpa only [List.map_cons, List.foldl_cons, List.zipWith_cons_cons, List.zipWith_nil_left]
        using foldl_zipWith_min a ranks (min x (a r))

theorem foldl_zipWith_min_pair {α : Type} (a b : α → Int) : ∀ (ranks : List α) (x y : Int),
    (ranks.map fun r => [a r, b r]).foldl (List.zipWith min) [x, y] =
      [(ranks.map a).foldl min x, (ranks.map b).foldl min y]
  | [], x, y => rfl
  | r :: ranks, x, y => by
      simpa only [List.map_cons, List.foldl_cons, List.zipWith_cons_cons, List.zipWith_nil_left]
        using foldl_zipWith_min_pair a b ranks (min x (a r)) (min y (b r))

theorem allReduce_singleton {n : Nat} (hn : 0 < n) (c : Consensus) (a : Fin n → Int) :
    allReduce c (fun i => [a i]) = [least a] := by
  obtain ⟨m, rfl⟩ : ∃ m, n = m + 1 := ⟨n - 1, by omega⟩
  simp only [allReduce, least, List.ofFn_succ, List.ofFn_eq_map]
  exact foldl_zipWith_min (fun i : Fin m => a i.succ) (List.finRange m) (a 0)

theorem allReduce_pair {n : Nat} (hn : 0 < n) (c : Consensus) (a b : Fin n → Int) :
    allReduce c (fun i => [a i, b i]) = [least a, least b] := by
  obtain ⟨m, rfl⟩ : ∃ m, n = m + 1 := ⟨n - 1, by omega⟩
  simp only [allReduce, least, List.ofFn_succ, List.ofFn_eq_map]
  exact foldl_zipWith_min_pair (fun i : Fin m => a i.succ) (fun i => b i.succ) (List.finRange m)
    (a 0) (b 0)

/-- The least value and the least negated value cancel exactly when all values are one. -/
theorem least_cancel {n : Nat} (hn : 0 < n) (values : Fin n → Int) :
    least values = -least (fun i => -values i) ↔ ∀ i j, values i = values j := by
  obtain ⟨⟨i, hi⟩, hlow⟩ := least_spec hn values
  obtain ⟨⟨j, hj⟩, hhigh⟩ := least_spec hn fun i => -values i
  constructor
  · intro h k l
    have hk := hlow k
    have hl := hlow l
    have hk' := hhigh k
    have hl' := hhigh l
    omega
  · intro h
    have hij := h i j
    omega

theorem flag_inj {a b : Bool} (h : flag a = flag b) : a = b := by
  cases a <;> cases b <;> simp_all [flag]

section Group

variable {n : Nat}

/-- `ranks_agree` returns to every rank whether they all passed one value. -/
theorem ranksAgree_lockstep (hn : 1 < n) (values : Fin n → Int) :
    Lockstep allReduce (fun i => tensorModelParallelRanksAgree n (values i)) [.ranksAgree]
      fun _ => decide (∀ i j, values i = values j) := by
  have hres : ∀ i : Fin n, tensorModelParallelRanksAgree n (values i) =
      .enter .ranksAgree [values i, -values i] fun tensor =>
        .done (tensor.getD 0 0 == -tensor.getD 1 0) := fun i => if_neg (by omega)
  simp only [hres]
  refine .enter Consensus.ranksAgree (fun i => [values i, -values i]) _ ?_
  rw [allReduce_pair (by omega)]
  have hbool : (least values == -least fun i => -values i) =
      decide (∀ i j, values i = values j) := by
    rw [Bool.eq_iff_iff, beq_iff_eq, decide_eq_true_iff, least_cancel (by omega)]
  simp only [List.getD_cons_zero, List.getD_cons_succ, hbool]
  exact .done _

/-- `all_reduce_min` returns the least value to every rank. -/
theorem allReduceMin_lockstep (hn : 1 < n) (values : Fin n → Int) :
    Lockstep allReduce (fun i => tensorModelParallelAllReduceMin n (values i)) [.allReduceMin]
      fun _ => least values := by
  have hres : ∀ i : Fin n, tensorModelParallelAllReduceMin n (values i) =
      .enter .allReduceMin [values i] fun tensor => .done (tensor.getD 0 0) :=
    fun i => if_neg (by omega)
  simp only [hres]
  refine .enter Consensus.allReduceMin (fun i => [values i]) _ ?_
  rw [allReduce_singleton (by omega)]
  exact .done _

/-! ### Equal managers stay equal -/

namespace CUDAGraphManager

theorem capture_settle (m : CUDAGraphManager) (key : GraphKey) (c c' : Capture) :
    (m.capture key c).2.settle key (m.capture key c).1 false =
      (m.capture key c').2.settle key (m.capture key c').1 false := by
  cases c <;> cases c' <;> simp [capture, settle, Finset.erase_insert_eq_erase]

theorem flag_capture_inj {m : CUDAGraphManager} {key : GraphKey} {c c' : Capture}
    (h : flag (m.capture key c).1.isSome = flag (m.capture key c').1.isSome) : c = c' := by
  cases c <;> cases c' <;> simp_all [capture, flag]

/-- A lazy capture ends the same on every rank, whoever ran out of memory. -/
theorem captureOnMiss_uniform (hn : 1 < n) (m : CUDAGraphManager) (key : GraphKey)
    (o : Fin n → Local) : Uniform allReduce fun i => m.captureOnMiss n (o i) key := by
  by_cases hkey : key ∈ m.failed ∨ m.onGrid key = false
  · simp only [captureOnMiss, if_pos hkey]
    exact .const _
  simp only [captureOnMiss, if_neg hkey, if_pos hn]
  refine .of_lockstep (ranksAgree_lockstep hn _) ?_
  obtain ⟨r⟩ : Nonempty (Fin n) := ⟨⟨0, by omega⟩⟩
  by_cases hall : ∀ i j, flag (m.capture key (o i).decodeCapture).1.isSome =
      flag (m.capture key (o j).decodeCapture).1.isSome
  · -- every rank's capture ended the way rank `r`'s did
    have hr : ∀ i, (o i).decodeCapture = (o r).decodeCapture := fun i =>
      flag_capture_inj (hall i r)
    simp only [hr]
    exact .const _
  · -- somebody ran out of memory: all retire the shape
    simp only [decide_eq_false hall]
    have hr : ∀ i, (m.capture key (o i).decodeCapture).2.settle key
        (m.capture key (o i).decodeCapture).1 false =
          (m.capture key (o r).decodeCapture).2.settle key
            (m.capture key (o r).decodeCapture).1 false := fun i => capture_settle m key _ _
    simp only [hr]
    exact .const _

theorem select_uniform (hn : 1 < n) (m : CUDAGraphManager) (o : Fin n → Local)
    (batchSize seqLen maxActualSeqLen : Nat) :
    Uniform allReduce fun i => m.select n (o i) batchSize seqLen maxActualSeqLen := by
  unfold select
  by_cases hlen : seqLen ≠ 1
  · simp only [if_pos hlen]
    exact .const _
  simp only [if_neg hlen]
  cases m.pickBucket maxActualSeqLen with
  | none => exact .const _
  | some bucket =>
    by_cases hrun : (⟨batchSize, bucket⟩ : GraphKey) ∈ m.runners
    · simp only [if_pos hrun]
      exact .const _
    simp only [if_neg hrun]
    by_cases hlazy : m.lazy = true
    · simp only [if_pos hlazy]
      exact captureOnMiss_uniform hn m _ o
    · simp only [if_neg hlazy]
      exact .const _

end CUDAGraphManager

theorem RankGraphs.forward_uniform (hn : 1 < n) (s : RankGraphs) (o : Fin n → Local)
    (batchSize seqLen maxActualSeqLen : Nat) :
    Uniform allReduce fun i => s.forward n (o i) batchSize seqLen maxActualSeqLen := by
  unfold forward
  cases s.decode with
  | none => exact .const _
  | some m =>
    refine .bind (.bind (m.select_uniform hn o _ _ _) fun selected => ?_) fun _ => .const _
    exact .const _

namespace PrefillGraphManager

/-- From the capture on, the prefill manager's decision is the group's. -/
theorem captureAndKeep_uniform (hn : 1 < n) (m : PrefillGraphManager) (key : Nat × Nat)
    (o : Fin n → Local) : Uniform allReduce fun i => m.captureAndKeep n (o i) key := by
  obtain ⟨r⟩ : Nonempty (Fin n) := ⟨⟨0, by omega⟩⟩
  unfold captureAndKeep
  refine .of_lockstep (ranksAgree_lockstep hn _) ?_
  by_cases hall : ∀ i j, flag ((o i).prefillCapture == .recorded) =
      flag ((o j).prefillCapture == .recorded)
  · have hr : ∀ i, ((o i).prefillCapture == .recorded) = ((o r).prefillCapture == .recorded) :=
      fun i => flag_inj (hall i r)
    simp only [hr]
    split
    · exact .const _
    · exact .of_lockstep (allReduceMin_lockstep hn _) (.const _)
  · simp only [decide_eq_false hall, Bool.and_false, if_true]
    exact .const _

/-- With the floor reading the same everywhere, so is the whole of `try_replay`. -/
theorem tryReplay_uniform (hn : 1 < n) (m : PrefillGraphManager) (expertParallel : Bool)
    (nReal width : Nat) (o : Fin n → Local)
    (hfloor : m.Captures expertParallel nReal width →
      ∀ i j, (o i).free < PREFILL_GRAPH_MIN_FREE ↔ (o j).free < PREFILL_GRAPH_MIN_FREE) :
    Uniform allReduce fun i => m.tryReplay n expertParallel (o i) nReal width := by
  obtain ⟨r⟩ : Nonempty (Fin n) := ⟨⟨0, by omega⟩⟩
  unfold tryReplay
  cases hkey : m.gridKey expertParallel nReal width with
  | none => exact .const _
  | some key =>
    by_cases hfailed : key ∈ m.failed
    · simp only [if_pos hfailed]
      exact .const _
    simp only [if_neg hfailed]
    by_cases hrun : key ∈ m.runners
    · simp only [if_pos hrun]
      exact .const _
    simp only [if_neg hrun, captureAndRun]
    have hsame := hfloor ⟨key, hkey, hfailed, hrun⟩
    by_cases hr : (o r).free < PREFILL_GRAPH_MIN_FREE
    · have hlow : ∀ i, (o i).free < PREFILL_GRAPH_MIN_FREE := fun i => (hsame i r).mpr hr
      simp only [hlow, if_true]
      exact .const _
    · have hhigh : ∀ i, ¬ (o i).free < PREFILL_GRAPH_MIN_FREE := fun i h => hr ((hsame i r).mp h)
      simp only [hhigh, if_false]
      exact captureAndKeep_uniform hn m key o

end PrefillGraphManager

/-- **One pass on equal managers.** If every rank that is about to capture a prompt grid reads the
same side of the memory floor, the group goes through in lockstep and its managers stay equal. -/
theorem RankGraphs.runPass_uniform (s : RankGraphs) (expertParallel : Bool) (pass : Pass)
    (o : Fin n → Local)
    (hfloor : s.Captures expertParallel pass →
      ∀ i j, (o i).free < PREFILL_GRAPH_MIN_FREE ↔ (o j).free < PREFILL_GRAPH_MIN_FREE) :
    Uniform allReduce fun i => s.runPass n expertParallel (o i) pass := by
  by_cases hn : n ≤ 1
  · have hsub : Subsingleton (Fin n) := Fin.subsingleton_iff_le_one.mpr hn
    exact .of_subsingleton _
  have hn : 1 < n := Nat.lt_of_not_le hn
  cases pass with
  | rows batchSize maxActualSeqLen => exact s.forward_uniform hn o _ _ _
  | grid nReal width maxActualSeqLen wantsPrompt =>
    refine .bind ?_ fun replayed => ?_
    · cases wantsPrompt with
      | true => exact .const _
      | false =>
        simp only [tryReplayGrid, Bool.false_eq_true, if_false, tryReplayPrefill]
        cases hm : s.prefill with
        | none => exact .const _
        | some m =>
          refine .bind (m.tryReplay_uniform hn _ _ _ o fun h => ?_) fun _ => .const _
          exact hfloor ⟨rfl, m, hm, h⟩
    · split
      · exact .const _
      · exact replayed.2.forward_uniform hn o _ _ _

/-! ### What a split floor does -/

theorem ranksAgree_issues (hn : 1 < n) (values : Local → Int) :
    Issues (fun o => tensorModelParallelRanksAgree n (values o)) [.ranksAgree] := by
  intro o issued a h
  simp only [tensorModelParallelRanksAgree, if_neg (show ¬ n ≤ 1 by omega),
    Script.Path.enter_iff, Script.Path.done_iff] at h
  obtain ⟨answer, rest, rfl, rfl, rfl⟩ := h
  rfl

theorem allReduceMin_issues (hn : 1 < n) (values : Local → Int) :
    Issues (fun o => tensorModelParallelAllReduceMin n (values o)) [.allReduceMin] := by
  intro o issued a h
  simp only [tensorModelParallelAllReduceMin, if_neg (show ¬ n ≤ 1 by omega),
    Script.Path.enter_iff, Script.Path.done_iff] at h
  obtain ⟨answer, rest, rfl, rfl, rfl⟩ := h
  rfl

/-- What the decode manager issues does not depend on the rank, and is never a minimum. -/
theorem CUDAGraphManager.select_issues (hn : 1 < n) (m : CUDAGraphManager)
    (batchSize seqLen maxActualSeqLen : Nat) :
    ∃ calls, .allReduceMin ∉ calls ∧
      Issues (fun o => m.select n o batchSize seqLen maxActualSeqLen) calls := by
  unfold select
  by_cases hlen : seqLen ≠ 1
  · simp only [if_pos hlen]
    exact ⟨[], by simp, .done _⟩
  simp only [if_neg hlen]
  cases m.pickBucket maxActualSeqLen with
  | none => exact ⟨[], by simp, .done _⟩
  | some bucket =>
    by_cases hrun : (⟨batchSize, bucket⟩ : GraphKey) ∈ m.runners
    · simp only [if_pos hrun]
      exact ⟨[], by simp, .done _⟩
    simp only [if_neg hrun]
    by_cases hlazy : m.lazy = true
    · simp only [if_pos hlazy, captureOnMiss]
      by_cases hkey : (⟨batchSize, bucket⟩ : GraphKey) ∈ m.failed ∨
          m.onGrid ⟨batchSize, bucket⟩ = false
      · simp only [if_pos hkey]
        exact ⟨[], by simp, .done _⟩
      · simp only [if_neg hkey, if_pos hn]
        exact ⟨[.ranksAgree] ++ [], by simp,
          (ranksAgree_issues hn _).bind fun agree => .done _⟩
    · simp only [if_neg hlazy]
      exact ⟨[], by simp, .done _⟩

/-- What `forward` issues is settled by the decode manager and the shape. -/
theorem RankGraphs.forward_issues (hn : 1 < n) (decode : Option CUDAGraphManager)
    (batchSize seqLen maxActualSeqLen : Nat) :
    ∃ calls, .allReduceMin ∉ calls ∧ ∀ prefill,
      Issues (fun o => RankGraphs.forward ⟨decode, prefill⟩ n o batchSize seqLen maxActualSeqLen)
        calls := by
  cases decode with
  | none => exact ⟨[], by simp, fun prefill => .done _⟩
  | some m =>
    obtain ⟨calls, hmin, hcalls⟩ := m.select_issues hn batchSize seqLen maxActualSeqLen
    by_cases hcheck : m.checkLockstep = true
    · refine ⟨calls ++ ([.ranksAgree] ++ [] ++ []) ++ [], by simp [hmin], fun prefill => ?_⟩
      simp only [forward, CUDAGraphManager.tryReplay, if_pos hcheck]
      refine .bind (.bind hcalls fun selected => .bind ?_ fun _ => .done _) fun _ => .done _
      exact .bind (ranksAgree_issues hn _) fun _ => .done _
    · refine ⟨calls ++ [] ++ [], by simp [hmin], fun prefill => ?_⟩
      simp only [forward, CUDAGraphManager.tryReplay, if_neg hcheck]
      exact .bind (.bind hcalls fun selected => .done _) fun _ => .done _

/-- A rank that captures a prompt grid enters `ranks_agree` first; `all_reduce_min` follows exactly
if the step was served. -/
theorem PrefillGraphManager.captureAndKeep_path (hn : 1 < n) {m : PrefillGraphManager}
    {o : Local} {key : Nat × Nat} {issued : List Consensus} {r : Bool × PrefillGraphManager}
    (h : (m.captureAndKeep n o key).Path issued r) :
    issued = if r.1 then [.ranksAgree, .allReduceMin] else [.ranksAgree] := by
  obtain ⟨first, second, agree, rfl, hfirst, hsecond⟩ := Script.Path.bind_iff.mp h
  obtain rfl := ranksAgree_issues hn (fun o => flag (o.prefillCapture == .recorded)) o _ _ hfirst
  split at hsecond
  · obtain ⟨rfl, rfl⟩ := Script.Path.done_iff.mp hsecond
    rfl
  · obtain ⟨third, rest, keep, rfl, hthird, hrest⟩ := Script.Path.bind_iff.mp hsecond
    obtain rfl := allReduceMin_issues hn (fun o => flag o.parity) o _ _ hthird
    split at hrest <;> obtain ⟨rfl, rfl⟩ := Script.Path.done_iff.mp hrest <;> rfl

/-- **A split floor.** The rank below it and the rank above it issue different collectives, however
the rest of their passes goes. -/
theorem RankGraphs.path_of_floor_split (hn : 1 < n) {s : RankGraphs} {expertParallel : Bool}
    {pass : Pass} (hcaptures : s.Captures expertParallel pass) {low high : Local}
    (hlow : low.free < PREFILL_GRAPH_MIN_FREE) (hhigh : ¬ high.free < PREFILL_GRAPH_MIN_FREE)
    {issued : List Consensus} {r r' : Except Raised Unit × RankGraphs}
    (h : (s.runPass n expertParallel low pass).Path issued r)
    (h' : (s.runPass n expertParallel high pass).Path issued r') : False := by
  cases pass with
  | rows batchSize maxActualSeqLen => exact hcaptures
  | grid nReal width maxActualSeqLen wantsPrompt =>
    obtain ⟨rfl, m, hm, key, hkey, hfailed, hrun⟩ := hcaptures
    obtain ⟨decode, prefill⟩ := s
    obtain rfl : prefill = some m := hm
    obtain ⟨calls, hmin, hcalls⟩ := forward_issues hn decode nReal width maxActualSeqLen
    simp only [runPass, tryReplayGrid, Bool.false_eq_true, if_false, tryReplayPrefill,
      PrefillGraphManager.tryReplay, hkey, if_neg hfailed, if_neg hrun,
      PrefillGraphManager.captureAndRun, if_pos hlow, Script.done_bind] at h
    simp only [runPass, tryReplayGrid, Bool.false_eq_true, if_false, tryReplayPrefill,
      PrefillGraphManager.tryReplay, hkey, if_neg hfailed, if_neg hrun,
      PrefillGraphManager.captureAndRun, if_neg hhigh] at h'
    -- the low rank goes straight to `forward`
    obtain rfl := hcalls _ low issued r h
    obtain ⟨first, second, replayed, heq, hfirst, hsecond⟩ := Script.Path.bind_iff.mp h'
    obtain ⟨kept, rest, served, rfl, hkept, hrest⟩ := Script.Path.bind_iff.mp hfirst
    obtain ⟨rfl, rfl⟩ := Script.Path.done_iff.mp hrest
    obtain rfl := PrefillGraphManager.captureAndKeep_path hn hkept
    by_cases hserved : served.1 = true
    · -- served: its second collective is a minimum
      simp only [hserved, if_true, List.append_nil] at heq
      exact hmin (by simp [heq])
    · -- not served: it goes to `forward` too, one collective late
      simp only [hserved] at hsecond
      obtain rfl := hcalls _ high second r' hsecond
      have hlen := congrArg List.length heq
      simp only [hserved, List.length_append] at hlen
      simp at hlen

/-! ### Startup -/

/-- Ranks that all captured, or all failed to, settle the gate together. -/
theorem tpGraphsAreSafe_uniform (hn : 1 < n) (m : CUDAGraphManager) (captured : Bool)
    (o : Fin n → Local) :
    Uniform allReduce fun i => tpGraphsAreSafe n m captured (o i).parity := by
  refine .bind (.const _) fun agree => ?_
  by_cases hstop : agree = false ∨ (if captured = true then m.gridFingerprint else 0) = 0
  · simp only [if_pos hstop]
    exact .const _
  · simp only [if_neg hstop]
    exact .of_lockstep (allReduceMin_lockstep hn _) (.const _)

/-- The fingerprint of a rank that captured nothing is no grid's. -/
theorem fingerprint_inj {m : CUDAGraphManager} {a b : Bool}
    (h : (if a then m.gridFingerprint else 0) = if b then m.gridFingerprint else 0) : a = b := by
  have hpos : 0 < m.gridFingerprint := Nat.lt_of_lt_of_le Nat.zero_lt_one (Nat.le_add_right _ _)
  cases a <;> cases b <;> simp at h <;> first | rfl | omega

/-- Ranks that captured different grids all drop their graphs. -/
theorem tpGraphsAreSafe_lockstep_of_ne (hn : 1 < n) (m : CUDAGraphManager)
    {captured : Fin n → Bool} (hne : ¬ ∀ i j, captured i = captured j) (o : Fin n → Local) :
    Lockstep allReduce (fun i => tpGraphsAreSafe n m (captured i) (o i).parity)
      ([.ranksAgree] ++ []) fun _ => false := by
  have hfp : ¬ ∀ i j, ((if captured i then m.gridFingerprint else 0 : Nat) : Int) =
      (if captured j then m.gridFingerprint else 0 : Nat) :=
    fun h => hne fun i j => fingerprint_inj (Int.ofNat_inj.mp (h i j))
  refine (ranksAgree_lockstep hn _).bind ?_
  simp only [decide_eq_false hfp, true_or, if_true]
  exact .done _

/-- **Startup.** However the captures and the parity checks of the ranks come out, they install the
same managers. -/
theorem enableCudaGraph_uniform (settings : GraphSettings) (o : Fin n → Local) :
    Uniform allReduce fun i => enableCudaGraph n settings (o i) := by
  by_cases hn : n ≤ 1
  · have hsub : Subsingleton (Fin n) := Fin.subsingleton_iff_le_one.mpr hn
    exact .of_subsingleton _
  have hn : 1 < n := Nat.lt_of_not_le hn
  obtain ⟨r⟩ : Nonempty (Fin n) := ⟨⟨0, by omega⟩⟩
  simp only [enableCudaGraph]
  split
  · exact .const _
  split
  · exact .const _
  cases CUDAGraphManager.new n (settings.batchSizes.filter (· ≤ settings.maxRequestNum))
      (settings.seqLenBuckets.filter (· ≤ settings.maxSeqLen)) settings.lazy
      settings.checkEnv with
  | error e => exact .const _
  | ok manager =>
    dsimp only
    by_cases hall : ∀ i j, ((o i).decodeCapture == .recorded) =
        ((o j).decodeCapture == .recorded)
    · simp only [hall _ r]
      exact .bind (tpGraphsAreSafe_uniform hn _ _ o) fun _ => .const _
    · refine .of_lockstep (tpGraphsAreSafe_lockstep_of_ne hn _ hall o) ?_
      simp only [Bool.false_and, Bool.false_eq_true, if_false]
      exact .const _

/-! ### Runs of passes -/

/-- All ranks have the same managers. -/
def Agree (g : Fin n → RankGraphs) : Prop := ∀ i j, g i = g j

/-- One pass of the group: the ranks enter every consensus collective together, and each ends with
the managers its own code leaves. -/
def passStep (expertParallel : Bool) (g : Fin n → RankGraphs) (label : Pass × (Fin n → Local))
    (g' : Fin n → RankGraphs) : Prop :=
  ∃ calls results, Lockstep allReduce
    (fun i => (g i).runPass n expertParallel (label.2 i) label.1) calls results ∧
    ∀ i, g' i = (results i).2

/-- The pass goes through: no rank is left in a collective, and the managers agree after it. -/
def InLockstep (expertParallel : Bool) (g : Fin n → RankGraphs) (pass : Pass)
    (o : Fin n → Local) : Prop :=
  ∃ g', passStep expertParallel g (pass, o) g' ∧ Agree g'

/-- If the pass makes the prefill manager capture, all ranks read the same side of the floor. -/
def FloorAgrees (expertParallel : Bool) (g : Fin n → RankGraphs)
    (label : Pass × (Fin n → Local)) : Prop :=
  ∀ i j, (g i).Captures expertParallel label.1 →
    ((label.2 i).free < PREFILL_GRAPH_MIN_FREE ↔ (label.2 j).free < PREFILL_GRAPH_MIN_FREE)

theorem runPass_uniform_of_agree {expertParallel : Bool} {g : Fin n → RankGraphs}
    (hagree : Agree g) {pass : Pass} {o : Fin n → Local}
    (hfloor : FloorAgrees expertParallel g (pass, o)) :
    Uniform allReduce fun i => (g i).runPass n expertParallel (o i) pass := by
  cases isEmpty_or_nonempty (Fin n) with
  | inl hempty => exact .of_subsingleton _
  | inr hranks =>
    obtain ⟨r⟩ := hranks
    have hg : (fun i => (g i).runPass n expertParallel (o i) pass) =
        fun i => (g r).runPass n expertParallel (o i) pass :=
      funext fun i => by rw [hagree i r]
    rw [hg]
    refine (g r).runPass_uniform expertParallel pass o fun hcaptures i j => ?_
    exact hfloor i j (by rw [hagree i r]; exact hcaptures)

/-- One step keeps agreement. -/
theorem passStep_agree {expertParallel : Bool} {g g' : Fin n → RankGraphs}
    {label : Pass × (Fin n → Local)} (hagree : Agree g)
    (h : Guarded (passStep expertParallel) (FloorAgrees expertParallel) g label g') :
    Agree g' := by
  obtain ⟨⟨calls, results, hlock, hg'⟩, hfloor⟩ := h
  obtain ⟨calls', results', hlock', heq⟩ := runPass_uniform_of_agree hagree hfloor
  obtain rfl := hlock.unique hlock'
  intro i j
  rw [hg' i, hg' j, heq i j]

theorem inLockstep_of_floorAgrees {expertParallel : Bool} {g : Fin n → RankGraphs}
    (hagree : Agree g) {pass : Pass} {o : Fin n → Local}
    (hfloor : FloorAgrees expertParallel g (pass, o)) : InLockstep expertParallel g pass o := by
  obtain ⟨calls, results, hlock, heq⟩ := runPass_uniform_of_agree hagree hfloor
  have hstep : passStep expertParallel g (pass, o) fun i => (results i).2 :=
    ⟨calls, results, hlock, fun _ => rfl⟩
  exact ⟨_, hstep, passStep_agree hagree ⟨hstep, hfloor⟩⟩

theorem floorAgrees_of_passStep {expertParallel : Bool} {g g' : Fin n → RankGraphs}
    (hagree : Agree g) {pass : Pass} {o : Fin n → Local}
    (h : passStep expertParallel g (pass, o) g') : FloorAgrees expertParallel g (pass, o) := by
  obtain ⟨calls, results, hlock, -⟩ := h
  intro i j hcaptures
  by_cases hij : i = j
  · rw [hij]
  have hn : 1 < n := by
    have hi := i.isLt
    have hj := j.isLt
    have hval : (i : Nat) ≠ j := fun hval => hij (Fin.ext hval)
    omega
  have hi := hlock.path i
  have hj := hlock.path j
  rw [← hagree i j] at hj
  by_cases hlow : (o i).free < PREFILL_GRAPH_MIN_FREE <;>
    by_cases hlow' : (o j).free < PREFILL_GRAPH_MIN_FREE
  · exact iff_of_true hlow hlow'
  · exact (RankGraphs.path_of_floor_split hn hcaptures hlow hlow' hi hj).elim
  · exact (RankGraphs.path_of_floor_split hn hcaptures hlow' hlow hj hi).elim
  · exact iff_of_false hlow hlow'

/-- **Graph lockstep over runs.** After every run of passes each of which met the floor alike, the
ranks' managers agree, and the next pass goes through exactly if it does too. -/
theorem run_lockstep_iff {expertParallel : Bool} {g g' : Fin n → RankGraphs}
    {history : List (Pass × (Fin n → Local))} (hagree : Agree g)
    (hrun : Run (Guarded (passStep expertParallel) (FloorAgrees expertParallel)) g history g') :
    Agree g' ∧ ∀ pass o,
      InLockstep expertParallel g' pass o ↔ FloorAgrees expertParallel g' (pass, o) := by
  have hagree' : Agree g' := hrun.invariant (fun _ _ _ hg h => passStep_agree hg h) hagree
  refine ⟨hagree', fun pass o => ⟨?_, fun h => inLockstep_of_floorAgrees hagree' h⟩⟩
  rintro ⟨g'', hstep, -⟩
  exact floorAgrees_of_passStep hagree' hstep

end Group

/-- Lazy graphs after startup on the grid `1, 2 × 256, 512`: the seed pair is captured. -/
def seededGraphs : RankGraphs where
  decode := some
    { batchSizes := [1, 2]
      seqLenBuckets := [256, 512]
      lazy := true
      checkLockstep := false
      runners := {⟨1, 256⟩, ⟨2, 512⟩} }
  prefill := some {}

/-- A card with this much free memory, on which everything else succeeds. -/
def cardWithFree (free : Nat) : Local := ⟨free, .recorded, true, .recorded⟩

theorem seededGraphs_captures :
    seededGraphs.Captures false (.grid 1 8 8 false) :=
  ⟨rfl, {}, rfl, (1, 8), by decide +kernel, by decide, by decide⟩

/-- Two ranks, one prompt of eight tokens, 3 GiB free on one card and 5 GiB on the other: the pass
does not go through. -/
theorem floor_split_hangs :
    ¬ InLockstep (n := 2) false (fun _ => seededGraphs) (.grid 1 8 8 false)
      fun rank => cardWithFree (if rank = 0 then 3 <<< 30 else 5 <<< 30) := by
  rintro ⟨g', hstep, -⟩
  have hfloor := floorAgrees_of_passStep (fun _ _ => rfl) hstep 0 1 seededGraphs_captures
  exact absurd (hfloor.mp (by decide)) (by decide)

/-- On equal cards the same prompt is captured, and the next one replays it. -/
theorem run_lockstep_iff_prompt :
    Agree (n := 2) (fun _ => { seededGraphs with prefill := some { runners := {(1, 8)} } }) ∧
      ∀ pass o, InLockstep (n := 2) false
        (fun _ => { seededGraphs with prefill := some { runners := {(1, 8)} } }) pass o ↔
        FloorAgrees false
          (fun _ => { seededGraphs with prefill := some { runners := {(1, 8)} } }) (pass, o) := by
  have hfloor : FloorAgrees (n := 2) false (fun _ => seededGraphs)
      (.grid 1 8 8 false, fun _ => cardWithFree (8 <<< 30)) := fun _ _ _ => Iff.rfl
  have hlock : Lockstep allReduce
      (fun _ : Fin 2 => seededGraphs.runPass 2 false (cardWithFree (8 <<< 30)) (.grid 1 8 8 false))
      [.ranksAgree, .allReduceMin]
      fun _ => (.ok (), { seededGraphs with prefill := some { runners := {(1, 8)} } }) :=
    .const _
  have hrun : Run (Guarded (passStep false) (FloorAgrees false)) (fun _ : Fin 2 => seededGraphs)
      [(.grid 1 8 8 false, fun _ => cardWithFree (8 <<< 30))]
      fun _ => { seededGraphs with prefill := some { runners := {(1, 8)} } } :=
    .single ⟨⟨_, _, hlock, fun _ => rfl⟩, hfloor⟩
  exact run_lockstep_iff (fun _ _ => rfl) hrun

end RapidLlm
