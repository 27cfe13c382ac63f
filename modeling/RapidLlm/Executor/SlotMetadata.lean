import Mathlib.Tactic.Ring
import RapidLlm.Lib.Rectangle
import RapidLlm.Lib.Run
import RapidLlm.Executor.SlotBatch

/-!
# RapidLlm.Executor.SlotMetadata

**The attention metadata of a step** (`SlotBatch.begin_prefill`, `begin_extend`, `begin_decode`
and `reset` of `executor/slot_batch.py`), over the block table of `SlotBatch`.

A decode that finds the batch of the last one, every length one further, advances the device
rows and the host mirror in place; any other builds them anew. `Exact` is what makes this safe:
the host lists, when there are any, are those of the rows on the device. A call may raise
half-way, so each one returns what it left behind beside its outcome.
-/

namespace RapidLlm

/-- The fields of `AttentionMetadata` that a `SlotBatch` drives. -/
structure AttenInfo where
  curSelectIndex : Option (List CacheRow) := none
  bStartLoc : Option (List Int) := none
  bReqIdx : Option (List Int) := none
  bSeqLen : Option (List Int) := none
  maxActualSeqLen : Nat := 0
  isPrefill : Bool := true
  bPrefixLen : Option (List Int) := none
  bKvBase : Option (List CacheRow) := none
  maxChunkLen : Int := 0
  bSeqLenCpu : Option (List Int) := none
  deriving DecidableEq, Repr

/-- What a `SlotBatch` keeps between steps: the metadata, the device rows `_b_req_idx` and
`_b_seq_len`, which are always set together, and their host mirror. -/
structure SlotMetadata where
  atten : AttenInfo
  device : Option (List Int × List Int)
  hostSlots : List Nat
  hostLens : List Nat
  deriving DecidableEq, Repr

/-- A stretch of a sequence: its slot, the first cache row it writes, and the cached length once
it lands. -/
structure Chunk where
  slot : Nat
  start : Nat
  stop : Nat
  deriving DecidableEq, Repr

/-- How often a Python list is repeated by the chunk's length: a negative count is none. -/
def Chunk.length (chunk : Chunk) : Nat := chunk.stop - chunk.start

/-! ### The host and the device -/

/-- `max(values)`. -/
def maxOf {α : Type} [Max α] : List α → Except Raised α
  | [] => .error (.valueError "max() iterable argument is empty")
  | value :: values => .ok (values.foldl max value)

/-- `_to_device`. -/
def toDevice (values : List Nat) : List Int := values.map Nat.cast

/-- Where an index into an axis points; a negative one counts from the end. -/
def axisIndex (size : Nat) (i : Int) : Option Nat :=
  if 0 ≤ i ∧ i < size then some i.toNat
  else if -(size : Int) ≤ i ∧ i < 0 then some (i + size).toNat
  else none

/-- `torch.repeat_interleave(values, repeats)`. -/
def repeatInterleave (values repeats : List Nat) : List Nat :=
  (values.zip repeats).flatMap fun pair => List.replicate pair.2 pair.1

/-- `torch.cumsum(values, 0)`. -/
def cumsum (values : List Int) : List Int :=
  (List.range values.length).map fun i => (values.take (i + 1)).sum

namespace SlotBatch

/-- `table[slot, position]`. -/
def gatherAt (batch : SlotBatch) (slot position : Int) : Except Raised CacheRow :=
  match axisIndex batch.totalSlots slot, axisIndex batch.maxSeqLen position with
  | some slot, some position => .ok (batch.table slot position)
  | _, _ => .error (.indexError "index is out of bounds")

/-- `table[slots, positions]`. -/
def gather (batch : SlotBatch) (slots positions : List Int) : Except Raised (List CacheRow) :=
  (slots.zip positions).mapM fun pair => batch.gatherAt pair.1 pair.2

/-- `flatten_extend_rows`: one row per token, on the host. -/
def flattenExtendRows (chunks : List Chunk) : List Nat × List Nat :=
  chunks.foldl (fun rows chunk =>
    (rows.1 ++ List.replicate chunk.length chunk.slot,
      rows.2 ++ List.range' (chunk.start + 1) chunk.length)) ([], [])

/-- `_flatten_rows`: one row per token, by gathers. -/
def flattenRows (chunks : List Chunk) : Except Raised (List Int × List Int) :=
  if chunks.any fun chunk => chunk.stop < chunk.start then
    .error (.runtimeError "repeats can not be negative")
  else
    let chunkLens := chunks.map Chunk.length
    let lens := toDevice chunkLens
    let rowReq := repeatInterleave (List.range chunks.length) chunkLens
    let stretchStarts := (cumsum lens).zipWith (· - ·) lens
    let within := (List.range chunkLens.sum).zipWith
      (fun (k req : Nat) => (k : Int) - stretchStarts.getD req 0) rowReq
    let starts := toDevice (chunks.map Chunk.start)
    let slots := toDevice (chunks.map Chunk.slot)
    .ok (rowReq.map fun req : Nat => slots.getD req 0,
      rowReq.zipWith (fun (req : Nat) (offset : Int) => starts.getD req 0 + offset + 1) within)

/-- The padding of `begin_extend`: filler rows up to a captured size, as long as the longest
sequence. -/
def padExtendRows (batch : SlotBatch) (longest : Nat) (rows : List Int × List Int) :
    List Int × List Int :=
  match batch.fillerSlot with
  | none => rows
  | some filler =>
      let fillerLen := min longest batch.maxSeqLen
      let pad := batch.graphBatchSize rows.1.length - rows.1.length
      (rows.1 ++ List.replicate pad (filler : Int), rows.2 ++ List.replicate pad (fillerLen : Int))

/-- `plan_extend_rows`: the rows `begin_extend` would submit, on the host. -/
def planExtendRows (batch : SlotBatch) (chunks : List Chunk) :
    Except Raised (List Nat × List Nat) :=
  let rows := flattenExtendRows chunks
  match batch.fillerSlot with
  | none => .ok rows
  | some filler =>
      let pad := batch.graphBatchSize rows.1.length - rows.1.length
      if pad > 0 then do
        let longest ← maxOf (chunks.map Chunk.stop)
        let fillerLen := min longest batch.maxSeqLen
        return (rows.1 ++ List.replicate pad filler, rows.2 ++ List.replicate pad fillerLen)
      else .ok rows

/-- `pad_decode_rows`: grow the batch to the next captured size. -/
def padDecodeRows (batch : SlotBatch) (slots lens : List Nat) :
    Except Raised (List Nat × List Nat) :=
  match batch.fillerSlot with
  | none => .ok (slots, lens)
  | some filler =>
      let pad := batch.graphBatchSize slots.length - slots.length
      if pad > 0 then do
        let longest ← maxOf lens
        let fillerLen := min longest batch.maxSeqLen
        return (slots ++ List.replicate pad filler, lens ++ List.replicate pad fillerLen)
      else .ok (slots, lens)

end SlotBatch

/-- `_clear_chunked_metadata`. -/
def AttenInfo.clearChunked (atten : AttenInfo) : AttenInfo :=
  { atten with
    bPrefixLen := none
    bKvBase := none
    maxChunkLen := 0 }

namespace SlotMetadata

open SlotBatch

variable (s : SlotMetadata) (batch : SlotBatch)

/-- A new `SlotBatch`, over whatever the runner's metadata holds. -/
def fresh (atten : AttenInfo) : SlotMetadata where
  atten := atten
  device := none
  hostSlots := []
  hostLens := []

/-- `reset`. -/
def reset : SlotMetadata :=
  { s with
    hostSlots := []
    hostLens := [] }

/-- `begin_prefill`. -/
def beginPrefill (dcpSize : Nat) (chunks : List Chunk) : Except Raised Unit × SlotMetadata :=
  match maxOf (chunks.map fun chunk => (chunk.stop : Int) - chunk.start) with
  | .error e => (.error e, s)
  | .ok width =>
      if width > batch.maxSeqLen then
        (.error (.valueError
          s!"prompt length {width} exceeds max_seq_len {batch.maxSeqLen}"), s)
      else
        let slots := toDevice (chunks.map Chunk.slot)
        let starts := toDevice (chunks.map Chunk.start)
        let atten :=
          { s.atten with
            bReqIdx := some slots
            bSeqLen := some (toDevice (chunks.map Chunk.stop))
            maxActualSeqLen := (chunks.map Chunk.stop).foldl max 0
            isPrefill := true }
        if width < 0 then
          (.error (.runtimeError "upper bound and lower bound inconsistent with step sign"),
            { s with atten := atten })
        else
          let cells := chunks.flatMap fun chunk => (List.range width.toNat).map fun j =>
            ((chunk.slot : Int), ((chunk.start + j : Nat) : Int))
          match cells.mapM fun cell => batch.gatherAt cell.1 cell.2 with
          | .error e => (.error e, { s with atten := atten })
          | .ok rows =>
              let atten :=
                { atten with
                  curSelectIndex := some rows
                  bStartLoc := some (((List.range batch.totalSlots).take chunks.length).map
                    fun i : Nat => (i : Int) * width) }
              if chunks.any fun chunk => chunk.start > 0 then
                if dcpSize > 1 then
                  (.error (.valueError "a resumed chunk cannot run as a DCP prefill grid"),
                    { s with atten := atten })
                else
                  match slots.mapM fun slot => batch.gatherAt slot 0 with
                  | .error e => (.error e, { s with
                      atten := { atten with bPrefixLen := some starts } })
                  | .ok bases =>
                      (.ok (), { s.reset with
                        atten :=
                          { atten with
                            bPrefixLen := some starts
                            bKvBase := some bases
                            maxChunkLen := width } })
              else (.ok (), { s.reset with atten := atten.clearChunked })

/-- `begin_extend`: the row count submitted. -/
def beginExtend (chunks : List Chunk) : Except Raised Nat × SlotMetadata :=
  match maxOf (chunks.map Chunk.stop) with
  | .error e => (.error e, s)
  | .ok longest =>
      if longest > batch.maxSeqLen then
        (.error (.valueError
          s!"sequence length {longest} exceeds max_seq_len {batch.maxSeqLen}"), s)
      else
        match flattenRows chunks with
        | .error e => (.error e, s)
        | .ok rows =>
            let rows := batch.padExtendRows longest rows
            let atten :=
              { s.atten with
                bReqIdx := some rows.1
                bSeqLen := some rows.2
                maxActualSeqLen := longest
                isPrefill := false }
            match planExtendRows batch chunks with
            | .error e => (.error e, { s with device := some rows, atten := atten })
            | .ok planned =>
                let atten := { atten with bSeqLenCpu := some (toDevice planned.2) }
                match batch.gather rows.1 (rows.2.map (· - 1)) with
                | .error e => (.error e, { s with device := some rows, atten := atten })
                | .ok selected =>
                    let atten :=
                      { atten with
                        curSelectIndex := some selected
                        bStartLoc := none }
                    (.ok rows.1.length, { s.reset with
                      device := some rows
                      atten := atten.clearChunked })

/-- What `begin_decode` does once its rows are installed: point the metadata at them. -/
def pointAtRows (rows : List Int × List Int) (seqLens : List Nat) (count : Nat) :
    Except Raised Nat × SlotMetadata :=
  let atten :=
    { s.atten with
      bReqIdx := some rows.1
      bSeqLen := some rows.2 }
  match maxOf seqLens with
  | .error e => (.error e, { s with atten := atten })
  | .ok longest =>
      let atten :=
        { atten with
          maxActualSeqLen := longest
          isPrefill := false }
      match batch.gather rows.1 (rows.2.map (· - 1)) with
      | .error e => (.error e, { s with atten := atten })
      | .ok selected =>
          let atten :=
            { atten with
              curSelectIndex := some selected
              bStartLoc := none }
          (.ok count, { s with atten := atten.clearChunked })

/-- The rows of a decode, with their host mirrors. -/
def install (rows : List Int × List Int) (cpu : List Int) (slots lens : List Nat) :
    SlotMetadata where
  atten := { s.atten with bSeqLenCpu := some cpu }
  device := some rows
  hostSlots := slots
  hostLens := lens

/-- `begin_decode`: the batch size submitted. -/
def beginDecode (slots seqLens : List Nat) : Except Raised Nat × SlotMetadata :=
  match padDecodeRows batch slots seqLens with
  | .error e => (.error e, s)
  | .ok padded =>
      if padded.1 = s.hostSlots ∧ padded.2 = s.hostLens.map (· + 1) then
        -- the same requests, one token further
        match s.device with
        | none => (.error (.typeError "unsupported operand type for +="), s)
        | some rows =>
            let rows := (rows.1, rows.2.map (· + 1))
            let cpu := match s.atten.bSeqLenCpu with
              | some lens => lens.map (· + 1)
              | none => toDevice padded.2
            (s.install rows cpu padded.1 padded.2).pointAtRows batch rows seqLens padded.1.length
      else
        let rows := (toDevice padded.1, toDevice padded.2)
        (s.install rows (toDevice padded.2) padded.1 padded.2).pointAtRows batch rows seqLens
          padded.1.length

end SlotMetadata

/-! ### The two layouts of an extend -/

namespace SlotBatch

variable {batch : SlotBatch} {chunks : List Chunk}

theorem toDevice_append (xs ys : List Nat) : toDevice (xs ++ ys) = toDevice xs ++ toDevice ys :=
  List.map_append

theorem toDevice_replicate (n value : Nat) :
    toDevice (List.replicate n value) = List.replicate n (value : Int) :=
  List.map_replicate

theorem toDevice_flatMap {α : Type} (xs : List α) (f : α → List Nat) :
    toDevice (xs.flatMap f) = xs.flatMap fun x => toDevice (f x) :=
  List.map_flatMap

theorem toDevice_range' (start n : Nat) : toDevice (List.range' start n) =
    (List.range n).map fun t : Nat => (start : Int) + t := by
  rw [toDevice, List.range'_eq_map_range, List.map_map]
  exact List.map_congr_left fun t _ => by rw [Function.comp_apply, Int.natCast_add]

theorem toDevice_getD (values : List Nat) (i : Nat) :
    (toDevice values).getD i 0 = (values.getD i 0 : Nat) := by
  rw [toDevice, List.getD_eq_getElem?_getD, List.getD_eq_getElem?_getD, List.getElem?_map]
  cases values[i]? <;> rfl

theorem toDevice_sum (values : List Nat) : (toDevice values).sum = (values.sum : Nat) := by
  induction values with
  | nil => rfl
  | cons value values ih =>
    rw [toDevice, List.map_cons, List.sum_cons, ← toDevice, ih, List.sum_cons, Int.natCast_add]

/-- A chunk's tokens, one row each. -/
theorem flattenExtendRows_eq (chunks : List Chunk) : flattenExtendRows chunks =
    (chunks.flatMap fun chunk => List.replicate chunk.length chunk.slot,
      chunks.flatMap fun chunk => List.range' (chunk.start + 1) chunk.length) := by
  have hfold : ∀ (chunks : List Chunk) (rows : List Nat × List Nat),
      chunks.foldl (fun rows chunk => (rows.1 ++ List.replicate chunk.length chunk.slot,
        rows.2 ++ List.range' (chunk.start + 1) chunk.length)) rows =
      (rows.1 ++ chunks.flatMap fun chunk => List.replicate chunk.length chunk.slot,
        rows.2 ++ chunks.flatMap fun chunk => List.range' (chunk.start + 1) chunk.length) := by
    intro chunks
    induction chunks with
    | nil => simp
    | cons chunk chunks ih =>
      intro rows
      rw [List.foldl_cons, ih, List.flatMap_cons, List.flatMap_cons, List.append_assoc,
        List.append_assoc]
  rw [flattenExtendRows, hfold, List.nil_append, List.nil_append]

/-- Where the stretch of a request starts. -/
theorem stretchStarts_getD (values : List Nat) {i : Nat} (hi : i < values.length) :
    ((cumsum (toDevice values)).zipWith (· - ·) (toDevice values)).getD i 0 =
      ((values.take i).sum : Nat) := by
  have hlen : (toDevice values).length = values.length := List.length_map ..
  rw [List.getD_eq_getElem _ _ (by simp [cumsum, hlen, hi]), List.getElem_zipWith]
  have htake : (values.take (i + 1)).sum = (values.take i).sum + values[i] := by
    rw [List.take_succ_eq_append_getElem hi, List.sum_append, List.sum_singleton]
  have hsum : ((toDevice values).take (i + 1)).sum =
      ((values.take i).sum : Nat) + (values[i] : Int) := by
    rw [toDevice, ← List.map_take, ← toDevice, toDevice_sum, htake, Int.natCast_add]
  simp only [cumsum, List.getElem_map, List.getElem_range, hsum]
  simp only [toDevice, List.getElem_map]
  exact Int.add_sub_cancel _ _

/-- A row of a stretch is one of the rows. -/
theorem sum_take_lt {values : List Nat} {i t : Nat} (hi : i < values.length)
    (ht : t < values.getD i 0) : (values.take i).sum + t < values.sum := by
  have hsum := List.sum_take_add_sum_drop values i
  rw [List.drop_eq_getElem_cons hi, List.sum_cons] at hsum
  rw [List.getD_eq_getElem _ _ hi] at ht
  omega

/-- The request of each row, stretch by stretch. -/
theorem repeatInterleave_range (values : List Nat) :
    repeatInterleave (List.range values.length) values =
      (List.range values.length).flatMap fun i => List.replicate (values.getD i 0) i := by
  have hzip : (List.range values.length).zip values =
      (List.range values.length).map fun i => (i, values.getD i 0) := by
    refine List.ext_getElem (by simp) fun i hi hi' => ?_
    have hlt : i < values.length := by simpa using hi'
    rw [List.getElem_zip, List.getElem_map, List.getElem_range, List.getD_eq_getElem _ _ hlt]
  rw [repeatInterleave, hzip, List.flatMap_map]

theorem zipWith_replicate {α β γ : Type} (k : α → β → γ) (n : Nat) (a : α) (f : Nat → β) :
    (List.replicate n a).zipWith k ((List.range n).map f) = (List.range n).map fun t => k a (f t) :=
  List.ext_getElem (by simp) fun i _ _ => by simp

theorem zipWith_replicate_right {α β γ : Type} (k : α → β → γ) (n : Nat) (f : Nat → α) (b : β) :
    ((List.range n).map f).zipWith k (List.replicate n b) = (List.range n).map fun t => k (f t) b :=
  List.ext_getElem (by simp) fun i _ _ => by simp

/-- A list of stretches over the chunks. -/
theorem flatMap_stretches {α : Type} (chunks : List Chunk) (f : Chunk → List α) :
    chunks.flatMap f =
      (List.range chunks.length).flatMap fun i => f (chunks.getD i ⟨0, 0, 0⟩) := by
  conv_lhs => rw [← Rectangle.map_range_getD chunks ⟨0, 0, 0⟩, List.flatMap_map]

theorem map_getD {f : Chunk → Nat} {i : Nat} (hi : i < chunks.length) :
    (chunks.map f).getD i 0 = f (chunks.getD i ⟨0, 0, 0⟩) := by
  rw [List.getD_eq_getElem _ _ (by simpa using hi), List.getElem_map, List.getD_eq_getElem _ _ hi]

/-- **The gathers lay the rows out as the host does.** -/
theorem flattenRows_eq (h : ∀ chunk ∈ chunks, chunk.start ≤ chunk.stop) :
    flattenRows chunks =
      .ok (toDevice (flattenExtendRows chunks).1, toDevice (flattenExtendRows chunks).2) := by
  have hany : ¬ (chunks.any fun chunk => decide (chunk.stop < chunk.start)) = true := by
    rw [List.any_eq_true]
    rintro ⟨chunk, hchunk, hlt⟩
    exact Nat.not_lt_of_le (h chunk hchunk) (of_decide_eq_true hlt)
  let lens := chunks.map Chunk.length
  let chunkAt := fun i => chunks.getD i ⟨0, 0, 0⟩
  have hlens : lens.length = chunks.length := List.length_map ..
  have hlen : ∀ i ∈ List.range chunks.length, lens.getD i 0 = (chunkAt i).length := fun i hi =>
    map_getD (List.mem_range.mp hi)
  have hreq : repeatInterleave (List.range chunks.length) lens =
      (List.range chunks.length).flatMap fun i => List.replicate (chunkAt i).length i := by
    rw [← hlens, repeatInterleave_range, hlens]
    exact List.flatMap_congr fun i hi => by rw [hlen i hi]
  -- how far a row is into its stretch
  have hwithin : (List.range lens.sum).zipWith (fun (k req : Nat) => (k : Int) -
        ((cumsum (toDevice lens)).zipWith (· - ·) (toDevice lens)).getD req 0)
        (repeatInterleave (List.range chunks.length) lens) =
      (List.range chunks.length).flatMap fun i =>
        (List.range (chunkAt i).length).map fun t : Nat => (t : Int) := by
    have hrange : List.range lens.sum = (List.range chunks.length).flatMap fun i =>
        (List.range (chunkAt i).length).map fun t => (lens.take i).sum + t := by
      rw [← Rectangle.flatMap_cut 0 lens (List.range lens.sum) List.length_range, hlens]
      refine List.flatMap_congr fun i hi => ?_
      rw [Rectangle.cut, hlen i hi]
      refine List.map_congr_left fun t ht => ?_
      have hlt := List.mem_range.mp ht
      rw [← hlen i hi] at hlt
      have hi' : i < lens.length := hlens ▸ List.mem_range.mp hi
      rw [List.getD_eq_getElem _ _ (by rw [List.length_range]; exact sum_take_lt hi' hlt),
        List.getElem_range]
    rw [hreq, hrange, Rectangle.zipWith_flatMap fun i _ => by simp]
    refine List.flatMap_congr fun i hi => ?_
    rw [zipWith_replicate_right]
    refine List.map_congr_left fun t _ => ?_
    rw [stretchStarts_getD lens (hlens ▸ List.mem_range.mp hi), Int.natCast_add]
    omega
  simp only [flattenRows, if_neg hany]
  rw [flattenExtendRows_eq]
  rw [hwithin, hreq]
  refine congrArg Except.ok (Prod.ext ?_ ?_)
  · dsimp only
    rw [flatMap_stretches, List.map_flatMap, toDevice_flatMap]
    refine List.flatMap_congr fun i hi => ?_
    rw [List.map_replicate, toDevice_replicate, toDevice_getD, map_getD (List.mem_range.mp hi)]
  · dsimp only
    rw [Rectangle.zipWith_flatMap fun i _ => by simp, flatMap_stretches, toDevice_flatMap]
    refine List.flatMap_congr fun i hi => ?_
    rw [zipWith_replicate, toDevice_range', List.map_congr_left]
    intro t _
    rw [toDevice_getD, map_getD (List.mem_range.mp hi), Int.natCast_add]
    ring

theorem flattenRows_error (h : ¬ ∀ chunk ∈ chunks, chunk.start ≤ chunk.stop) :
    ∃ e, flattenRows chunks = .error e := by
  have hany : (chunks.any fun chunk => decide (chunk.stop < chunk.start)) = true := by
    rw [List.any_eq_true]
    by_contra hnone
    refine h fun chunk hchunk => Nat.not_lt.mp fun hlt => hnone ⟨chunk, hchunk, ?_⟩
    exact decide_eq_true hlt
  exact ⟨_, by rw [flattenRows, if_pos hany]⟩

/-- The rows installed on the device, filler included, are those the host plans. -/
theorem padExtendRows_eq {longest : Nat} {planned : List Nat × List Nat}
    (hmax : maxOf (chunks.map Chunk.stop) = .ok longest)
    (h : planExtendRows batch chunks = .ok planned) :
    batch.padExtendRows longest
        (toDevice (flattenExtendRows chunks).1, toDevice (flattenExtendRows chunks).2) =
      (toDevice planned.1, toDevice planned.2) := by
  have hlen : (toDevice (flattenExtendRows chunks).1).length = (flattenExtendRows chunks).1.length :=
    List.length_map ..
  unfold planExtendRows at h
  unfold padExtendRows
  cases hfiller : batch.fillerSlot with
  | none =>
    rw [hfiller] at h
    cases h
    rfl
  | some filler =>
    rw [hfiller] at h
    dsimp only at h ⊢
    rw [hlen]
    split at h
    · rw [hmax] at h
      cases h
      rw [toDevice_append, toDevice_append, toDevice_replicate, toDevice_replicate]
    · next hpad =>
      cases h
      rw [Nat.le_zero.mp (Nat.not_lt.mp hpad), List.replicate_zero, List.append_nil,
        List.replicate_zero, List.append_nil]

/-- The host can plan every extend that is not empty. -/
theorem planExtendRows_ok {longest : Nat} (hmax : maxOf (chunks.map Chunk.stop) = .ok longest) :
    ∃ planned, planExtendRows batch chunks = .ok planned := by
  unfold planExtendRows
  cases batch.fillerSlot with
  | none => exact ⟨_, rfl⟩
  | some filler =>
    dsimp only
    split
    · rw [hmax]
      exact ⟨_, rfl⟩
    · exact ⟨_, rfl⟩

/-- Gathers that are all in the table return. -/
theorem gather_ok {slots positions : List Int}
    (h : ∀ pair ∈ slots.zip positions,
      (axisIndex batch.totalSlots pair.1).isSome ∧ (axisIndex batch.maxSeqLen pair.2).isSome) :
    ∃ rows, batch.gather slots positions = .ok rows := by
  unfold gather
  generalize slots.zip positions = pairs at h
  induction pairs with
  | nil => exact ⟨[], rfl⟩
  | cons pair pairs ih =>
    obtain ⟨rows, hrows⟩ := ih fun pair hpair => h pair (List.mem_cons_of_mem _ hpair)
    obtain ⟨hslot, hposition⟩ := h pair List.mem_cons_self
    obtain ⟨slot, hslot⟩ := Option.isSome_iff_exists.mp hslot
    obtain ⟨position, hposition⟩ := Option.isSome_iff_exists.mp hposition
    refine ⟨batch.table slot position :: rows, ?_⟩
    rw [List.mapM_cons, hrows, gatherAt, hslot, hposition]
    rfl

theorem axisIndex_isSome {size : Nat} {i : Int} (hlo : -(size : Int) ≤ i) (hhi : i < size) :
    (axisIndex size i).isSome := by
  unfold axisIndex
  split
  · rfl
  · rw [if_pos (by omega)]
    rfl

theorem mem_flattenExtendRows {pair : Nat × Nat}
    (h : pair ∈ (flattenExtendRows chunks).1.zip (flattenExtendRows chunks).2) :
    ∃ chunk ∈ chunks, pair.1 = chunk.slot ∧ 0 < pair.2 ∧ pair.2 ≤ chunk.stop := by
  rw [flattenExtendRows_eq, Rectangle.zip_flatMap fun chunk _ => by simp] at h
  obtain ⟨chunk, hchunk, hpair⟩ := List.mem_flatMap.mp h
  have hslot := List.eq_of_mem_replicate (List.of_mem_zip hpair).1
  have hlen := List.mem_range'_1.mp (List.of_mem_zip hpair).2
  rw [Chunk.length] at hlen
  exact ⟨chunk, hchunk, hslot, by omega, by omega⟩

theorem le_maxOf {values : List Nat} {longest value : Nat} (h : maxOf values = .ok longest)
    (hmem : value ∈ values) : value ≤ longest := by
  cases values with
  | nil => cases hmem
  | cons first rest =>
    cases h
    have hle : value ≤ (first :: rest).foldl max first := ModelInput.le_foldl_max hmem
    rwa [List.foldl_cons, Nat.max_self] at hle

theorem maxOf_le {values : List Nat} {longest bound : Nat} (h : maxOf values = .ok longest)
    (hbound : ∀ value ∈ values, value ≤ bound) : longest ≤ bound := by
  have hfold : ∀ {rest : List Nat} {first : Nat}, first ≤ bound →
      (∀ value ∈ rest, value ≤ bound) → rest.foldl max first ≤ bound := by
    intro rest
    induction rest with
    | nil => exact fun hfirst _ => hfirst
    | cons value rest ih =>
      intro first hfirst hrest
      exact ih (Nat.max_le.mpr ⟨hfirst, hrest value List.mem_cons_self⟩)
        fun value hvalue => hrest value (List.mem_cons_of_mem _ hvalue)
  cases values with
  | nil => cases h
  | cons first rest =>
    cases h
    exact hfold (hbound first List.mem_cons_self)
      fun value hvalue => hbound value (List.mem_cons_of_mem _ hvalue)

/-- What a planned row is: a row of a chunk, or one of the filler slot. -/
theorem mem_planExtendRows {longest : Nat} {planned : List Nat × List Nat}
    (hmax : maxOf (chunks.map Chunk.stop) = .ok longest) (hle : longest ≤ batch.maxSeqLen)
    (h : planExtendRows batch chunks = .ok planned) {pair : Nat × Nat}
    (hmem : pair ∈ planned.1.zip planned.2) :
    (∃ chunk ∈ chunks, pair.1 = chunk.slot ∧ 0 < pair.2 ∧ pair.2 ≤ batch.maxSeqLen) ∨
      pair.1 < batch.totalSlots ∧ pair.2 ≤ batch.maxSeqLen := by
  have hchunk : pair ∈ (flattenExtendRows chunks).1.zip (flattenExtendRows chunks).2 →
      ∃ chunk ∈ chunks, pair.1 = chunk.slot ∧ 0 < pair.2 ∧ pair.2 ≤ batch.maxSeqLen := by
    intro hpair
    obtain ⟨chunk, hchunk, hslot, hpos, hstop⟩ := mem_flattenExtendRows hpair
    have := le_maxOf hmax (List.mem_map_of_mem hchunk)
    exact ⟨chunk, hchunk, hslot, hpos, by omega⟩
  have hlens : (flattenExtendRows chunks).1.length = (flattenExtendRows chunks).2.length := by
    simp [flattenExtendRows_eq, List.length_flatMap]
  unfold planExtendRows at h
  cases hfiller : batch.fillerSlot with
  | none =>
    rw [hfiller] at h
    cases h
    exact .inl (hchunk hmem)
  | some filler =>
    rw [hfiller] at h
    dsimp only at h
    split at h
    · rw [hmax] at h
      cases h
      rw [List.zip_append hlens] at hmem
      rcases List.mem_append.mp hmem with hmem | hmem
      · exact .inl (hchunk hmem)
      · have hslot := List.eq_of_mem_replicate (List.of_mem_zip hmem).1
        have hlen := List.eq_of_mem_replicate (List.of_mem_zip hmem).2
        unfold fillerSlot at hfiller
        split at hfiller
        · cases hfiller
          exact .inr ⟨by omega, by omega⟩
        · cases hfiller
    · cases h
      exact .inl (hchunk hmem)

end SlotBatch

namespace SlotMetadata

open SlotBatch

variable {s t : SlotMetadata} {batch : SlotBatch} {chunks : List Chunk}

/-- The metadata an extend leaves once its rows are planned. -/
def extended (s : SlotMetadata) (planned : List Nat × List Nat) (longest : Nat) :
    SlotMetadata :=
  { s with
    device := some (toDevice planned.1, toDevice planned.2)
    atten :=
      { s.atten with
        bReqIdx := some (toDevice planned.1)
        bSeqLen := some (toDevice planned.2)
        maxActualSeqLen := longest
        isPrefill := false
        bSeqLenCpu := some (toDevice planned.2) } }

/-- **What an extend does**: it raises at once, or installs the rows the host plans; then the
gather may still raise. -/
theorem beginExtend_cases (s : SlotMetadata) (batch : SlotBatch) (chunks : List Chunk) :
    ((∃ e, s.beginExtend batch chunks = (.error e, s)) ∧ ¬ (chunks ≠ [] ∧
      ∀ chunk ∈ chunks, chunk.start ≤ chunk.stop ∧ chunk.stop ≤ batch.maxSeqLen)) ∨
    ∃ longest planned, maxOf (chunks.map Chunk.stop) = .ok longest ∧
      longest ≤ batch.maxSeqLen ∧ planExtendRows batch chunks = .ok planned ∧
      ((∃ e, batch.gather (toDevice planned.1) ((toDevice planned.2).map (· - 1)) = .error e ∧
          s.beginExtend batch chunks = (.error e, s.extended planned longest)) ∨
        ∃ selected,
          batch.gather (toDevice planned.1) ((toDevice planned.2).map (· - 1)) = .ok selected ∧
          s.beginExtend batch chunks = (.ok planned.1.length,
            { (s.extended planned longest).reset with
              atten :=
                { (s.extended planned longest).atten with
                  curSelectIndex := some selected
                  bStartLoc := none }.clearChunked })) := by
  unfold beginExtend
  cases hmax : maxOf (chunks.map Chunk.stop) with
  | error e =>
    refine .inl ⟨⟨e, rfl⟩, fun hvalid => hvalid.1 ?_⟩
    cases chunks with
    | nil => rfl
    | cons chunk chunks => cases hmax
  | ok longest =>
    dsimp only
    split
    · next hgt =>
      refine .inl ⟨⟨_, rfl⟩, fun hvalid => Nat.not_le_of_gt hgt (maxOf_le hmax ?_)⟩
      exact List.forall_mem_map.mpr fun chunk hchunk => (hvalid.2 chunk hchunk).2
    next hle =>
    by_cases hrows : ∀ chunk ∈ chunks, chunk.start ≤ chunk.stop
    · obtain ⟨planned, hplanned⟩ : ∃ planned, planExtendRows batch chunks = .ok planned :=
        planExtendRows_ok hmax
      rw [flattenRows_eq hrows, hplanned]
      dsimp only
      rw [padExtendRows_eq hmax hplanned]
      refine .inr ⟨longest, planned, rfl, Nat.not_lt.mp hle, rfl, ?_⟩
      cases hgather : batch.gather (toDevice planned.1) ((toDevice planned.2).map (· - 1)) with
      | error e => exact .inl ⟨e, rfl, rfl⟩
      | ok selected => exact .inr ⟨selected, rfl, by rw [toDevice, List.length_map]; rfl⟩
    · obtain ⟨e, he⟩ := flattenRows_error hrows
      rw [he]
      exact .inl ⟨⟨e, rfl⟩, fun hvalid => hrows fun chunk hchunk => (hvalid.2 chunk hchunk).1⟩

/-! ### The device rows and their host mirror -/

/-- The host lists, when there are any, are those of the rows on the device. -/
def Exact (s : SlotMetadata) : Prop :=
  s.hostSlots ≠ [] → s.device = some (toDevice s.hostSlots, toDevice s.hostLens) ∧
    s.atten.bSeqLenCpu = some (toDevice s.hostLens)

theorem Exact.fresh (atten : AttenInfo) : (fresh atten).Exact :=
  fun h => absurd rfl h

theorem toDevice_succ (values : List Nat) :
    (toDevice values).map (· + 1) = toDevice (values.map (· + 1)) := by
  rw [toDevice, toDevice, List.map_map, List.map_map]
  exact List.map_congr_left fun value _ => (Int.natCast_succ value).symm

/-- Pointing the metadata at rows only changes the metadata, and keeps the lengths the host
planned with. -/
theorem pointAtRows_kept (s : SlotMetadata) (batch : SlotBatch) (rows : List Int × List Int)
    (seqLens : List Nat) (count : Nat) :
    ∃ atten, (s.pointAtRows batch rows seqLens count).2 =
        { s with atten := atten } ∧ atten.bSeqLenCpu = s.atten.bSeqLenCpu := by
  unfold pointAtRows
  dsimp only
  split
  · exact ⟨_, rfl, rfl⟩
  · split
    · exact ⟨_, rfl, rfl⟩
    · exact ⟨_, rfl, rfl⟩

/-- Nothing of the old metadata is left once rows are installed and pointed at. -/
theorem pointAtRows_install (s t : SlotMetadata) (batch : SlotBatch) (rows : List Int × List Int)
    (cpu : List Int) (slots lens seqLens : List Nat) (count : Nat) :
    ((s.install rows cpu slots lens).pointAtRows batch rows seqLens count).1 =
        ((t.install rows cpu slots lens).pointAtRows batch rows seqLens count).1 ∧
    (((s.install rows cpu slots lens).pointAtRows batch rows seqLens count).1.isOk →
      ((s.install rows cpu slots lens).pointAtRows batch rows seqLens count).2 =
        ((t.install rows cpu slots lens).pointAtRows batch rows seqLens count).2) := by
  unfold pointAtRows
  cases maxOf seqLens with
  | error e => exact ⟨rfl, nofun⟩
  | ok longest =>
    dsimp only
    cases batch.gather rows.1 (rows.2.map (· - 1)) with
    | error e => exact ⟨rfl, nofun⟩
    | ok selected => exact ⟨rfl, fun _ => rfl⟩

/-- **What a decode does**, when the host mirror is exact: it installs the padded rows, whether
or not it could advance the old ones. -/
theorem beginDecode_eq (hexact : s.Exact) (batch : SlotBatch) {slots lens : List Nat}
    {padded : List Nat × List Nat} (hpad : padDecodeRows batch slots lens = .ok padded)
    (hne : padded.1 ≠ []) :
    s.beginDecode batch slots lens =
      (s.install (toDevice padded.1, toDevice padded.2) (toDevice padded.2) padded.1
        padded.2).pointAtRows batch (toDevice padded.1, toDevice padded.2) lens
          padded.1.length := by
  unfold beginDecode
  rw [hpad]
  dsimp only
  split
  · next hsteady =>
    obtain ⟨hdevice, hcpu⟩ := hexact (hsteady.1 ▸ hne)
    rw [hdevice, hcpu]
    dsimp only
    rw [toDevice_succ, ← hsteady.1, ← hsteady.2]
  · rfl

/-- A decode that pads to nothing keeps no host lists. -/
theorem beginDecode_empty {slots lens : List Nat} {padded : List Nat × List Nat}
    (hpad : padDecodeRows batch slots lens = .ok padded) (hempty : padded.1 = []) :
    (s.beginDecode batch slots lens).2 = s ∨ (s.beginDecode batch slots lens).2.hostSlots = [] := by
  unfold beginDecode
  rw [hpad]
  dsimp only
  split
  · split
    · exact .inl rfl
    · obtain ⟨atten, heq, -⟩ := pointAtRows_kept (s.install _ _ padded.1 padded.2) batch _ lens _
      exact .inr (by rw [heq]; exact hempty)
  · obtain ⟨atten, heq, -⟩ := pointAtRows_kept (s.install _ _ padded.1 padded.2) batch _ lens _
    exact .inr (by rw [heq]; exact hempty)

/-- An empty decode raises. -/
theorem beginDecode_nil (s : SlotMetadata) (batch : SlotBatch) :
    (s.beginDecode batch [] []).1.isOk = false := by
  have hpoint : ∀ (s : SlotMetadata) rows count,
      (s.pointAtRows batch rows [] count).1.isOk = false := fun _ _ _ => rfl
  unfold beginDecode
  split
  · rfl
  · split
    · split
      · rfl
      · exact hpoint _ _ _
    · exact hpoint _ _ _

theorem padDecodeRows_ne_nil {slots lens : List Nat} {padded : List Nat × List Nat}
    (h : padDecodeRows batch slots lens = .ok padded) (hne : slots ≠ []) : padded.1 ≠ [] := by
  unfold padDecodeRows at h
  split at h
  · cases h
    exact hne
  · dsimp only at h
    split at h
    · obtain ⟨longest, -, hret⟩ := bind_eq_ok.mp h
      cases hret
      exact List.append_ne_nil_of_left_ne_nil hne _
    · cases h
      exact hne

/-! ### The calls between two decodes -/

/-- A call of a `SlotBatch`, with the block table it finds. -/
inductive SlotOp
  | prefill (batch : SlotBatch) (dcpSize : Nat) (chunks : List Chunk)
  | extend (batch : SlotBatch) (chunks : List Chunk)
  | decode (batch : SlotBatch) (rows : List (Nat × Nat))
  | reset

/-- Whether the call returned, and what it left behind. -/
def call (s : SlotMetadata) : SlotOp → Bool × SlotMetadata
  | .prefill batch dcpSize chunks =>
      let (outcome, t) := s.beginPrefill batch dcpSize chunks
      (outcome.isOk, t)
  | .extend batch chunks =>
      let (outcome, t) := s.beginExtend batch chunks
      (outcome.isOk, t)
  | .decode batch rows =>
      let (outcome, t) := s.beginDecode batch (rows.map Prod.fst) (rows.map Prod.snd)
      (outcome.isOk, t)
  | .reset => (true, s.reset)

/-- The slots an extend names are rows of the table. -/
def SlotOp.InTable : SlotOp → Prop
  | .extend batch chunks => 0 < batch.maxSeqLen ∧ ∀ chunk ∈ chunks, chunk.slot < batch.totalSlots
  | _ => True

/-- One call: any that returns, and any that raises over slots of the table. -/
def Called (s : SlotMetadata) (op : SlotOp) (t : SlotMetadata) : Prop :=
  (s.call op).2 = t ∧ (op.InTable ∨ (s.call op).1 = true)

theorem beginPrefill_kept (s : SlotMetadata) (batch : SlotBatch) (dcpSize : Nat)
    (chunks : List Chunk) :
    ∃ atten, ((s.beginPrefill batch dcpSize chunks).2 = { s with atten := atten } ∨
        (s.beginPrefill batch dcpSize chunks).2 = { s.reset with atten := atten }) ∧
      atten.bSeqLenCpu = s.atten.bSeqLenCpu := by
  unfold beginPrefill
  split
  · exact ⟨s.atten, .inl rfl, rfl⟩
  split
  · exact ⟨s.atten, .inl rfl, rfl⟩
  dsimp only
  split
  · exact ⟨_, .inl rfl, rfl⟩
  split
  · exact ⟨_, .inl rfl, rfl⟩
  split
  · split
    · exact ⟨_, .inl rfl, rfl⟩
    · split
      · exact ⟨_, .inl rfl, rfl⟩
      · exact ⟨_, .inr rfl, rfl⟩
  · exact ⟨_, .inr rfl, rfl⟩

/-- The gather of an extend over slots of the table returns. -/
theorem gather_extend {longest : Nat} {planned : List Nat × List Nat}
    (hmax : maxOf (chunks.map Chunk.stop) = .ok longest) (hle : longest ≤ batch.maxSeqLen)
    (hplanned : planExtendRows batch chunks = .ok planned) (hpos : 0 < batch.maxSeqLen)
    (hslots : ∀ chunk ∈ chunks, chunk.slot < batch.totalSlots) :
    ∃ selected,
      batch.gather (toDevice planned.1) ((toDevice planned.2).map (· - 1)) = .ok selected := by
  refine gather_ok fun pair hpair => ?_
  have hzip : (toDevice planned.1).zip ((toDevice planned.2).map (· - 1)) =
      (planned.1.zip planned.2).map fun row : Nat × Nat => ((row.1 : Int), (row.2 : Int) - 1) := by
    rw [toDevice, toDevice, List.map_map, List.zip_map]
    rfl
  rw [hzip] at hpair
  obtain ⟨row, hrow, rfl⟩ := List.mem_map.mp hpair
  have hin : row.1 < batch.totalSlots ∧ row.2 ≤ batch.maxSeqLen := by
    rcases mem_planExtendRows hmax hle hplanned hrow with ⟨chunk, hchunk, hslot, -, hlen⟩ | hfiller
    · exact ⟨hslot ▸ hslots chunk hchunk, hlen⟩
    · exact hfiller
  exact ⟨axisIndex_isSome (by omega) (by omega), axisIndex_isSome (by omega) (by omega)⟩

/-- **Every call keeps the mirror exact.** -/
theorem Exact.call {op : SlotOp} (hexact : s.Exact) (h : Called s op t) : t.Exact := by
  obtain ⟨rfl, hop⟩ := h
  cases op with
  | prefill batch dcpSize chunks =>
    obtain ⟨atten, heq | heq, hcpu⟩ := beginPrefill_kept s batch dcpSize chunks
    · intro hne
      simp only [SlotMetadata.call, heq, hcpu] at hne ⊢
      exact hexact hne
    · simp only [SlotMetadata.call, heq]
      exact fun hne => absurd rfl hne
  | extend batch chunks =>
    rcases beginExtend_cases s batch chunks with ⟨⟨e, heq⟩, -⟩ |
      ⟨longest, planned, hmax, hle, hplanned, ⟨e, hgather, heq⟩ | ⟨selected, hgather, heq⟩⟩
    · simpa only [SlotMetadata.call, heq] using hexact
    · rcases hop with ⟨hpos, hslots⟩ | hret
      · obtain ⟨selected, hsel⟩ := gather_extend hmax hle hplanned hpos hslots
        rw [hgather] at hsel
        cases hsel
      · simp only [SlotMetadata.call, heq] at hret
        cases hret
    · simp only [SlotMetadata.call, heq]
      exact fun hne => absurd rfl hne
  | decode batch rows =>
    simp only [SlotMetadata.call]
    cases hpad : padDecodeRows batch (rows.map Prod.fst) (rows.map Prod.snd) with
    | error e => simpa only [beginDecode, hpad] using hexact
    | ok padded =>
      by_cases hne : padded.1 = []
      · rcases beginDecode_empty (s := s) hpad hne with heq | hhost
        · rw [heq]
          exact hexact
        · exact fun hslots => absurd hhost hslots
      · rw [beginDecode_eq hexact batch hpad hne]
        obtain ⟨atten, heq, hcpu⟩ := pointAtRows_kept
          (s.install (toDevice padded.1, toDevice padded.2) (toDevice padded.2) padded.1
            padded.2) batch (toDevice padded.1, toDevice padded.2) (rows.map Prod.snd)
          padded.1.length
        rw [heq]
        exact fun _ => ⟨rfl, hcpu⟩
  | reset => exact fun hne => absurd rfl hne

/-- **The metadata of a step.** After every run of calls, an extend installs the rows the host
plans, filler included, and returns whenever its chunks lie in the table; and a decode returns
or raises as on a new `SlotBatch` over the same table, and leaves the same metadata. -/
theorem incremental_exact (info : AttenInfo) {ops : List SlotOp}
    (hrun : Run Called (fresh info) ops s) (batch : SlotBatch) :
    (∀ chunks n t, s.beginExtend batch chunks = (.ok n, t) →
      ∃ planned, batch.planExtendRows chunks = .ok planned ∧ n = planned.1.length ∧
        t.device = some (toDevice planned.1, toDevice planned.2) ∧
        t.atten.bReqIdx = some (toDevice planned.1) ∧
        t.atten.bSeqLen = some (toDevice planned.2) ∧
        t.atten.bSeqLenCpu = some (toDevice planned.2)) ∧
    (∀ chunks, chunks ≠ [] → 0 < batch.maxSeqLen →
      (∀ chunk ∈ chunks, chunk.start ≤ chunk.stop ∧ chunk.stop ≤ batch.maxSeqLen ∧
        chunk.slot < batch.totalSlots) → (s.beginExtend batch chunks).1.isOk) ∧
    ∀ (rows : List (Nat × Nat)) (info' : AttenInfo),
      (s.beginDecode batch (rows.map Prod.fst) (rows.map Prod.snd)).1.toOption =
        ((fresh info').beginDecode batch (rows.map Prod.fst) (rows.map Prod.snd)).1.toOption ∧
      ((s.beginDecode batch (rows.map Prod.fst) (rows.map Prod.snd)).1.isOk →
        (s.beginDecode batch (rows.map Prod.fst) (rows.map Prod.snd)).2 =
          ((fresh info').beginDecode batch (rows.map Prod.fst) (rows.map Prod.snd)).2) := by
  have hexact : s.Exact := hrun.invariant (fun _ _ _ hs hstep => hs.call hstep) (Exact.fresh info)
  refine ⟨fun chunks n t h => ?_, fun chunks hne hpos hin => ?_, fun rows info' => ?_⟩
  · rcases beginExtend_cases s batch chunks with ⟨⟨e, heq⟩, -⟩ |
      ⟨longest, planned, -, -, hplanned, ⟨e, -, heq⟩ | ⟨selected, -, heq⟩⟩
    · cases heq.symm.trans h
    · cases heq.symm.trans h
    · cases heq.symm.trans h
      exact ⟨planned, hplanned, rfl, rfl, rfl, rfl, rfl⟩
  · rcases beginExtend_cases s batch chunks with ⟨-, hinvalid⟩ |
      ⟨longest, planned, hmax, hle, hplanned, ⟨e, hgather, -⟩ | ⟨selected, -, heq⟩⟩
    · exact absurd ⟨hne, fun chunk hchunk => ⟨(hin chunk hchunk).1, (hin chunk hchunk).2.1⟩⟩
        hinvalid
    · obtain ⟨selected, hsel⟩ := gather_extend hmax hle hplanned hpos
        fun chunk hchunk => (hin chunk hchunk).2.2
      cases hgather.symm.trans hsel
    · rw [heq]
      rfl
  · cases rows with
    | nil =>
        have hnone : ∀ s : SlotMetadata,
            (s.beginDecode batch [] []).1.toOption = none := by
          intro s
          have hraise := beginDecode_nil s batch
          cases hout : (s.beginDecode batch [] []).1 with
          | error e => rfl
          | ok n => rw [hout] at hraise; cases hraise
        refine ⟨(hnone s).trans (hnone _).symm, fun hok => ?_⟩
        cases (beginDecode_nil s batch).symm.trans hok
    | cons row rows =>
        cases hpad : padDecodeRows batch ((row :: rows).map Prod.fst)
            ((row :: rows).map Prod.snd) with
        | error e =>
            rw [beginDecode, beginDecode, hpad]
            exact ⟨rfl, nofun⟩
        | ok padded =>
            have hne := padDecodeRows_ne_nil hpad (List.cons_ne_nil _ _)
            rw [beginDecode_eq hexact batch hpad hne,
              beginDecode_eq (Exact.fresh info') batch hpad hne]
            have hsame := pointAtRows_install s (fresh info') batch
              (toDevice padded.1, toDevice padded.2) (toDevice padded.2) padded.1 padded.2
              ((row :: rows).map Prod.snd) padded.1.length
            exact ⟨congrArg Except.toOption hsame.1, hsame.2⟩

/-- A table of two slots, one of them the filler's, with graphs for even batch sizes. -/
def twoSlots : SlotBatch := SlotBatch.create 8 2 fun rows => rows + rows % 2

theorem incremental_exact_steady :
    ∃ s, Run Called (fresh {}) [.decode twoSlots [(0, 5)], .decode twoSlots [(0, 6)]] s ∧
      s.hostLens = [6, 6] ∧
      (s.beginDecode twoSlots [0] [7]).2 = ((fresh {}).beginDecode twoSlots [0] [7]).2 := by
  have hrun : Run Called (fresh {}) [.decode twoSlots [(0, 5)], .decode twoSlots [(0, 6)]] _ :=
    (Run.single ⟨rfl, .inl trivial⟩).snoc ⟨rfl, .inl trivial⟩
  exact ⟨_, hrun, rfl, ((incremental_exact {} hrun twoSlots).2.2 [(0, 7)] {}).2 rfl⟩

end SlotMetadata

end RapidLlm
