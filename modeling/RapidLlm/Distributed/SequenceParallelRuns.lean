import Mathlib.Data.List.GetD
import RapidLlm.Lib.Tiling
import RapidLlm.Distributed.SequenceParallel

/-!
# RapidLlm.Distributed.SequenceParallelRuns

**A region changes nothing but where the rows are.** A group runs the forward of
`Distributed.SequenceParallel` with a region open or with none. `Spread` is the one account of
both: a list of rows, of which each rank has a slice. A norm or an add acts on the slices
(`Holds.norm`), a `g` puts the list together and drops its padding (`linear_completes`), a `g-bar`
brings a new list into slices (`row_completes`).

`layers_completes` carries `Holds` through a stack of blocks, by induction on the stack, and
`forwardIn_completes` ends it on the rows of `CausalLM.grid`, which knows neither shards nor
padding. With the marks the pass leaves, that is `sequenceParallel_transparent`.
-/

namespace RapidLlm.SequenceParallel

variable {n : Nat} {A B X Q O G I : Type}

/-! ### Sums of rows -/

section Sums

variable [AddCommMonoid X] {rows k : Nat} {values : Fin n → List X}

@[simp] theorem sumRows_length : (sumRows rows values).length = rows := by
  rw [sumRows, List.length_map, List.length_range]

theorem sumRows_take (h : k ≤ rows) : (sumRows rows values).take k = sumRows k values := by
  rw [sumRows, sumRows, ← List.map_take, List.take_range, Nat.min_eq_left h]

/-- Padding adds nothing to a sum. -/
theorem sumRows_padRows (padded : Nat) :
    sumRows rows (fun rank => padRows (values rank) padded) = sumRows rows values := by
  refine List.map_congr_left fun k _ => Finset.sum_congr rfl fun rank _ => ?_
  change (padRows (values rank) padded).getD k 0 = _
  rcases Nat.lt_or_ge k (values rank).length with hlt | hge
  · rw [padRows, List.getD_append _ _ _ _ hlt]
  · rw [padRows, List.getD_append_right _ _ _ _ hge, List.getD_eq_default _ _ hge,
      List.getD_eq_getElem?_getD, List.getElem?_replicate]
    split <;> rfl

/-- A rank with no peers has the sum. -/
theorem sumRows_alone (hn : n ≤ 1) (rank : Fin n) (hlen : (values rank).length = rows) :
    sumRows rows values = values rank := by
  have : Subsingleton (Fin n) := Fin.subsingleton_iff_le_one.mpr hn
  subst hlen
  refine List.ext_getElem sumRows_length fun k hk hk' => ?_
  simp only [sumRows, List.getElem_map, List.getElem_range]
  rw [Fintype.sum_subsingleton _ rank, List.getD_eq_getElem _ _ hk']

/-- A stretch of the sum is the sum of the stretches. -/
theorem sumRows_stretch {start stop : Nat} (hstop : stop ≤ rows) :
    sumRows (stop - start) (fun rank => ((values rank).take stop).drop start) =
      ((sumRows rows values).take stop).drop start := by
  rw [sumRows_take hstop]
  refine List.ext_getElem (by simp) fun k hk hk' => ?_
  rw [sumRows_length] at hk
  simp only [sumRows, List.getElem_map, List.getElem_range, List.getElem_drop]
  refine Finset.sum_congr rfl fun rank _ => ?_
  rw [List.getD_eq_getElem?_getD, List.getElem?_drop, List.getElem?_take, if_pos (by omega),
    List.getD_eq_getElem?_getD]

end Sums

/-! ### The chunks of a reduction -/

/-- Where the chunks from an index on end, the first of them taken off. -/
theorem chunk_step (start base extra count index : Nat) :
    start + (count + 1) * base + (min extra (index + (count + 1)) - min extra index) =
      start + base + (if index < extra then 1 else 0) + count * base +
        (min extra (index + 1 + count) - min extra (index + 1)) := by
  rw [Nat.succ_mul]
  split <;> omega

/-- What the chunks leave between them is the stretch from the first to the last. -/
theorem chunkSpans_flatten {count index start base extra : Nat} (rows : List A)
    (hend : start + count * base + (min extra (index + count) - min extra index) ≤ rows.length) :
    ((chunkSpans base extra count index start).flatMap fun span =>
        (rows.take span.2).drop span.1) =
      (rows.take (start + count * base +
        (min extra (index + count) - min extra index))).drop start := by
  induction count generalizing index start with
  | zero => simp [chunkSpans]
  | succ count ih =>
    rw [chunk_step] at hend ⊢
    unfold chunkSpans
    dsimp only
    generalize hstop : (start + base + if index < extra then 1 else 0) = stop at hend ⊢
    have hle : start ≤ stop := by omega
    have hrest := ih hend
    split
    · rw [List.flatMap_cons, hrest]
      dsimp only
      have hsplit : (rows.take (stop + count * base +
          (min extra (index + 1 + count) - min extra (index + 1)))) =
          rows.take stop ++ (rows.take (stop + count * base +
            (min extra (index + 1 + count) - min extra (index + 1)))).drop stop := by
        conv_lhs => rw [← List.take_append_drop stop (rows.take _)]
        rw [List.take_take, Nat.min_eq_left (by omega)]
      conv_rhs => rw [hsplit, List.drop_append_of_le_length (by
        rw [List.length_take]
        omega)]
    · have heq : stop = start := by omega
      rw [hrest, heq]

/-- The chunks cover the rows in order, and none lies beyond them. -/
theorem chunkSpans_le {count index start base extra rows : Nat}
    (hend : start + count * base + (min extra (index + count) - min extra index) ≤ rows) :
    ∀ span ∈ chunkSpans base extra count index start, span.2 ≤ rows := by
  induction count generalizing index start with
  | zero => exact nofun
  | succ count ih =>
    rw [chunk_step] at hend
    unfold chunkSpans
    dsimp only
    generalize (start + base + if index < extra then 1 else 0) = stop at hend ⊢
    have hrest := ih hend
    split
    · refine List.forall_mem_cons.mpr ⟨?_, hrest⟩
      dsimp only
      omega
    · exact hrest

theorem chunk_total (rows : Nat) {count : Nat} (hcount : 0 < count) :
    0 + count * (rows / count) + (min (rows % count) (0 + count) - min (rows % count) 0) =
      rows := by
  have hmod := Nat.mod_lt rows hcount
  have hdiv := Nat.div_add_mod rows count
  omega

/-- **The chunks of a reduction are the rows, in order.** -/
theorem chunkBounds_flatten (rows : List A) {count : Nat} (hcount : 0 < count) :
    ((chunkBounds rows.length count).flatMap fun span => (rows.take span.2).drop span.1) =
      rows := by
  have htotal := chunk_total rows.length hcount
  rw [chunkBounds, chunkSpans_flatten rows (le_of_eq htotal), htotal, List.take_length,
    List.drop_zero]

theorem chunkBounds_le {rows count : Nat} (hcount : 0 < count) :
    ∀ span ∈ chunkBounds rows count, span.2 ≤ rows :=
  chunkSpans_le (le_of_eq (chunk_total rows hcount))

/-! ### The grid -/

section Grid

variable [AddCommMonoid X]

/-- A norm over the rows of a grid, and the running sum. -/
def gridNorm (norm : X → X) (rows : List X) : Option (List X) → List X × List X
  | none => (rows.map norm, rows)
  | some residual =>
    ((rows.zipWith (· + ·) residual).map norm, rows.zipWith (· + ·) residual)

/-- A row-parallel projection of a grid: the ranks' parts, summed. -/
def Projection.reduced (layer : Projection n A X) (count : Nat) (rows : Fin n → List A) : List X :=
  sumRows count fun rank => (rows rank).map (layer.applyLinear rank)

/-- A block, of the rows of a grid: with the rows each rank's attention sees. -/
def DecoderLayer.grid (layer : DecoderLayer n X Q O G I) (rows : List X)
    (residual : Option (List X)) : (List X × List X) × (Fin n → List Q) :=
  let normed := gridNorm layer.inputNorm rows residual
  let seen := fun rank => normed.1.map (layer.qkvProj.applyLinear rank)
  let attended := layer.oProj.reduced rows.length fun rank => (layer.attn rank).run (seen rank)
  let normed' := gridNorm layer.postAttentionNorm attended (some normed.2)
  ((layer.downProj.reduced rows.length fun rank =>
    (normed'.1.map (layer.gateUpProj.applyLinear rank)).map layer.swiglu, normed'.2), seen)

/-- A stack of blocks, of the rows of a grid. -/
def layersGrid (layerContext : Option (Nat → GridMap X X)) :
    Nat → List (DecoderLayer n X Q O G I) → List X → Option (List X) →
      (List X × Option (List X)) × List (Fin n → List Q)
  | _, [], rows, residual => ((rows, residual), [])
  | index, layer :: layers, rows, residual =>
    let out := layer.grid rows residual
    let rows := match layerContext with
      | none => out.1.1
      | some afterLayer => (afterLayer index).run out.1.1
    let rest := layersGrid layerContext (index + 1) layers rows (some out.1.2)
    (rest.1, out.2 :: rest.2)

/-- **A forward, of the rows of a grid.** -/
def CausalLM.grid (model : CausalLM n X Q O G I) (rows : List X) :
    List X × List (Fin n → List Q) :=
  let out := layersGrid model.layerContext 0 model.layers rows none
  ((gridNorm model.norm out.1.1 out.1.2).1, out.2)

end Grid

/-! ### Rows spread over the ranks -/

/-- How the ranks hold the rows of a step's `[batch, seq]` grid: all of them, or, while a region is
open, a shard each. -/
structure Spread (n : Nat) where
  batch : Nat
  seq : Nat
  opened : Bool
  peers : opened = true → 1 < n

namespace Spread

variable (s : Spread n)

def numTokens : Nat := s.batch * s.seq

def region (rank : Fin n) : Option SequenceParallelRegion :=
  if s.opened then some ⟨s.numTokens, n, rank⟩ else none

/-- The rows of a shard. -/
def shard : Nat := Tiling.numTiles s.numTokens n

/-- The rows the ranks hold between them, padding included. -/
def size : Nat := if s.opened then n * s.shard else s.numTokens

/-- The leading dimensions of the residual stream. -/
def lead : List Nat := if s.opened then [1, s.shard] else [s.batch, s.seq]

/-- Those of the stream with all its rows. -/
def fullLead : List Nat := if s.opened then [1, s.numTokens] else [s.batch, s.seq]

/-- What a rank holds of a list of rows. -/
def slice (rows : List A) (rank : Fin n) : List A :=
  if s.opened then Windows.window s.shard rows rank else rows

variable {s}

theorem numTokens_le_size : s.numTokens ≤ s.size := by
  unfold size
  split
  · next hopened =>
    rw [Nat.mul_comm]
    exact Tiling.le_numTiles_mul _ (Nat.zero_lt_of_lt (s.peers hopened))
  · exact Nat.le_refl _

theorem slice_length {held : List A} (hsize : held.length = s.size) (rank : Fin n) :
    (s.slice held rank).length = s.lead.prod := by
  unfold slice lead size at *
  split
  · next hopened =>
    rw [if_pos hopened] at hsize
    have hle : (rank + 1) * s.shard ≤ held.length := by
      rw [hsize]
      exact Nat.mul_le_mul_right _ rank.isLt
    rw [Windows.window_length hle]
    simp
  · next hopened =>
    rw [if_neg hopened] at hsize
    rw [hsize]
    simp [numTokens]

theorem slice_map (f : A → B) (held : List A) (rank : Fin n) :
    s.slice (held.map f) rank = (s.slice held rank).map f := by
  unfold slice
  split
  · exact Windows.window_map f
  · rfl

theorem slice_zipWith (f : A → A → A) (held held' : List A) (rank : Fin n) :
    s.slice (held.zipWith f held') rank = (s.slice held rank).zipWith f (s.slice held' rank) := by
  unfold slice
  split
  · exact Windows.window_zipWith f held'
  · rfl

/-- The slices put together. -/
theorem flatMap_slice {held : List A} (hopened : s.opened = true) (hsize : held.length = s.size) :
    (List.finRange n).flatMap (s.slice held) = held := by
  have hwindows : (List.finRange n).flatMap (s.slice held) =
      (List.range n).flatMap (Windows.window s.shard held) := by
    rw [← List.map_coe_finRange_eq_range, List.flatMap_map]
    exact List.flatMap_congr fun rank _ => if_pos hopened
  rw [hwindows]
  refine Windows.flatMap_window ?_
  rw [hsize, size, if_pos hopened]

end Spread

/-- `padded_tokens` is a whole number of shards. -/
theorem SequenceParallelRegion.paddedTokens_eq {region : SequenceParallelRegion}
    (hworld : 0 < region.worldSize) : region.paddedTokens =
      region.worldSize * Tiling.numTiles region.numTokens region.worldSize := by
  have hle := Tiling.le_numTiles_mul region.numTokens hworld
  have hlt : Tiling.numTiles region.numTokens region.worldSize * region.worldSize <
      region.numTokens + region.worldSize := by
    have hdiv := Nat.div_mul_le_self (region.numTokens + region.worldSize - 1) region.worldSize
    unfold Tiling.numTiles
    omega
  have hceil : -(region.numTokens : Int) / region.worldSize =
      -(Tiling.numTiles region.numTokens region.worldSize : Int) := by
    refine (Int.ediv_eq_iff_of_pos (by exact_mod_cast hworld)).mpr ⟨?_, ?_⟩
    · rw [Int.neg_mul]
      exact Int.neg_le_neg (by exact_mod_cast hle)
    · rw [Int.neg_mul]
      have : ((Tiling.numTiles region.numTokens region.worldSize * region.worldSize : Nat) : Int) <
          region.numTokens + region.worldSize := by exact_mod_cast hlt
      push_cast at this
      omega
  rw [paddedTokens, hceil, Int.neg_neg, Nat.mul_comm]
  norm_cast

theorem SequenceParallelRegion.localTokens_eq {region : SequenceParallelRegion}
    (hworld : 0 < region.worldSize) :
    region.localTokens = Tiling.numTiles region.numTokens region.worldSize := by
  rw [localTokens, paddedTokens_eq hworld, Nat.mul_div_cancel_left _ hworld]

/-! ### Collectives -/

theorem Activations.view_ok {lead : List Nat} {x : Activations A} (h : lead.prod = x.rows.length) :
    x.view lead = .ok ⟨lead, x.rows, h⟩ :=
  dif_pos h

section Ranks

variable [AddCommMonoid X] (ctx : TpContext) {s : Spread n}

/-- A gather gives every rank all the rows. -/
theorem allGather_completes {x : Fin n → List X} {held : List X} (hopened : s.opened = true)
    (hsize : held.length = s.size) (hx : ∀ rank, x rank = s.slice held rank) :
    Completes (ε := Raised) tpWire (fun rank => tensorModelParallelAllGather n (x rank))
      fun _ => held := by
  obtain rfl : x = s.slice held := funext hx
  have hworld : ¬ n ≤ 1 := Nat.not_le.mpr (s.peers hopened)
  simp only [tensorModelParallelAllGather, if_neg hworld, Spread.slice_length hsize]
  have henter := @Lockstep.enter _ _ _ _ tpWire (TpCall.allGather s.lead.prod)
    (s.slice held) (fun _ => Script.done) _ _ (.done _)
  simp only [tpWire, Spread.flatMap_slice hopened hsize] at henter
  exact .lift henter

/-- A reduce-scatter gives every rank its shard of the sum. -/
theorem reduceScatter_completes {parts : Fin n → List X} (hopened : s.opened = true)
    (hlen : ∀ rank, (parts rank).length = s.size) :
    Completes tpWire (fun rank => reduceScatter n ctx.hiddenSize rank (parts rank))
      fun rank => s.slice (sumRows s.size parts) rank := by
  have hpeers := s.peers hopened
  have hsize : s.size = n * s.shard := if_pos hopened
  have hdvd : ¬ s.size % n ≠ 0 := by
    rw [hsize, Nat.mul_mod_right, ne_eq, not_not]
  simp only [reduceScatter, if_neg (Nat.not_le.mpr hpeers), hlen, if_neg hdvd]
  have hshard : s.size / n = s.shard := by
    rw [hsize, Nat.mul_div_cancel_left _ (Nat.zero_lt_of_lt hpeers)]
  have henter := @Lockstep.enter _ _ _ _ tpWire (TpCall.reduceScatter s.size) parts
    (fun _ => Script.done) _ _ (.done _)
  refine (Completes.lift henter).bind ?_
  have hslice : ∀ rank : Fin n,
      Windows.window (s.size / n) (tpWire (.reduceScatter s.size) parts) rank =
        s.slice (sumRows s.size parts) rank := fun rank => by
    rw [hshard, Spread.slice, if_pos hopened]
    rfl
  simp only [hslice]
  exact .pure _

/-- An all-reduce gives every rank the sum, and costs a rank alone nothing. -/
theorem allReduce_completes {parts : Fin n → List X} {k : Nat}
    (hlen : ∀ rank, (parts rank).length = k) :
    Completes (ε := Raised) tpWire (fun rank => tensorModelParallelAllReduce n (parts rank))
      fun _ => sumRows k parts := by
  unfold tensorModelParallelAllReduce
  split
  · next hworld =>
    have halone : ∀ rank, sumRows k parts = parts rank := fun rank =>
      sumRows_alone hworld rank (hlen rank)
    have hresult : parts = fun _ => sumRows k parts := funext fun rank => (halone rank).symm
    rw [← hresult]
    exact .pure _
  · simp only [hlen]
    exact .lift (.enter (TpCall.allReduce k) parts (fun _ => .done) (.done _))

/-- The ranks have tensors of one shape, whose rows are the sum of these parts. -/
def Reduced (x y : Fin n → Activations X) (k : Nat) : Prop :=
  ∀ rank, (y rank).lead = (x rank).lead ∧ (y rank).rows = sumRows k fun rank => (x rank).rows

theorem allReduced_completes {x : Fin n → Activations X} {k : Nat}
    (hlen : ∀ rank, (x rank).rows.length = k) :
    ∃ y, Completes tpWire (fun rank => allReduced (n := n) (x rank)) y ∧ Reduced x y k := by
  have hsize : ∀ rank, (x rank).lead.prod =
      (Activations.ofRows (sumRows k fun rank => (x rank).rows)).rows.length := fun rank => by
    rw [(x rank).size, hlen]
    exact sumRows_length.symm
  exact ⟨fun rank => ⟨(x rank).lead, sumRows k fun rank => (x rank).rows, hsize rank⟩,
    (allReduce_completes hlen).bind (.of_ok fun rank => Activations.view_ok (hsize rank)),
    fun rank => ⟨rfl, rfl⟩⟩

/-- **A chunked reduction is the reduction.** -/
theorem chunked_completes {layer : Projection n A X} {x : Fin n → Activations A} {k : Nat}
    (hlen : ∀ rank, (x rank).rows.length = k) :
    ∃ y, Completes tpWire (fun rank => chunkedRowParallel ctx layer rank (x rank)) y ∧
      Reduced (fun rank => (x rank).map (layer.applyLinear rank)) y k := by
  have hlen' : ∀ rank, ((x rank).map (layer.applyLinear rank)).rows.length = k := fun rank => by
    rw [Activations.map, List.length_map, hlen]
  simp only [chunkedRowParallel, hlen]
  by_cases hcount : ctx.policy.chunkCount k ≤ 1
  · simp only [if_pos hcount]
    exact allReduced_completes hlen'
  simp only [if_neg hcount]
  generalize hc : ctx.policy.chunkCount k = count at hcount ⊢
  have hpos : 0 < count := by omega
  let parts : Fin n → List X := fun rank => (x rank).rows.map (layer.applyLinear rank)
  have hbounds := chunkBounds_flatten (sumRows k parts) hpos
  rw [sumRows_length] at hbounds
  have hle := @chunkBounds_le k count hpos
  have hnonempty : (chunkBounds k count).isEmpty = false := by
    rw [List.isEmpty_eq_false_iff]
    intro hnil
    rw [hnil] at hbounds
    have hzero : k = 0 := by
      rw [← @sumRows_length n X _ k parts, ← hbounds]
      rfl
    rw [← hc, CommOverlapPolicy.chunkCount, if_pos (.inr hzero)] at hcount
    exact hcount (Nat.le_refl _)
  simp only [hnonempty, Bool.false_eq_true, if_false]
  have hchunk : ∀ span ∈ chunkBounds k count, Lockstep tpWire
      (fun rank => enterCall (TpCall.allReduce
        ((((x rank).rows.take span.2).drop span.1).map (layer.applyLinear rank)).length)
        ((((x rank).rows.take span.2).drop span.1).map (layer.applyLinear rank)))
      [.allReduce (span.2 - span.1)]
      (fun _ => ((sumRows k parts).take span.2).drop span.1) := by
    intro span hspan
    have hcut : ∀ rank, ((((x rank).rows.take span.2).drop span.1).map
        (layer.applyLinear rank)).length = span.2 - span.1 := fun rank => by
      have := hle span hspan
      rw [List.length_map, List.length_drop, List.length_take, hlen]
      omega
    simp only [hcut]
    have henter := @Lockstep.enter _ _ _ _ tpWire (TpCall.allReduce (span.2 - span.1))
      (fun rank => (((parts rank).take span.2).drop span.1)) (fun _ => Script.done) _ _ (.done _)
    rw [tpWire, sumRows_stretch (hle span hspan)] at henter
    simpa only [parts, enterCall, List.map_take, List.map_drop] using henter
  have hloop := Lockstep.mapM (chunkBounds k count) (fun _ span => span) hchunk
  simp only [List.map_id'] at hloop
  have hflat : ((chunkBounds k count).map fun span =>
      ((sumRows k parts).take span.2).drop span.1).flatten = sumRows k parts := by
    rw [← List.flatMap_def, hbounds]
  have hsize : ∀ rank, (x rank).lead.prod = (Activations.ofRows (sumRows k parts)).rows.length :=
    fun rank => by
      rw [(x rank).size, hlen]
      exact sumRows_length.symm
  refine ⟨fun rank => ⟨(x rank).lead, sumRows k parts, hsize rank⟩, ?_, fun rank => ⟨rfl, rfl⟩⟩
  refine (Completes.lift hloop).bind ?_
  simp only [hflat]
  exact .of_ok fun rank => Activations.view_ok (hsize rank)

end Ranks

/-! ### The boundaries -/

/-- A tensor keeps its number of dimensions. -/
theorem asInputRank_ok (out : List B) {like : List Nat}
    (hlike : like.length ≤ 1 ∨ ∃ k, like = [1, k]) :
    ∃ y, asInputRank out like = .ok y ∧ y.rows = out ∧
      (¬ like.length ≤ 1 → y.lead = [1, out.length]) := by
  unfold asInputRank
  split
  · next hshort => exact ⟨_, rfl, rfl, fun h => absurd hshort h⟩
  · next hlong =>
    obtain ⟨k, rfl⟩ := hlike.resolve_left hlong
    have hsize : [1, out.length].prod = (Activations.ofRows out).rows.length := by
      simp [Activations.ofRows]
    exact ⟨_, Activations.view_ok hsize, rfl, fun _ => rfl⟩

section Boundaries

variable [AddCommMonoid X] (ctx : TpContext) {marks : SpMarks} {s : Spread n}

/-- The stream's leading dimensions are two. -/
theorem Spread.lead_eq (s : Spread n) : ∃ batchSize seqLen, s.lead = [batchSize, seqLen] := by
  unfold Spread.lead
  split
  · exact ⟨_, _, rfl⟩
  · exact ⟨_, _, rfl⟩

/-- **`g`**: of slices, a column-parallel projection makes its features of the grid's rows. -/
theorem linear_completes {layer : Projection n X B} {x : Fin n → Activations X} {held : List X}
    (hmark : s.opened = true → marks layer.node.id .g = true) (hsize : held.length = s.size)
    (hslice : ∀ rank, (x rank).rows = s.slice held rank)
    (hlead : (∀ rank, (x rank).lead.length ≤ 1) ∨ ∀ rank, (x rank).lead = s.lead) :
    ∃ y, Completes tpWire (fun rank => linearForward marks (s.region rank) layer rank (x rank)) y ∧
      ∀ rank, (y rank).rows = (held.take s.numTokens).map (layer.applyLinear rank) ∧
        ((x rank).lead = s.lead → (y rank).lead = s.fullLead) := by
  by_cases hopened : s.opened = true
  · have hregion : ∀ rank, (s.region rank).filter (fun _ => marks layer.node.id .g) =
        some ⟨s.numTokens, n, rank⟩ := fun rank => by
      simp [Spread.region, hopened, hmark hopened]
    simp only [linearForward, hregion, columnParallelG]
    have hstream : s.lead = [1, s.shard] := if_pos hopened
    have hlike : ∀ rank, (x rank).lead.length ≤ 1 ∨ ∃ k, (x rank).lead = [1, k] := fun rank =>
      hlead.imp (fun h => h rank) fun h => ⟨s.shard, (h rank).trans hstream⟩
    have hout : (held.take s.numTokens).length = s.numTokens := by
      rw [List.length_take, hsize, Nat.min_eq_left Spread.numTokens_le_size]
    choose y hy hyrows hylead using fun rank =>
      asInputRank_ok ((held.take s.numTokens).map (layer.applyLinear rank)) (hlike rank)
    refine ⟨y, (allGather_completes hopened hsize hslice).bind (.of_ok hy), fun rank =>
      ⟨hyrows rank, fun hstreamed => ?_⟩⟩
    rw [hylead rank (by simp [hstreamed, hstream]), List.length_map, hout]
    exact (if_pos hopened).symm
  · have hregion : ∀ rank, (s.region rank).filter (fun _ => marks layer.node.id .g) = none :=
      fun rank => by simp [Spread.region, hopened]
    simp only [linearForward, hregion]
    refine ⟨_, .pure _, fun rank => ⟨?_, fun hstreamed => ?_⟩⟩
    · have hwhole : held.take s.numTokens = held := by
        refine List.take_of_length_le ?_
        rw [hsize, Spread.size, if_neg hopened]
      rw [Activations.map_rows, hslice, hwhole, Spread.slice, if_neg hopened]
    · rw [Activations.map_lead, hstreamed, Spread.lead, Spread.fullLead, if_neg hopened,
        if_neg hopened]

/-- **`g-bar`**: of the grid's rows, a row-parallel projection makes slices of the ranks' sum. -/
theorem row_completes {layer : Projection n A X} {x : Fin n → Activations A}
    (hreduce : layer.node.reduceResults = true)
    (hmark : s.opened = true → marks layer.node.id .gBar = true)
    (hlen : ∀ rank, (x rank).rows.length = s.numTokens)
    (hlead : (∀ rank, (x rank).lead.length ≤ 1) ∨ ∀ rank, (x rank).lead = s.fullLead) :
    ∃ y held, Completes tpWire
        (fun rank => rowParallelForward ctx marks (s.region rank) layer rank (x rank)) y ∧
      held.length = s.size ∧
      held.take s.numTokens = layer.reduced s.numTokens (fun rank => (x rank).rows) ∧
      ∀ rank, (y rank).rows = s.slice held rank ∧
        ((x rank).lead = s.fullLead → (y rank).lead = s.lead) := by
  have hkept : ¬ layer.node.reduceResults = false := by simp [hreduce]
  let parts : Fin n → List X := fun rank => (x rank).rows.map (layer.applyLinear rank)
  have hparts : ∀ rank, (parts rank).length = s.numTokens := fun rank => by
    rw [List.length_map, hlen]
  by_cases hopened : s.opened = true
  · have hregion : ∀ rank, (s.region rank).filter (fun _ => marks layer.node.id .gBar) =
        some ⟨s.numTokens, n, rank⟩ := fun rank => by
      simp [Spread.region, hopened, hmark hopened]
    have hpos : 0 < n := Nat.zero_lt_of_lt (s.peers hopened)
    have hpadded : ∀ rank : Fin n,
        (SequenceParallelRegion.mk s.numTokens n rank).paddedTokens = s.size := fun rank => by
      rw [SequenceParallelRegion.paddedTokens_eq hpos, Spread.size, if_pos hopened]
      rfl
    simp only [rowParallelForward, if_neg hkept, hregion, rowParallelGBar, hpadded]
    have hflat : ∀ rank, (padRows (parts rank) s.size).length = s.size := fun rank => by
      have := s.numTokens_le_size
      rw [padRows, List.length_append, List.length_replicate, hparts]
      omega
    have hfull : s.fullLead = [1, s.numTokens] := if_pos hopened
    have hstream : s.lead = [1, s.shard] := if_pos hopened
    have hlike : ∀ rank, (x rank).lead.length ≤ 1 ∨ ∃ k, (x rank).lead = [1, k] := fun rank =>
      hlead.imp (fun h => h rank) fun h => ⟨s.numTokens, (h rank).trans hfull⟩
    have hshard : ∀ rank, (s.slice (sumRows s.size parts) rank).length = s.shard := fun rank => by
      rw [Spread.slice_length sumRows_length, hstream]
      simp
    choose y hy hyrows hylead using fun rank =>
      asInputRank_ok (s.slice (sumRows s.size parts) rank) (hlike rank)
    have hscatter := reduceScatter_completes ctx hopened hflat
    rw [sumRows_padRows] at hscatter
    refine ⟨y, sumRows s.size parts, hscatter.bind (.of_ok hy), sumRows_length,
      sumRows_take Spread.numTokens_le_size, fun rank => ⟨hyrows rank, fun hgrid => ?_⟩⟩
    rw [hylead rank (by simp [hgrid, hfull]), hshard, hstream]
  · have hregion : ∀ rank, (s.region rank).filter (fun _ => marks layer.node.id .gBar) = none :=
      fun rank => by simp [Spread.region, hopened]
    have hsize : s.size = s.numTokens := if_neg hopened
    have hslice : ∀ rank, s.slice (sumRows s.numTokens parts) rank = sumRows s.numTokens parts :=
      fun rank => if_neg hopened
    have hleads : s.fullLead = s.lead := by
      rw [Spread.fullLead, Spread.lead, if_neg hopened, if_neg hopened]
    suffices hreduced : ∃ y, Completes tpWire
        (fun rank => rowParallelForward ctx marks (s.region rank) layer rank (x rank)) y ∧
        Reduced (fun rank => (x rank).map (layer.applyLinear rank)) y s.numTokens by
      obtain ⟨y, hy, hreduced⟩ := hreduced
      refine ⟨y, sumRows s.numTokens parts, hy, sumRows_length.trans hsize.symm, ?_, fun rank =>
        ⟨(hreduced rank).2.trans (hslice rank).symm, fun hgrid => ?_⟩⟩
      · rw [sumRows_take (Nat.le_refl _)]
        rfl
      · rw [(hreduced rank).1, ← hleads]
        exact hgrid
    simp only [rowParallelForward, if_neg hkept, hregion, hlen]
    split
    · exact allReduced_completes hparts
    · unfold dispatchMode
      split_ifs with hworld
      · refine ⟨_, .pure _, fun rank => ⟨rfl, ?_⟩⟩
        exact (sumRows_alone hworld rank (hparts rank)).symm
      · exact allReduced_completes hparts
      · exact chunked_completes ctx hlen
      · exact allReduced_completes hparts

end Boundaries
/-! ### Blocks and stacks of blocks -/

section Stack

variable (ctx : TpContext) {marks : SpMarks} {s : Spread n}

namespace Spread

/-- **The ranks hold the rows of a grid between them**, with or without padding behind. -/
def Holds (s : Spread n) (x : Fin n → Activations X) (rows : List X) : Prop :=
  ∃ held : List X, held.length = s.size ∧ held.take s.numTokens = rows ∧
    ∀ rank, (x rank).lead = s.lead ∧ (x rank).rows = s.slice held rank

/-- The same of a running sum, which is missing before the first layer. -/
inductive HoldsSum (s : Spread n) : (Fin n → Option (Activations X)) → Option (List X) → Prop
  | none : HoldsSum s (fun _ => Option.none) Option.none
  | some {x : Fin n → Activations X} {rows : List X} (h : s.Holds x rows) :
      HoldsSum s (fun rank => Option.some (x rank)) (Option.some rows)

theorem Holds.length {x : Fin n → Activations X} {rows : List X} (h : s.Holds x rows) :
    rows.length = s.numTokens := by
  obtain ⟨held, hsize, rfl, -⟩ := h
  rw [List.length_take, hsize, Nat.min_eq_left s.numTokens_le_size]

/-- A function of each row. -/
theorem Holds.map {x : Fin n → Activations X} {rows : List X} (h : s.Holds x rows) (f : X → X) :
    s.Holds (fun rank => (x rank).map f) (rows.map f) := by
  obtain ⟨held, hsize, rfl, hx⟩ := h
  refine ⟨held.map f, by rw [List.length_map, hsize], List.map_take.symm, fun rank =>
    ⟨(hx rank).1, ?_⟩⟩
  rw [Activations.map_rows, (hx rank).2, Spread.slice_map]

variable [AddCommMonoid X]

/-- A norm, with the running sum or without. -/
theorem Holds.norm {x : Fin n → Activations X} {rows : List X} (h : s.Holds x rows)
    {residual : Fin n → Option (Activations X)} {rows' : Option (List X)}
    (h' : s.HoldsSum residual rows') (norm : X → X) :
    ∃ y z, (∀ rank, skipRmsnorm norm (x rank) (residual rank) = .ok (y rank, z rank)) ∧
      s.Holds y (gridNorm norm rows rows').1 ∧ s.Holds z (gridNorm norm rows rows').2 := by
  cases h' with
  | none => exact ⟨_, _, fun rank => rfl, h.map norm, h⟩
  | @some r residualRows h' =>
    obtain ⟨held, hsize, rfl, hx⟩ := h
    obtain ⟨held', hsize', rfl, hr⟩ := h'
    have hsumSize : (held.zipWith (· + ·) held').length = s.size := by
      rw [List.length_zipWith, hsize, hsize', Nat.min_self]
    have hsum : ∀ rank, (x rank).rows.zipWith (· + ·) (r rank).rows =
        s.slice (held.zipWith (· + ·) held') rank := fun rank => by
      rw [(hx rank).2, (hr rank).2, Spread.slice_zipWith]
    have hview : ∀ rank, (x rank).lead.prod = (r rank).rows.length := fun rank => by
      rw [(hx rank).1, (hr rank).2, Spread.slice_length hsize']
    have hviewSum : ∀ rank, (x rank).lead.prod =
        (Activations.ofRows ((x rank).rows.zipWith (· + ·) (r rank).rows)).rows.length :=
      fun rank => by
        rw [(hx rank).1, Activations.ofRows_rows, hsum, Spread.slice_length hsumSize]
    have hholds : s.Holds (fun rank => ⟨(x rank).lead, _, hviewSum rank⟩)
        ((held.take s.numTokens).zipWith (· + ·) (held'.take s.numTokens)) :=
      ⟨held.zipWith (· + ·) held', hsumSize, List.take_zipWith, fun rank =>
        ⟨(hx rank).1, hsum rank⟩⟩
    refine ⟨_, _, fun rank => ?_, hholds.map norm, hholds⟩
    simp only [skipRmsnorm, Activations.view_ok (hview rank), ok_bind]
    rw [Activations.view_ok (hviewSum rank)]
    rfl

end Spread

variable [AddCommMonoid X]

/-- The modules of a layer's boundaries carry their marks while a region is open, and its
row-parallel ones complete their sums. -/
structure DecoderLayer.Bounded (layer : DecoderLayer n X Q O G I) (s : Spread n) (marks : SpMarks) :
    Prop where
  qkv : s.opened = true → marks layer.qkvProj.node.id .g = true
  o : s.opened = true → marks layer.oProj.node.id .gBar = true
  gateUp : s.opened = true → marks layer.gateUpProj.node.id .g = true
  down : s.opened = true → marks layer.downProj.node.id .gBar = true
  oReduces : layer.oProj.node.reduceResults = true
  downReduces : layer.downProj.node.reduceResults = true

variable {layer : DecoderLayer n X Q O G I} {x : Fin n → Activations X} {rows : List X}

/-- Attention sees the rows of the grid, and what it makes of them is spread again. -/
theorem attention_completes (hbounded : layer.Bounded s marks) (h : s.Holds x rows) :
    ∃ y, Completes tpWire
        (fun rank => attentionForward ctx marks (s.region rank) rank layer (x rank))
        (fun rank => (y rank, rows.map (layer.qkvProj.applyLinear rank))) ∧
      s.Holds y (layer.oProj.reduced rows.length fun rank =>
        (layer.attn rank).run (rows.map (layer.qkvProj.applyLinear rank))) := by
  have hlength := h.length
  obtain ⟨held, hsize, rfl, hx⟩ := h
  obtain ⟨batchSize, seqLen, hstream⟩ := s.lead_eq
  have hlead : ∀ rank, (x rank).lead = [batchSize, seqLen] := fun rank => (hx rank).1.trans hstream
  simp only [attentionForward, hlead]
  obtain ⟨qkv, hqkv, hqkvrows⟩ := linear_completes
    (x := fun rank => Activations.ofRows (x rank).rows) hbounded.qkv hsize (fun rank => (hx rank).2)
    (.inl fun rank => Nat.le_refl _)
  have hseen : ∀ rank, (qkv rank).rows =
      (held.take s.numTokens).map (layer.qkvProj.applyLinear rank) := fun rank => (hqkvrows rank).1
  obtain ⟨out, held', hout, hsize', htake, houtrows⟩ := row_completes ctx
    (x := fun rank => Activations.ofRows ((layer.attn rank).run (qkv rank).rows))
    hbounded.oReduces hbounded.o
    (fun rank => by
      rw [Activations.ofRows_rows, GridMap.length_run, hseen, List.length_map, hlength])
    (.inl fun rank => Nat.le_refl _)
  have hview : ∀ rank, [batchSize, seqLen].prod = (out rank).rows.length := fun rank => by
    rw [(houtrows rank).1, Spread.slice_length hsize', hstream]
  refine ⟨fun rank => ⟨[batchSize, seqLen], (out rank).rows, hview rank⟩, ?_, held', hsize', ?_,
    fun rank => ⟨hstream.symm, (houtrows rank).1⟩⟩
  · have hviewed := fun rank => Activations.view_ok (hview rank)
    refine hqkv.bind (hout.bind ((Completes.of_ok hviewed).bind ?_))
    simp only [hseen]
    exact .pure _
  · rw [htake, hlength]
    simp only [Activations.ofRows_rows, hseen]

theorem mlp_completes (hbounded : layer.Bounded s marks) (h : s.Holds x rows) :
    ∃ y, Completes tpWire (fun rank => mlpForward ctx marks (s.region rank) rank layer (x rank)) y ∧
      s.Holds y (layer.downProj.reduced rows.length fun rank =>
        (rows.map (layer.gateUpProj.applyLinear rank)).map layer.swiglu) := by
  have hlength := h.length
  obtain ⟨held, hsize, rfl, hx⟩ := h
  obtain ⟨gateUp, hgateUp, hrows⟩ := linear_completes hbounded.gateUp hsize
    (fun rank => (hx rank).2) (.inr fun rank => (hx rank).1)
  obtain ⟨out, held', hout, hsize', htake, houtrows⟩ := row_completes ctx
    (x := fun rank => (gateUp rank).map layer.swiglu) hbounded.downReduces hbounded.down
    (fun rank => by
      rw [Activations.map_rows, List.length_map, (hrows rank).1, List.length_map, hlength])
    (.inr fun rank => (hrows rank).2 (hx rank).1)
  refine ⟨out, hgateUp.bind hout, held', hsize', ?_, fun rank =>
    ⟨(houtrows rank).2 ((hrows rank).2 (hx rank).1), (houtrows rank).1⟩⟩
  rw [htake, hlength]
  simp only [Activations.map_rows, fun rank => (hrows rank).1]

/-- **One block** keeps what the ranks hold between them. -/
theorem layer_completes (hbounded : layer.Bounded s marks) (h : s.Holds x rows)
    {residual : Fin n → Option (Activations X)} {rows' : Option (List X)}
    (h' : s.HoldsSum residual rows') :
    ∃ y z, Completes tpWire
        (fun rank => layerForward ctx marks (s.region rank) rank layer (x rank) (residual rank))
        (fun rank => ((y rank, z rank), (layer.grid rows rows').2 rank)) ∧
      s.Holds y (layer.grid rows rows').1.1 ∧ s.Holds z (layer.grid rows rows').1.2 := by
  obtain ⟨normed, sum, hnorm, hnormed, hsum⟩ := h.norm h' layer.inputNorm
  obtain ⟨attended, hattn, hattended⟩ := attention_completes ctx hbounded hnormed
  obtain ⟨normed', sum', hnorm', hnormed', hsum'⟩ :=
    hattended.norm (.some hsum) layer.postAttentionNorm
  obtain ⟨out, hmlp, hout⟩ := mlp_completes ctx hbounded hnormed'
  have hrows : (gridNorm layer.inputNorm rows rows').1.length = rows.length :=
    hnormed.length.trans h.length.symm
  rw [hnormed'.length, ← h.length] at hout
  rw [hrows] at hout hsum'
  refine ⟨out, sum', ?_, hout, hsum'⟩
  exact (Completes.of_ok hnorm).bind (hattn.bind ((Completes.of_ok hnorm').bind
    (hmlp.bind (.pure _))))

/-- **A stack of blocks**, from any layer on. Features are added between layers only while the
ranks hold all rows. -/
theorem layers_completes {layerContext : Option (Nat → GridMap X X)}
    (hcontext : s.opened = true → layerContext = none) {layers : List (DecoderLayer n X Q O G I)}
    (hbounded : ∀ layer ∈ layers, layer.Bounded s marks) (index : Nat) (h : s.Holds x rows)
    {residual : Fin n → Option (Activations X)} {rows' : Option (List X)}
    (h' : s.HoldsSum residual rows') :
    ∃ y z, Completes tpWire
        (fun rank => layersForward ctx marks (s.region rank) rank layerContext index layers (x rank)
          (residual rank))
        (fun rank => ((y rank, z rank),
          (layersGrid layerContext index layers rows rows').2.map fun seen => seen rank)) ∧
      s.Holds y (layersGrid layerContext index layers rows rows').1.1 ∧
      s.HoldsSum z (layersGrid layerContext index layers rows rows').1.2 := by
  induction layers generalizing index x rows residual rows' with
  | nil => exact ⟨x, residual, .pure _, h, h'⟩
  | cons layer layers ih =>
    obtain ⟨out, sum, hlayer, hout, hsum⟩ :=
      layer_completes ctx (hbounded layer List.mem_cons_self) h h'
    have hlayers := fun layer h => hbounded layer (List.mem_cons_of_mem _ h)
    cases layerContext with
    | none =>
      obtain ⟨y, z, hrest, hy, hz⟩ := ih hlayers (index + 1) hout (.some hsum)
      exact ⟨y, z, hlayer.bind (hrest.bind (.pure _)), hy, hz⟩
    | some afterLayer =>
      have hclosed : ¬ s.opened = true := fun hopened => nomatch hcontext hopened
      have hsize : s.size = s.numTokens := if_neg hclosed
      have hafter : s.Holds (fun rank => (afterLayer index).onTensor (out rank))
          ((afterLayer index).run (layer.grid rows rows').1.1) := by
        have hlength := hout.length
        obtain ⟨held, hheld, htake, hx⟩ := hout
        rw [List.take_of_length_le (by rw [hheld, hsize])] at htake
        subst htake
        have hrun : ((afterLayer index).run (layer.grid rows rows').1.1).length = s.numTokens := by
          rw [GridMap.length_run, hlength]
        refine ⟨_, hrun.trans hsize.symm, List.take_of_length_le (le_of_eq hrun), fun rank =>
          ⟨(hx rank).1, ?_⟩⟩
        have hrows := (hx rank).2
        rw [Spread.slice, if_neg hclosed] at hrows ⊢
        exact congrArg (afterLayer index).run hrows
      obtain ⟨y, z, hrest, hy, hz⟩ := ih hlayers (index + 1) hafter (.some hsum)
      exact ⟨y, z, hlayer.bind (hrest.bind (.pure _)), hy, hz⟩

end Stack

/-! ### The forward -/

section Transparent

variable [AddCommMonoid X] (ctx : TpContext) {marks : SpMarks} {s : Spread n}

/-- At the entry of a region every rank takes its shard of the padded grid. -/
theorem entryScatter_holds (hopened : s.opened = true) (hiddenStates : Activations X)
    (hsize : hiddenStates.rows.length = s.numTokens) :
    s.Holds (fun rank : Fin n => entryScatter hiddenStates ⟨s.numTokens, n, rank⟩)
      hiddenStates.rows := by
  have hpos : 0 < n := Nat.zero_lt_of_lt (s.peers hopened)
  have hle := s.numTokens_le_size
  have hflat : (padRows hiddenStates.rows s.size).length = s.size := by
    rw [padRows, List.length_append, List.length_replicate, hsize]
    omega
  have hslice : ∀ rank : Fin n, (entryScatter hiddenStates ⟨s.numTokens, n, rank⟩).rows =
      s.slice (padRows hiddenStates.rows s.size) rank := by
    intro rank
    have hpadded : (SequenceParallelRegion.mk s.numTokens n rank).paddedTokens = s.size := by
      rw [SequenceParallelRegion.paddedTokens_eq hpos, Spread.size, if_pos hopened]
      rfl
    have hlocal : (SequenceParallelRegion.mk s.numTokens n rank).localTokens = s.shard :=
      SequenceParallelRegion.localTokens_eq hpos
    simp only [entryScatter, hpadded, hlocal]
    rw [Spread.slice, if_pos hopened, Windows.window, List.drop_take, Nat.add_sub_cancel_left]
  refine ⟨padRows hiddenStates.rows s.size, hflat, ?_, fun rank => ⟨?_, hslice rank⟩⟩
  · rw [padRows, ← hsize, List.take_left]
  · have hlead : (entryScatter hiddenStates ⟨s.numTokens, n, rank⟩).lead =
        [1, (entryScatter hiddenStates ⟨s.numTokens, n, rank⟩).rows.length] := rfl
    rw [hlead, hslice, Spread.slice_length hflat, Spread.lead, if_pos hopened]
    simp

/-- **A forward, in a region or in none**, ends on the grid of the model on every rank. -/
theorem forwardIn_completes {model : CausalLM n X Q O G I}
    (hcontext : s.opened = true → model.layerContext = none)
    (hbounded : ∀ layer ∈ model.layers, layer.Bounded s marks) (hiddenStates : Activations X)
    (hshape : hiddenStates.lead = [s.batch, s.seq]) :
    ∃ grid : Activations X, grid.lead = hiddenStates.lead ∧
      grid.rows = (model.grid hiddenStates.rows).1 ∧
      Completes tpWire
        (fun rank => forwardIn ctx marks (s.region rank) rank model hiddenStates)
        (fun rank => (grid, (model.grid hiddenStates.rows).2.map fun seen => seen rank)) := by
  have hsize : hiddenStates.rows.length = s.numTokens := by
    rw [← hiddenStates.size, hshape]
    simp [Spread.numTokens]
  by_cases hopened : s.opened = true
  · have hregion : ∀ rank, s.region rank = some ⟨s.numTokens, n, rank⟩ := fun rank => if_pos hopened
    obtain ⟨x, residual, hlayers, hx, hresidual⟩ := layers_completes ctx hcontext hbounded 0
      (entryScatter_holds hopened hiddenStates hsize) .none
    obtain ⟨y, z, hnorm, hy, -⟩ := hx.norm hresidual model.norm
    obtain ⟨held, hheld, htake, hy⟩ := hy
    have hview : hiddenStates.lead.prod =
        (Activations.ofRows (held.take s.numTokens)).rows.length := by
      rw [hiddenStates.size, hsize, Activations.ofRows_rows, List.length_take, hheld,
        Nat.min_eq_left s.numTokens_le_size]
    refine ⟨⟨hiddenStates.lead, held.take s.numTokens, hview⟩, rfl, htake, ?_⟩
    simp only [forwardIn, hregion]
    simp only [hregion] at hlayers
    refine hlayers.bind ((Completes.of_ok hnorm).bind (Completes.bind ?_ (.pure _)))
    exact (allGather_completes hopened hheld fun rank => (hy rank).2).bind
      (.of_ok fun rank => Activations.view_ok hview)
  · have hregion : ∀ rank, s.region rank = none := fun rank => if_neg hopened
    have hholds : s.Holds (fun _ => hiddenStates) hiddenStates.rows := by
      have hwhole : s.size = s.numTokens := if_neg hopened
      refine ⟨hiddenStates.rows, hsize.trans hwhole.symm, List.take_of_length_le (le_of_eq hsize),
        fun rank => ⟨?_, ?_⟩⟩
      · rw [hshape, Spread.lead, if_neg hopened]
      · rw [Spread.slice, if_neg hopened]
    obtain ⟨x, residual, hlayers, hx, hresidual⟩ :=
      layers_completes ctx hcontext hbounded 0 hholds .none
    obtain ⟨y, z, hnorm, hy, -⟩ := hx.norm hresidual model.norm
    obtain ⟨held, hheld, htake, hy⟩ := hy
    have hwhole : held.take s.numTokens = held := by
      refine List.take_of_length_le ?_
      rw [hheld, Spread.size, if_neg hopened]
    rw [hwhole] at htake
    have hview : hiddenStates.lead.prod = held.length := by
      rw [hiddenStates.size, hsize, hheld, Spread.size, if_neg hopened]
    have hsame : ∀ rank, y rank = ⟨hiddenStates.lead, held, hview⟩ := fun rank => by
      refine Activations.ext ?_ ?_
      · rw [(hy rank).1, hshape, Spread.lead, if_neg hopened]
      · rw [(hy rank).2, Spread.slice, if_neg hopened]
    refine ⟨⟨hiddenStates.lead, held, hview⟩, rfl, htake, ?_⟩
    simp only [forwardIn, hregion]
    simp only [hregion] at hlayers
    refine hlayers.bind ((Completes.of_ok hnorm).bind ?_)
    simp only [hsame]
    exact .pure _

/-- What attention sees is a row for each row of the grid. -/
theorem layersGrid_seen {layerContext : Option (Nat → GridMap X X)}
    (layers : List (DecoderLayer n X Q O G I)) (index : Nat) (rows : List X)
    (residual : Option (List X)) (hresidual : ∀ sum ∈ residual, sum.length = rows.length) :
    ∀ seen ∈ (layersGrid layerContext index layers rows residual).2, ∀ rank,
      (seen rank).length = rows.length := by
  induction layers generalizing index rows residual with
  | nil => exact nofun
  | cons layer layers ih =>
    have hnorm : ∀ (norm : X → X) (rows : List X) (residual : Option (List X)),
        (∀ sum ∈ residual, sum.length = rows.length) →
        (gridNorm norm rows residual).1.length = rows.length ∧
          (gridNorm norm rows residual).2.length = rows.length := by
      intro norm rows residual h
      cases residual with
      | none => exact ⟨List.length_map .., rfl⟩
      | some sum =>
        have hsum : (rows.zipWith (· + ·) sum).length = rows.length := by
          rw [List.length_zipWith, h sum rfl, Nat.min_self]
        exact ⟨(List.length_map ..).trans hsum, hsum⟩
    obtain ⟨hfirst, hsum⟩ := hnorm layer.inputNorm rows residual hresidual
    have hsum' : (layer.grid rows residual).1.2.length = rows.length := by
      refine (hnorm _ _ _ fun sum h => ?_).2.trans sumRows_length
      rw [← Option.some.inj h, hsum]
      exact sumRows_length.symm
    have hout : (layer.grid rows residual).1.1.length = rows.length := sumRows_length
    refine List.forall_mem_cons.mpr ⟨fun rank => (List.length_map ..).trans hfirst, ?_⟩
    cases layerContext with
    | none =>
      rw [← hout]
      exact ih _ _ _ fun sum h => by rw [← Option.some.inj h, hsum', ← hout]
    | some afterLayer =>
      have hafter : ((afterLayer index).run (layer.grid rows residual).1.1).length = rows.length :=
        ((afterLayer index).length_run _).trans hout
      rw [← hafter]
      exact ih _ _ _ fun sum h => by rw [← Option.some.inj h, hsum', hafter]

end Transparent

/-- A layer runs a block of the tree: its projections are what the paths of the roles lead to. -/
structure DecoderLayer.Runs (layer : DecoderLayer n X Q O G I) (tree : ModuleTree)
    (block : ModuleRef) : Prop where
  place : block ∈ tree.places
  isBlock : block.isBlock = true
  qkv : (block.resolve ["self_attn", "qkv_proj"]).map ModuleRef.node = some layer.qkvProj.node
  o : (block.resolve ["self_attn", "o_proj"]).map ModuleRef.node = some layer.oProj.node
  gateUp : (block.resolve ["mlp", "gate_up_proj"]).map ModuleRef.node = some layer.gateUpProj.node
  down : (block.resolve ["mlp", "down_proj"]).map ModuleRef.node = some layer.downProj.node

/-- The blocks of a marked model are bounded, whether a region is open or not. -/
theorem DecoderLayer.Runs.bounded {layer : DecoderLayer n X Q O G I} {tree : ModuleTree}
    {block : ModuleRef} (h : layer.Runs tree block) {pass : SequenceParallelPass} {marks : SpMarks}
    {found : List Boundary} (hmarked : Marked tree pass marks found) (hmatched : pass.matched ≠ [])
    (s : Spread n) : layer.Bounded s marks := by
  have hfound : found ≠ [] := by simpa [hmarked.matched] using hmatched
  have hrole : ∀ role ∈ spRoles, ∀ node,
      (block.resolve role.path).map ModuleRef.node = some node →
        marks node.id role.attr = true ∧ (role.attr = .gBar → node.reduceResults = true) := by
    intro role hrole node hnode
    obtain ⟨boundary, hboundary, name, hof⟩ :=
      hmarked.every hfound block h.place h.isBlock role hrole
    rw [hof.resolves, Option.map_some] at hnode
    obtain rfl := Option.some.inj hnode
    refine ⟨?_, hof.reduces⟩
    rw [hmarked.marks _ (ModuleTree.resolve_mem h.place hof.resolves)]
    exact ⟨boundary, hboundary, rfl, hof.attr⟩
  obtain ⟨hqkv, -⟩ := hrole _ (.head _) _ h.qkv
  obtain ⟨ho, hoReduces⟩ := hrole _ (.tail _ (.head _)) _ h.o
  obtain ⟨hgateUp, -⟩ := hrole _ (.tail _ (.tail _ (.head _))) _ h.gateUp
  obtain ⟨hdown, hdownReduces⟩ := hrole _ (.tail _ (.tail _ (.tail _ (.head _)))) _ h.down
  exact ⟨fun _ => hqkv, fun _ => ho, fun _ => hgateUp, fun _ => hdown, hoReduces rfl,
    hdownReduces rfl⟩

/-- **The pass and the region.** After any number of runs of the pass over a tree, whatever was
marked before: `matched` names exactly the modules that carry a mark, and either none does or
every role of every block. A forward of blocks of a marked tree goes through on every rank of a
group of any size, over a grid of any shape, and ends on one hidden grid, whether its region is
open or not; attention sees, on each rank, the same row for each row of the grid. -/
theorem sequenceParallel_transparent (tree : ModuleTree)
    (runs : List (SequenceParallelPass × Nat)) (hruns : runs ≠ []) (last : SequenceParallelPass)
    (marks : SpMarks) :
    let out := applyRuns tree runs last marks
    (∃ found, Marked tree out.1 out.2 found) ∧
      ((out.1.matched = [] ∧ ∀ module ∈ tree.places, ∀ attr, out.2 module.node.id attr = false) ∨
        (out.1.matched ≠ [] ∧ ∀ block ∈ tree.places, block.isBlock = true → ∀ role ∈ spRoles,
          ∃ module, block.resolve role.path = some module ∧
            out.2 module.node.id role.attr = true)) ∧
      ∀ {n : Nat} {X Q O G I : Type} [AddCommMonoid X] (ctx : TpContext)
        (model : CausalLM n X Q O G I) (hiddenStates : Activations X) (batch seq : Nat),
        out.1.matched ≠ [] → (∀ layer ∈ model.layers, ∃ block, layer.Runs tree block) →
        hiddenStates.lead = [batch, seq] →
        ∃ (grid : Activations X) (seen : List (Fin n → List Q)),
          grid.lead = [batch, seq] ∧
          (∀ rows ∈ seen, ∀ rank, (rows rank).length = batch * seq) ∧
          Completes tpWire
            (fun rank => forward ctx out.2 rank out.1.matched model hiddenStates)
            (fun rank => (grid, seen.map fun rows => rows rank)) ∧
          Completes tpWire
            (fun rank => forwardIn ctx out.2 none rank model hiddenStates)
            (fun rank => (grid, seen.map fun rows => rows rank)) := by
  obtain ⟨found, hmarked⟩ := applyRuns_marked tree runs hruns last marks
  refine ⟨⟨found, hmarked⟩, hmarked.all_or_none, ?_⟩
  intro n X Q O G I _ ctx model hiddenStates batch seq hmatched hlayers hshape
  have hbounded : ∀ s : Spread n, ∀ layer ∈ model.layers, layer.Bounded s _ := fun s layer h =>
    (hlayers layer h).elim fun block hblock => hblock.bounded hmarked hmatched s
  let closed : Spread n := ⟨batch, seq, false, nofun⟩
  obtain ⟨grid, hlead, hrows, hclosed⟩ := forwardIn_completes ctx (s := closed) nofun
    (hbounded closed) hiddenStates hshape
  have hsize : hiddenStates.rows.length = batch * seq := by
    rw [← hiddenStates.size, hshape]
    simp
  refine ⟨grid, (model.grid hiddenStates.rows).2, hlead.trans hshape, ?_, ?_, hclosed⟩
  · rw [← hsize]
    exact layersGrid_seen model.layers 0 hiddenStates.rows none nofun
  unfold forward
  dsimp only
  generalize hmark : (!(applyRuns tree runs last marks).1.matched.isEmpty &&
    model.layerContext.isNone) = marked
  by_cases helig : eligible ctx hiddenStates.lead.prod marked n = true
  · have hopen : marked = true ∧ 1 < n := by
      unfold eligible at helig
      split at helig
      · cases helig
      · next hgates =>
        obtain ⟨hmarked, hgates⟩ := not_or.mp hgates
        exact ⟨by simpa using hmarked, Nat.not_le.mp (not_or.mp hgates).1⟩
    obtain ⟨rfl, hpeers⟩ := hopen
    have hnone : model.layerContext = none := by
      rw [Bool.and_eq_true] at hmark
      exact Option.isNone_iff_eq_none.mp hmark.2
    let opened : Spread n := ⟨batch, seq, true, fun _ => hpeers⟩
    have hregion : ∀ rank : Fin n, sequenceParallelRegion ctx hiddenStates.lead.prod true rank =
        opened.region rank := fun rank => by
      rw [sequenceParallelRegion, if_pos helig, hshape]
      simp [Spread.region, opened, Spread.numTokens]
    simp only [hregion]
    obtain ⟨grid', hlead', hrows', hopened⟩ := forwardIn_completes ctx (s := opened)
      (fun _ => hnone) (hbounded opened) hiddenStates hshape
    obtain rfl : grid' = grid := Activations.ext (hlead'.trans hlead.symm) (hrows'.trans hrows.symm)
    exact hopened
  · have hregion : ∀ rank : Fin n, sequenceParallelRegion ctx hiddenStates.lead.prod marked rank =
        closed.region rank := fun rank => if_neg helig
    simp only [hregion]
    exact hclosed

/-! One block, two ranks and three tokens: a shard of two rows each, one of them padding. -/

def blockModule : ModuleRef :=
  ⟨⟨1, "DecoderLayer", true, true, true⟩,
    .cons "self_attn" ⟨2, "Attention", false, false, true⟩
      (.cons "qkv_proj" ⟨3, "QKVParallelLinear", false, false, true⟩ .nil
        (.cons "o_proj" ⟨4, "RowParallelLinear", false, false, true⟩ .nil .nil))
      (.cons "mlp" ⟨5, "FusedMLP", false, false, true⟩
        (.cons "gate_up_proj" ⟨6, "ColumnParallelLinear", false, false, true⟩ .nil
          (.cons "down_proj" ⟨7, "RowParallelLinear", false, false, true⟩ .nil .nil)) .nil)⟩

def oneBlockRoot : ModuleRef :=
  ⟨⟨0, "CausalLM", false, false, true⟩, .cons "0" blockModule.node blockModule.children .nil⟩

theorem oneBlock_identity : ∀ module ∈ oneBlockRoot :: oneBlockRoot.children.descendants,
    ∀ module' ∈ oneBlockRoot :: oneBlockRoot.children.descendants,
      module.node.id = module'.node.id → module = module' := by
  decide

def oneBlockTree : ModuleTree := ⟨oneBlockRoot, oneBlock_identity⟩

/-- Each rank attends to its own features of all the rows. -/
def runningTotals : GridMap Int Int where
  run rows := rows.mapIdx fun k _ => (rows.take (k + 1)).sum
  length_run _ := List.length_mapIdx

def oneBlockLayer : DecoderLayer 2 Int Int Int Int Int where
  inputNorm row := row + 1
  qkvProj := ⟨⟨3, "QKVParallelLinear", false, false, true⟩, fun rank row => row * (rank.val + 1)⟩
  attn _ := runningTotals
  oProj := ⟨⟨4, "RowParallelLinear", false, false, true⟩, fun rank row => row * (rank.val + 2)⟩
  postAttentionNorm row := row * row
  gateUpProj := ⟨⟨6, "ColumnParallelLinear", false, false, true⟩, fun rank row => row - rank.val⟩
  swiglu row := row * row
  downProj := ⟨⟨7, "RowParallelLinear", false, false, true⟩, fun rank row => row * (rank.val + 5)⟩

def threeTokens : Activations Int := ⟨[1, 3], [4, 9, 2], rfl⟩

theorem oneBlock_transparent :
    let out := applyRuns oneBlockTree [(⟨true, [], none⟩, 2)] ⟨true, [], none⟩ fun _ _ => true
    let ctx : TpContext := ⟨2, {}, false, true, 1⟩
    let model : CausalLM 2 Int Int Int Int Int := ⟨[oneBlockLayer], fun row => row + 3, none⟩
    eligible ctx 3 true 2 = true ∧
      ∃ (grid : Activations Int) (seen : List (Fin 2 → List Int)), grid.lead = [1, 3] ∧
        (∀ rows ∈ seen, ∀ rank, (rows rank).length = 1 * 3) ∧
        Completes tpWire (fun rank => forward ctx out.2 rank out.1.matched model threeTokens)
          (fun rank => (grid, seen.map fun rows => rows rank)) ∧
        Completes tpWire (fun rank => forwardIn ctx out.2 none rank model threeTokens)
          (fun rank => (grid, seen.map fun rows => rows rank)) :=
  ⟨by decide, (sequenceParallel_transparent oneBlockTree [(⟨true, [], none⟩, 2)] (by decide)
    ⟨true, [], none⟩ fun _ _ => true).2.2 ⟨2, {}, false, true, 1⟩
      ⟨[oneBlockLayer], fun row => row + 3, none⟩ threeTokens 1 3 (by decide)
      (fun layer h => by
        obtain rfl := List.mem_singleton.mp h
        exact ⟨blockModule, ⟨by decide, rfl, by decide, by decide, by decide, by decide⟩⟩)
      rfl⟩

end RapidLlm.SequenceParallel
