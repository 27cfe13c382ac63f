import Mathlib.Data.Fin.VecNotation
import RapidLlm.DeepseekV4.Cache
import RapidLlm.DeepseekV4.Compressor
import RapidLlm.Lib.Run

/-!
# RapidLlm.DeepseekV4.Attention

**What a DeepSeek-V4 query attends** (`modules/deepseek_v4/attention.py`, `cache.py` and the
forward methods of `compressor.py`): the retained sliding window with this call's keys, and the
compressed entries its layer exposes. Tensors are a row of slots per sequence, padded to one
width; a key is attended when its mask is not the masking value.

A row that is fed its sequence in any pieces exposes what the sequence determines
(`feed_right_iff`), but for one case: on a heavily-compressed layer a one-token call has no
mask, so a row with fewer entries than another attends the other row's padding.
-/

namespace RapidLlm

open Windows

/-- The vectors of one layer. Keys and compressed entries have the same width. -/
structure V4Carriers where
  Token : Type
  Key : Type
  Proj : Type
  Slice : Type
  IndexProj : Type
  IndexSlice : Type
  IndexKey : Type
  Score : Type
  scoreOrder : LinearOrder Score

attribute [instance] V4Carriers.scoreOrder

/-- One position of a padded call. -/
structure Slot (Token : Type) where
  token : Token
  position : Nat
  valid : Bool

/-- One call: a row of slots for each sequence of the batch. -/
structure Call (B : Nat) (Token : Type) where
  width : Nat
  slots : Fin B → List (Slot Token)
  length_eq : ∀ b, (slots b).length = width

/-- The Lightning Indexer: its own scaled-down entries, and the score of a token at a position. -/
structure DeepseekV4Indexer (T : V4Carriers) where
  pool : OverlapPool T.Token T.IndexProj T.IndexSlice T.IndexKey
  indexTopk : Nat
  score : T.Token → Nat → T.IndexKey → T.Score

/-- Compressed-Sparse Attention: overlapping windows, and the indexer that picks from them. -/
structure CSACompressor (T : V4Carriers) where
  compressRate : Nat
  compressRate_pos : 0 < compressRate
  pool : OverlapPool T.Token T.Proj T.Slice T.Key
  indexer : DeepseekV4Indexer T

inductive LayerType (T : V4Carriers)
  | slidingAttention
  | heavilyCompressedAttention (c : HCACompressor T.Token T.Proj T.Key)
  | compressedSparseAttention (c : CSACompressor T)

structure DeepseekV4Attention (T : V4Carriers) where
  layerType : LayerType T
  slidingWindow : Nat
  slidingWindow_pos : 0 < slidingWindow
  /-- `kv_proj`, `kv_norm` and the rope at a position. -/
  kv : T.Token → Nat → T.Key
  /-- `torch.topk`, on positions and on scores. -/
  topk : TopK
  zeros : T.Key

/-- What one row carries from call to call. -/
structure LayerRow (T : V4Carriers) where
  /-- `sliding_pos` (`-1` for padding) with `sliding_kv`. -/
  sliding : List (Int × T.Key) := []
  compressor : CompressorRow T.Proj T.Slice T.Key := {}
  indexer : CompressorRow T.IndexProj T.IndexSlice T.IndexKey := {}

/-- What a query gives non-masked weight to: window keys with their positions, and entries
with their indices. -/
structure Context (Key : Type) where
  sliding : List (Int × Key)
  compressed : List (Nat × Key)

variable {T : V4Carriers} {B : Nat}

/-- `torch.where(valid, position_ids, -1)`. -/
def Slot.pos {Token : Type} (slot : Slot Token) : Int := if slot.valid then slot.position else -1

/-- The real tokens of a row. -/
def Call.valid {Token : Type} (call : Call B Token) (b : Fin B) : List (Slot Token) :=
  (call.slots b).filter fun slot => slot.valid

/-- The longest row of entries, to which all are padded. -/
def tMax {Proj Slice Entry : Type} (rows : Fin B → CompressorRow Proj Slice Entry) : Nat :=
  ((List.finRange B).map fun b => (rows b).compressed.length).foldl max 0

/-- The entries a row's mask lets through, zeros where the row is padded. -/
def exposed (zeros : T.Key) (row : CompressorRow T.Proj T.Slice T.Key) (visible : List Nat) :
    List (Nat × T.Key) :=
  visible.map fun w => (w, row.compressed.getD w zeros)

/-- `block_bias`: which entries a query sees. A one-token call gets no mask. -/
def HCACompressor.visible {Token Proj Entry : Type} (c : HCACompressor Token Proj Entry)
    (width tMax position : Nat) : List Nat :=
  if width = 1 ∨ tMax = 0 then List.range tMax
  else (List.range tMax).filter fun w => w < (position + 1) / c.compressRate

namespace DeepseekV4Indexer

variable (x : DeepseekV4Indexer T) (rate : Nat) (topk : TopK)

/-- Scores of the entries, `-inf` for the future and for another row's padding. -/
def indexScores (tMax : Nat) (row : CompressorRow T.IndexProj T.IndexSlice T.IndexKey)
    (slot : Slot T.Token) : List (WithBot T.Score) :=
  (List.range tMax).map fun w =>
    if (slot.position + 1) / rate ≤ w then ⊥
    else match row.compressed[w]? with
      | some entry => (x.score slot.token slot.position entry : WithBot T.Score)
      | none => ⊥

/-- The entries a query attends: its picks below the ceiling, the others get the sentinel. -/
def picks (tMax : Nat) (row : CompressorRow T.IndexProj T.IndexSlice T.IndexKey)
    (slot : Slot T.Token) : List Nat :=
  let ceiling := min ((slot.position + 1) / rate) row.compressed.length
  (topk.pick (x.indexScores rate tMax row slot) (min x.indexTopk tMax)).filter (· < ceiling)

end DeepseekV4Indexer

namespace DeepseekV4Attention

variable (attn : DeepseekV4Attention T)

/-- The fresh keys of a row. -/
def fresh (slots : List (Slot T.Token)) : List (Int × T.Key) :=
  slots.map fun slot => (slot.pos, attn.kv slot.token slot.position)

/-- Feed a row its slots of one call. -/
def advance (row : LayerRow T) (slots : List (Slot T.Token)) : LayerRow T :=
  let tokens := (slots.filter fun slot => slot.valid).map fun slot => slot.token
  { sliding := (updateSliding attn.slidingWindow attn.topk row.sliding (attn.fresh slots)).2
    compressor := match attn.layerType with
      | .slidingAttention => row.compressor
      | .heavilyCompressedAttention c => c.advance row.compressor tokens
      | .compressedSparseAttention c => c.pool.advance c.compressRate row.compressor tokens
    indexer := match attn.layerType with
      | .compressedSparseAttention c => c.indexer.pool.advance c.compressRate row.indexer tokens
      | _ => row.indexer }

/-- The context of a query, from the full concatenation and the rows after this call. -/
def context (full : List (Int × T.Key)) (rows : Fin B → LayerRow T) (b : Fin B) (width : Nat)
    (slot : Slot T.Token) : Context T.Key :=
  { sliding := slidingVisible attn.slidingWindow full slot.pos
    compressed := match attn.layerType with
      | .slidingAttention => []
      | .heavilyCompressedAttention c =>
          exposed attn.zeros (rows b).compressor
            (c.visible width (tMax fun b => (rows b).compressor) slot.position)
      | .compressedSparseAttention c =>
          let picks := c.indexer.picks c.compressRate attn.topk (tMax fun b => (rows b).indexer)
            (rows b).indexer slot
          exposed attn.zeros (rows b).compressor
            ((List.range (tMax fun b => (rows b).compressor)).filter (· ∈ picks)) }

end DeepseekV4Attention

/-! ### Feeding a batch -/

/-- A batch between two calls, with how much of each sequence has been fed. -/
structure LayerState (T : V4Carriers) (B : Nat) where
  rows : Fin B → LayerRow T
  fed : Fin B → Nat

/-- After `reset`. -/
def LayerState.fresh (T : V4Carriers) (B : Nat) : LayerState T B where
  rows _ := {}
  fed _ := 0

/-- The valid slots are the next positions of every sequence. -/
def WellFed (sequences : Fin B → List T.Token) (s : LayerState T B) (call : Call B T.Token) :
    Prop :=
  ∀ b, (call.valid b).map (fun slot => (slot.token, slot.position)) <+:
    (sequences b).zipIdx.drop (s.fed b)

/-- One call with a whole sequence. -/
def wholeSlots {Token : Type} (sequence : List Token) : List (Slot Token) :=
  sequence.zipIdx.map fun x => ⟨x.1, x.2, true⟩

namespace DeepseekV4Attention

variable (attn : DeepseekV4Attention T) (sequences : Fin B → List T.Token)

def forward (s : LayerState T B) (call : Call B T.Token) : LayerState T B where
  rows b := attn.advance (s.rows b) (call.slots b)
  fed b := s.fed b + (call.valid b).length

/-- What a slot of a call attends. -/
def attends (s : LayerState T B) (call : Call B T.Token) (b : Fin B) (slot : Slot T.Token) :
    Context T.Key :=
  attn.context (updateSliding attn.slidingWindow attn.topk (s.rows b).sliding
    (attn.fresh (call.slots b))).1 (attn.forward s call).rows b call.width slot

def FeedStep (s : LayerState T B) (call : Call B T.Token) (s' : LayerState T B) : Prop :=
  WellFed sequences s call ∧ s' = attn.forward s call

/-- The K=V rows of a sequence with their positions. -/
def keys (sequence : List T.Token) : List (Int × T.Key) :=
  sequence.zipIdx.map fun x => ((x.2 : Int), attn.kv x.1 x.2)

/-- What the query at position `t` of a sequence is to attend: its window, and of the entries
closed by then all, or as many as the indexer picks. -/
def ContextRight (sequence : List T.Token) (t : Nat) (ctx : Context T.Key) : Prop :=
  ctx.sliding = ((attn.keys sequence).take (t + 1)).drop (t + 1 - attn.slidingWindow) ∧
    match attn.layerType with
    | .slidingAttention => ctx.compressed = []
    | .heavilyCompressedAttention c =>
        ctx.compressed = (List.range ((t + 1) / c.compressRate)).map fun w =>
          (w, c.entry sequence w)
    | .compressedSparseAttention c =>
        ctx.compressed.Sublist ((List.range ((t + 1) / c.compressRate)).map fun w =>
            (w, c.pool.entry c.compressRate sequence w)) ∧
          ctx.compressed.length = min c.indexer.indexTopk ((t + 1) / c.compressRate)

/-- Every real query of a call attends what it is to attend. -/
def CallRight (s : LayerState T B) (call : Call B T.Token) : Prop :=
  ∀ b, ∀ slot ∈ call.valid b,
    attn.ContextRight (sequences b) slot.position (attn.attends s call b slot)

/-- The entries of every row are the first of those that one call with its whole sequence
leaves. -/
def EntriesRight (s : LayerState T B) : Prop :=
  ∀ b, (s.rows b).compressor.compressed <+:
    (attn.advance {} (wholeSlots (sequences b))).compressor.compressed

/-- No one-token call of a heavily-compressed layer reaches a row that another row has
outgrown by an entry. -/
def EvenDecode (s : LayerState T B) (call : Call B T.Token) : Prop :=
  match attn.layerType with
  | .heavilyCompressedAttention c => call.width = 1 → ∀ b, ∀ slot ∈ call.valid b, ∀ b',
      (s.fed b' + (call.valid b').length) / c.compressRate ≤ (slot.position + 1) / c.compressRate
  | _ => True

end DeepseekV4Attention

/-! ### What a well-fed call brings -/

section WellFed

variable {attn : DeepseekV4Attention T} {sequences : Fin B → List T.Token} {s : LayerState T B}
  {call : Call B T.Token}

theorem DeepseekV4Attention.keys_positioned (attn : DeepseekV4Attention T)
    (sequence : List T.Token) : Positioned (attn.keys sequence) := by
  intro p key hkey
  rw [keys, List.getElem?_map, Option.map_eq_some_iff] at hkey
  obtain ⟨x, hx, rfl⟩ := hkey
  rw [List.getElem?_zipIdx, Option.map_eq_some_iff] at hx
  obtain ⟨token, -, rfl⟩ := hx
  simp

variable (h : WellFed sequences s call) (b : Fin B)

include h

theorem WellFed.eq_take : (call.valid b).map (fun slot => (slot.token, slot.position)) =
    ((sequences b).zipIdx.drop (s.fed b)).take (call.valid b).length := by
  have hprefix := List.prefix_iff_eq_take.mp (h b)
  rwa [List.length_map] at hprefix

theorem WellFed.length_le (hfed : s.fed b ≤ (sequences b).length) :
    s.fed b + (call.valid b).length ≤ (sequences b).length := by
  have hlen := (h b).length_le
  rw [List.length_map, List.length_drop, List.length_zipIdx] at hlen
  omega

theorem WellFed.take_append : (sequences b).take (s.fed b) ++
      (call.valid b).map (fun slot => slot.token) =
    (sequences b).take (s.fed b + (call.valid b).length) := by
  have hmap := congrArg (List.map Prod.fst) (h.eq_take b)
  rw [List.map_map, List.map_take, List.map_drop, List.zipIdx_map_fst] at hmap
  rw [List.take_add, ← hmap]
  rfl

/-- The query of a valid slot is at one of the next positions. -/
theorem WellFed.position {slot : Slot T.Token} (hslot : slot ∈ call.valid b) :
    s.fed b ≤ slot.position ∧ slot.position < s.fed b + (call.valid b).length := by
  have hmem := List.mem_map_of_mem (f := fun slot => (slot.token, slot.position)) hslot
  rw [h.eq_take b] at hmem
  obtain ⟨i, hi⟩ := List.mem_iff_getElem?.mp hmem
  obtain ⟨hlt, -⟩ := List.getElem?_eq_some_iff.mp hi
  have hlt := hlt.trans_le (List.length_take_le _ _)
  rw [List.getElem?_take_of_lt hlt, List.getElem?_drop, List.getElem?_zipIdx,
    Option.map_eq_some_iff] at hi
  obtain ⟨token, -, hpos⟩ := hi
  have hpos := congrArg Prod.snd hpos
  dsimp only at hpos
  omega

/-- The entries it can see are among those its row holds after the call. -/
theorem WellFed.closed_le {slot : Slot T.Token} (hslot : slot ∈ call.valid b) (rate : Nat) :
    (slot.position + 1) / rate ≤ (attn.forward s call).fed b / rate :=
  Nat.div_le_div_right (h.position b hslot).2

theorem WellFed.fresh_real : (attn.fresh (call.slots b)).filter real =
    ((attn.keys (sequences b)).drop (s.fed b)).take (call.valid b).length := by
  have hreal : ∀ slot : Slot T.Token,
      real (slot.pos, attn.kv slot.token slot.position) = slot.valid := by
    intro slot
    cases hvalid : slot.valid <;> simp [real, Slot.pos, hvalid]
  have hfilter : (attn.fresh (call.slots b)).filter real =
      (call.valid b).map fun slot => (slot.pos, attn.kv slot.token slot.position) := by
    rw [DeepseekV4Attention.fresh, List.filter_map, Call.valid]
    exact congrArg _ (List.filter_congr fun slot _ => hreal slot)
  have hkeys : (call.valid b).map (fun slot => (slot.pos, attn.kv slot.token slot.position)) =
      ((call.valid b).map fun slot => (slot.token, slot.position)).map
        fun x => ((x.2 : Int), attn.kv x.1 x.2) := by
    rw [List.map_map]
    refine List.map_congr_left fun slot hslot => ?_
    have hvalid := (List.mem_filter.mp hslot).2
    simp only [Function.comp_apply, Slot.pos, if_pos hvalid]
  rw [hfilter, hkeys, h.eq_take b, DeepseekV4Attention.keys, List.map_take, List.map_drop]

end WellFed

/-! ### Rows that were fed their sequences -/

section Fed

variable (attn : DeepseekV4Attention T) (sequences : Fin B → List T.Token)

/-- The compressor side of a row that was fed `tokens`. -/
def DeepseekV4Attention.RowCompresses (tokens : List T.Token) (row : LayerRow T) : Prop :=
  match attn.layerType with
  | .slidingAttention => row.compressor.compressed = []
  | .heavilyCompressedAttention c =>
      Compresses c.compressRate c.proj c.entry tokens row.compressor
  | .compressedSparseAttention c =>
      (Compresses c.compressRate c.pool.proj (c.pool.entry c.compressRate) tokens row.compressor ∧
        row.compressor.overlap =
          c.pool.before c.compressRate tokens (tokens.length / c.compressRate)) ∧
      (Compresses c.compressRate c.indexer.pool.proj (c.indexer.pool.entry c.compressRate) tokens
          row.indexer ∧
        row.indexer.overlap =
          c.indexer.pool.before c.compressRate tokens (tokens.length / c.compressRate))

variable {attn}

theorem rowCompresses_nil : attn.RowCompresses [] ({} : LayerRow T) := by
  unfold DeepseekV4Attention.RowCompresses
  cases attn.layerType with
  | slidingAttention => rfl
  | heavilyCompressedAttention c => exact compresses_nil
  | compressedSparseAttention c =>
    have hbefore : ([] : List T.Token).length / c.compressRate = 0 := Nat.zero_div _
    exact ⟨⟨compresses_nil, by rw [hbefore]; rfl⟩, compresses_nil, by rw [hbefore]; rfl⟩

theorem DeepseekV4Attention.RowCompresses.advance {tokens : List T.Token} {row : LayerRow T}
    (h : attn.RowCompresses tokens row) (slots : List (Slot T.Token)) :
    attn.RowCompresses
      (tokens ++ (slots.filter fun slot => slot.valid).map fun slot => slot.token)
      (attn.advance row slots) := by
  unfold DeepseekV4Attention.RowCompresses at h ⊢
  unfold DeepseekV4Attention.advance
  cases hlayer : attn.layerType with
  | slidingAttention => simpa only [hlayer] using h
  | heavilyCompressedAttention c =>
    simp only [hlayer] at h ⊢
    exact HCACompressor.advance_compresses h _
  | compressedSparseAttention c =>
    simp only [hlayer] at h ⊢
    exact ⟨OverlapPool.advance_compresses c.compressRate_pos h.1.1 h.1.2 _,
      OverlapPool.advance_compresses c.compressRate_pos h.2.1 h.2.2 _⟩

variable (attn)

/-- A batch whose rows were each fed the beginning of their sequence, in whatever pieces. -/
structure Fed (s : LayerState T B) : Prop where
  fed_le : ∀ b, s.fed b ≤ (sequences b).length
  retains : ∀ b, Retains attn.slidingWindow (attn.keys (sequences b)) (s.fed b) (s.rows b).sliding
  compresses : ∀ b, attn.RowCompresses ((sequences b).take (s.fed b)) (s.rows b)

variable {attn sequences}

theorem fed_fresh : Fed attn sequences (LayerState.fresh T B) where
  fed_le _ := Nat.zero_le _
  retains _ := retains_nil
  compresses _ := rowCompresses_nil

theorem Fed.forward {s : LayerState T B} {call : Call B T.Token} (h : Fed attn sequences s)
    (hcall : WellFed sequences s call) : Fed attn sequences (attn.forward s call) where
  fed_le b := hcall.length_le b (h.fed_le b)
  retains b := (h.retains b).update (attn.keys_positioned _) (hcall.fresh_real b)
  compresses b := by
    have hadvance := (h.compresses b).advance (call.slots b)
    rwa [← Call.valid, hcall.take_append b] at hadvance

theorem Fed.step {s s' : LayerState T B} {call : Call B T.Token} (h : Fed attn sequences s)
    (hstep : attn.FeedStep sequences s call s') : Fed attn sequences s' := by
  rw [hstep.2]
  exact h.forward hstep.1

theorem Fed.of_run {calls : List (Call B T.Token)} {s : LayerState T B}
    (hrun : Run (attn.FeedStep sequences) (LayerState.fresh T B) calls s) :
    Fed attn sequences s :=
  hrun.invariant (fun _ _ _ h => h.step) fed_fresh

variable {s : LayerState T B} (h : Fed attn sequences s) (b : Fin B)

include h

theorem Fed.heavily_compressed {c : HCACompressor T.Token T.Proj T.Key}
    (hlayer : attn.layerType = .heavilyCompressedAttention c) :
    (s.rows b).compressor.compressed =
      (List.range (s.fed b / c.compressRate)).map (c.entry (sequences b)) := by
  have hrow := h.compresses b
  simp only [DeepseekV4Attention.RowCompresses, hlayer] at hrow
  refine hrow.compressed_take (h.fed_le b) fun w hw => ?_
  have hclosed : w < ((sequences b).take (s.fed b)).length / c.compressRate := by
    rwa [List.length_take_of_le (h.fed_le b)]
  have hlocal := HCACompressor.entry_append hclosed ((sequences b).drop (s.fed b))
  rwa [List.take_append_drop] at hlocal

theorem Fed.compressed_sparse {c : CSACompressor T}
    (hlayer : attn.layerType = .compressedSparseAttention c) :
    (s.rows b).compressor.compressed =
        (List.range (s.fed b / c.compressRate)).map
          (c.pool.entry c.compressRate (sequences b)) ∧
      (s.rows b).indexer.compressed =
        (List.range (s.fed b / c.compressRate)).map
          (c.indexer.pool.entry c.compressRate (sequences b)) := by
  have hrow := h.compresses b
  simp only [DeepseekV4Attention.RowCompresses, hlayer] at hrow
  have hclosed : ∀ w < s.fed b / c.compressRate,
      w < ((sequences b).take (s.fed b)).length / c.compressRate := by
    rw [List.length_take_of_le (h.fed_le b)]
    exact fun w hw => hw
  constructor
  · refine hrow.1.1.compressed_take (h.fed_le b) fun w hw => ?_
    have hlocal := OverlapPool.entry_append (c := c.pool) (hclosed w hw)
      ((sequences b).drop (s.fed b))
    rwa [List.take_append_drop] at hlocal
  · refine hrow.2.1.compressed_take (h.fed_le b) fun w hw => ?_
    have hlocal := OverlapPool.entry_append (c := c.indexer.pool) (hclosed w hw)
      ((sequences b).drop (s.fed b))
    rwa [List.take_append_drop] at hlocal

end Fed

/-! ### Contexts -/

theorem tMax_le_iff {Proj Slice Entry : Type} {rows : Fin B → CompressorRow Proj Slice Entry}
    {n : Nat} : tMax rows ≤ n ↔ ∀ b, (rows b).compressed.length ≤ n := by
  rw [tMax, foldl_max_le_iff, List.forall_mem_map]
  exact ⟨fun h b => h.2 b (List.mem_finRange b), fun h => ⟨Nat.zero_le n, fun b _ => h b⟩⟩

theorem le_tMax {Proj Slice Entry : Type} (rows : Fin B → CompressorRow Proj Slice Entry)
    (b : Fin B) : (rows b).compressed.length ≤ tMax rows :=
  tMax_le_iff.mp le_rfl b

/-- A mask that stays below a row's entries exposes entries only. -/
theorem exposed_eq {zeros : T.Key} {row : CompressorRow T.Proj T.Slice T.Key}
    {visible : List Nat} {m : Nat} {entry : Nat → T.Key}
    (hrow : row.compressed = (List.range m).map entry) (hvisible : ∀ w ∈ visible, w < m) :
    exposed zeros row visible = visible.map fun w => (w, entry w) := by
  refine List.map_congr_left fun w hw => ?_
  rw [hrow, List.getD_eq_getElem?_getD, List.getElem?_map,
    List.getElem?_range (hvisible w hw)]
  rfl

/-- What a heavily-compressed layer exposes to a query, where its row holds the entries closed
by then: those entries, if and only if it has a mask or no row has more. -/
theorem HCACompressor.exposed_visible_iff {c : HCACompressor T.Token T.Proj T.Key}
    (zeros : T.Key) {rows : Fin B → CompressorRow T.Proj T.Slice T.Key} {b : Fin B}
    {width m t : Nat} {entry : Nat → T.Key}
    (hrow : (rows b).compressed = (List.range m).map entry) (ht : (t + 1) / c.compressRate ≤ m) :
    exposed zeros (rows b) (c.visible width (tMax rows) t) =
        (List.range ((t + 1) / c.compressRate)).map (fun w => (w, entry w)) ↔
      (width = 1 → tMax rows ≤ (t + 1) / c.compressRate) := by
  have hlen : m ≤ tMax rows := by
    have hle := le_tMax rows b
    rwa [hrow, List.length_map, List.length_range] at hle
  have hexact : exposed zeros (rows b) (List.range ((t + 1) / c.compressRate)) =
      (List.range ((t + 1) / c.compressRate)).map fun w => (w, entry w) :=
    exposed_eq hrow fun w hw => (List.mem_range.mp hw).trans_le ht
  unfold HCACompressor.visible
  by_cases hmask : width = 1 ∨ tMax rows = 0
  · rw [if_pos hmask]
    constructor
    · intro heq _
      have hcount := congrArg List.length heq
      rw [exposed, List.length_map, List.length_range, List.length_map, List.length_range] at hcount
      exact hcount.le
    · intro hle
      have hmax : tMax rows = (t + 1) / c.compressRate := by
        rcases hmask with hone | hzero
        · exact le_antisymm (hle hone) (ht.trans hlen)
        · exact hzero.trans (Nat.eq_zero_of_le_zero (hzero ▸ ht.trans hlen)).symm
      rw [hmax]
      exact hexact
  · rw [if_neg hmask, filter_range_lt (ht.trans hlen)]
    exact ⟨fun _ hone => absurd (Or.inl hone) hmask, fun _ => hexact⟩

/-- What the indexer lets a query attend, where its row holds the entries closed by then. -/
theorem CSACompressor.exposed_picks {c : CSACompressor T} (topk : TopK) (zeros : T.Key)
    (rows : Fin B → CompressorRow T.Proj T.Slice T.Key)
    (index : Fin B → CompressorRow T.IndexProj T.IndexSlice T.IndexKey) {b : Fin B}
    {slot : Slot T.Token} {m : Nat} {entry : Nat → T.Key}
    (hrow : (rows b).compressed = (List.range m).map entry)
    (hindex : (index b).compressed.length = m) (hmax : tMax index = tMax rows)
    (ht : (slot.position + 1) / c.compressRate ≤ m) :
    (exposed zeros (rows b) ((List.range (tMax rows)).filter
        (· ∈ c.indexer.picks c.compressRate topk (tMax index) (index b) slot))).Sublist
      ((List.range ((slot.position + 1) / c.compressRate)).map fun w => (w, entry w)) ∧
    (exposed zeros (rows b) ((List.range (tMax rows)).filter
        (· ∈ c.indexer.picks c.compressRate topk (tMax index) (index b) slot))).length =
      min c.indexer.indexTopk ((slot.position + 1) / c.compressRate) := by
  have hlen : m ≤ tMax index := hindex ▸ le_tMax index b
  obtain ⟨closed, hclosed⟩ : ∃ closed, closed = (slot.position + 1) / c.compressRate := ⟨_, rfl⟩
  rw [← hclosed] at ht ⊢
  -- the scores: open below the threshold, masked from there on
  obtain ⟨scores, hscores⟩ : ∃ scores,
      scores = c.indexer.indexScores c.compressRate (tMax index) (index b) slot := ⟨_, rfl⟩
  have hscoresLen : scores.length = tMax index := by
    rw [hscores, DeepseekV4Indexer.indexScores, List.length_map, List.length_range]
  have hopen : ∀ w < closed, ∃ a : T.Score, scores[w]? = some (a : WithBot T.Score) := by
    intro w hw
    have hentry : w < (index b).compressed.length := by omega
    refine ⟨c.indexer.score slot.token slot.position (index b).compressed[w], ?_⟩
    rw [hscores, DeepseekV4Indexer.indexScores, List.getElem?_map, List.getElem?_range (by omega),
      Option.map_some, if_neg (by omega), List.getElem?_eq_getElem hentry]
  have hmasked : ∀ w, closed ≤ w → w < scores.length → scores[w]? = some ⊥ := by
    intro w hw hlt
    rw [hscores, DeepseekV4Indexer.indexScores, List.getElem?_map, List.getElem?_range (by omega),
      Option.map_some, if_pos (by omega)]
  have htop := topk.isTopK scores (min c.indexer.indexTopk scores.length) (by omega)
  have hcount := htop.filter_length (by omega) hopen hmasked
  obtain ⟨picks, hpicks⟩ : ∃ picks,
      picks = c.indexer.picks c.compressRate topk (tMax index) (index b) slot := ⟨_, rfl⟩
  have hpicksEq : picks =
      (topk.pick scores (min c.indexer.indexTopk scores.length)).filter (· < closed) := by
    rw [hpicks, DeepseekV4Indexer.picks, hindex, ← hclosed, Nat.min_eq_left ht, hscoresLen,
      ← hscores]
  rw [← hpicks]
  have hbelow : ∀ w ∈ picks, w < closed := by
    intro w hw
    rw [hpicksEq] at hw
    simpa using (List.mem_filter.mp hw).2
  have hvisible : (List.range (tMax rows)).filter (· ∈ picks) =
      (List.range closed).filter (· ∈ picks) := by
    rw [← filter_range_lt (m := closed) (n := tMax rows) (by omega), List.filter_filter]
    refine List.filter_congr fun w _ => ?_
    by_cases hw : w ∈ picks
    · simp [hw, hbelow w hw]
    · simp [hw]
  have hperm : ((List.range closed).filter (· ∈ picks)).Perm picks := by
    refine (List.perm_ext_iff_of_nodup (List.nodup_range.filter _) ?_).mpr fun w => ?_
    · rw [hpicksEq]
      exact htop.nodup.filter _
    · simpa using hbelow w
  rw [hvisible, exposed_eq hrow fun w hw =>
    (List.mem_range.mp (List.mem_of_mem_filter hw)).trans_le ht]
  constructor
  · exact List.filter_sublist.map _
  · rw [List.length_map, hperm.length_eq, hpicksEq, hcount]

/-! ### Calls -/

section Calls

variable {attn : DeepseekV4Attention T} {sequences : Fin B → List T.Token} {s : LayerState T B}
  {call : Call B T.Token} {slot : Slot T.Token} {b : Fin B}

section Slot

variable (h : Fed attn sequences s) (hcall : WellFed sequences s call) (hslot : slot ∈ call.valid b)

include h hcall hslot

theorem Fed.attends_sliding : (attn.attends s call b slot).sliding =
    ((attn.keys (sequences b)).take (slot.position + 1)).drop
      (slot.position + 1 - attn.slidingWindow) := by
  obtain ⟨hle, hlt⟩ := hcall.position b hslot
  have hpos : slot.pos = slot.position := if_pos (List.mem_filter.mp hslot).2
  have hwindow := (h.retains b).slidingVisible_eq (attn.keys_positioned _) (hcall.fresh_real b)
    attn.slidingWindow_pos hle hlt
  rw [← hpos] at hwindow
  exact hwindow

theorem Fed.contextRight_heavily {c : HCACompressor T.Token T.Proj T.Key}
    (hlayer : attn.layerType = .heavilyCompressedAttention c) :
    attn.ContextRight (sequences b) slot.position (attn.attends s call b slot) ↔
      (call.width = 1 → ∀ b', (attn.forward s call).fed b' / c.compressRate ≤
        (slot.position + 1) / c.compressRate) := by
  have hafter := h.forward hcall
  have hmax : (tMax fun b => ((attn.forward s call).rows b).compressor) ≤
      (slot.position + 1) / c.compressRate ↔ ∀ b', (attn.forward s call).fed b' / c.compressRate ≤
        (slot.position + 1) / c.compressRate := by
    rw [tMax_le_iff]
    refine forall_congr' fun b' => ?_
    rw [hafter.heavily_compressed b' hlayer, List.length_map, List.length_range]
  rw [← hmax, ← HCACompressor.exposed_visible_iff attn.zeros
    (hafter.heavily_compressed b hlayer) (hcall.closed_le b hslot c.compressRate)]
  unfold DeepseekV4Attention.ContextRight
  rw [and_iff_right (h.attends_sliding hcall hslot)]
  simp only [DeepseekV4Attention.attends, DeepseekV4Attention.context, hlayer]

theorem Fed.contextRight_sparse {c : CSACompressor T}
    (hlayer : attn.layerType = .compressedSparseAttention c) :
    attn.ContextRight (sequences b) slot.position (attn.attends s call b slot) := by
  have hafter := h.forward hcall
  have hindex : ∀ b, ((attn.forward s call).rows b).indexer.compressed.length =
      (attn.forward s call).fed b / c.compressRate := by
    intro b
    rw [(hafter.compressed_sparse b hlayer).2, List.length_map, List.length_range]
  have hmax : (tMax fun b => ((attn.forward s call).rows b).indexer) =
      tMax fun b => ((attn.forward s call).rows b).compressor := by
    refine congrArg (List.foldl max 0) (List.map_congr_left fun b _ => ?_)
    rw [hindex b, (hafter.compressed_sparse b hlayer).1, List.length_map, List.length_range]
  have hpicks := CSACompressor.exposed_picks attn.topk attn.zeros
    (fun b => ((attn.forward s call).rows b).compressor)
    (fun b => ((attn.forward s call).rows b).indexer)
    (hafter.compressed_sparse b hlayer).1 (hindex b) hmax
    (hcall.closed_le b hslot c.compressRate)
  refine ⟨h.attends_sliding hcall hslot, ?_⟩
  simpa only [hlayer, DeepseekV4Attention.attends, DeepseekV4Attention.context] using hpicks

end Slot

/-- One call on rows that were fed their sequences. -/
theorem Fed.callRight_iff (h : Fed attn sequences s) (hcall : WellFed sequences s call) :
    attn.CallRight sequences s call ↔ attn.EvenDecode s call := by
  unfold DeepseekV4Attention.EvenDecode
  cases hlayer : attn.layerType with
  | slidingAttention =>
    refine iff_of_true (fun b slot hslot => ⟨h.attends_sliding hcall hslot, ?_⟩) trivial
    simp only [hlayer, DeepseekV4Attention.attends, DeepseekV4Attention.context]
  | heavilyCompressedAttention c =>
    constructor
    · exact fun hright hone b slot hslot =>
        (h.contextRight_heavily hcall hslot hlayer).mp (hright b slot hslot) hone
    · exact fun heven b slot hslot =>
        (h.contextRight_heavily hcall hslot hlayer).mpr fun hone => heven hone b slot hslot
  | compressedSparseAttention c =>
    exact iff_of_true (fun b slot hslot => h.contextRight_sparse hcall hslot hlayer) trivial

theorem range_map_prefix {α : Type} (f : Nat → α) {m n : Nat} (h : m ≤ n) :
    (List.range m).map f <+: (List.range n).map f := by
  obtain ⟨k, rfl⟩ := Nat.exists_eq_add_of_le h
  rw [List.range_add, List.map_append]
  exact List.prefix_append _ _

/-- The entries a row holds are the first of those that one call with the sequence leaves. -/
theorem Fed.entriesRight (h : Fed attn sequences s) : attn.EntriesRight sequences s := by
  intro b
  have htokens : ((wholeSlots (sequences b)).filter fun slot => slot.valid).map
      (fun slot => slot.token) = sequences b := by
    have hvalid : (wholeSlots (sequences b)).filter (fun slot => slot.valid) =
        wholeSlots (sequences b) :=
      List.filter_eq_self.mpr fun slot hslot => by
        obtain ⟨x, -, rfl⟩ := List.mem_map.mp hslot
        rfl
    rw [hvalid, wholeSlots, List.map_map]
    exact List.zipIdx_map_fst ..
  have hwhole : attn.RowCompresses (sequences b) (attn.advance {} (wholeSlots (sequences b))) := by
    have hnil : attn.RowCompresses [] {} := rowCompresses_nil
    have hadvance := hnil.advance (wholeSlots (sequences b))
    rwa [htokens, List.nil_append] at hadvance
  have hle (rate : Nat) := Nat.div_le_div_right (c := rate) (h.fed_le b)
  cases hlayer : attn.layerType with
  | slidingAttention =>
    have hrow := h.compresses b
    simp only [DeepseekV4Attention.RowCompresses, hlayer] at hrow
    rw [hrow]
    exact List.nil_prefix
  | heavilyCompressedAttention c =>
    simp only [DeepseekV4Attention.RowCompresses, hlayer] at hwhole
    rw [h.heavily_compressed b hlayer, hwhole.compressed_eq]
    exact range_map_prefix _ (hle _)
  | compressedSparseAttention c =>
    simp only [DeepseekV4Attention.RowCompresses, hlayer] at hwhole
    rw [(h.compressed_sparse b hlayer).1, hwhole.1.1.compressed_eq]
    exact range_map_prefix _ (hle _)

/-- **The context does not depend on how sequences are fed**, but for one-token calls of a
heavily-compressed layer: a run attends what it is to attend if and only if no such call
reaches a row that another row has outgrown by an entry. The entries are those of one call with
the whole sequence in any case. -/
theorem feed_right_iff {calls : List (Call B T.Token)}
    (hrun : Run (attn.FeedStep sequences) (LayerState.fresh T B) calls s) :
    (Run (Guarded (attn.FeedStep sequences) (attn.CallRight sequences)) (LayerState.fresh T B)
        calls s ↔
      Run (Guarded (attn.FeedStep sequences) attn.EvenDecode) (LayerState.fresh T B) calls s) ∧
      attn.EntriesRight sequences s := by
  refine ⟨Run.guarded_iff (I := Fed attn sequences) ?_ ?_ fed_fresh, (Fed.of_run hrun).entriesRight⟩
  · exact fun _ _ _ h => h.step
  · exact fun s call s' h hstep => h.callRight_iff hstep.1

/-! A heavily-compressed layer of rate 4, and two sequences of different lengths: the second is
fed one token, with padding, and then another. -/

abbrev natTensors : V4Carriers where
  Token := Nat
  Key := Nat
  Proj := Nat
  Slice := Nat
  IndexProj := Nat
  IndexSlice := Nat
  IndexKey := Nat
  Score := Nat
  scoreOrder := inferInstance

def summing : DeepseekV4Attention natTensors where
  layerType := .heavilyCompressedAttention
    { compressRate := 4
      compressRate_pos := Nat.succ_pos 3
      proj := id
      softmaxPool := fun chunk => chunk.foldl (· + ·) 0
      kvNorm := id
      rotary := fun entry position => 100 * position + entry }
  slidingWindow := 2
  slidingWindow_pos := Nat.two_pos
  kv token position := 100 * position + token
  topk := .bySorting
  zeros := 0

def twoSequences : Fin 2 → List Nat := ![[1, 2, 3, 4, 5], [6, 7]]

def paddedCall : Call 2 Nat where
  width := 4
  slots := ![[⟨1, 0, true⟩, ⟨2, 1, true⟩, ⟨3, 2, true⟩, ⟨4, 3, true⟩],
    [⟨6, 0, true⟩, ⟨0, 0, false⟩, ⟨0, 0, false⟩, ⟨0, 0, false⟩]]
  length_eq := by decide

def decodeCall : Call 2 Nat where
  width := 1
  slots := ![[⟨5, 4, true⟩], [⟨7, 1, true⟩]]
  length_eq := by decide

theorem paddedCall_fed :
    Run (summing.FeedStep twoSequences) (LayerState.fresh natTensors 2) [paddedCall]
      (summing.forward (LayerState.fresh natTensors 2) paddedCall) :=
  Run.single ⟨by unfold WellFed; decide, rfl⟩

/-- The query at position 1 of the second sequence, where no window has closed, attends an entry
of zeros. -/
theorem one_token_attends_padding :
    Run (summing.FeedStep twoSequences) (LayerState.fresh natTensors 2) [paddedCall]
        (summing.forward (LayerState.fresh natTensors 2) paddedCall) ∧
      WellFed twoSequences (summing.forward (LayerState.fresh natTensors 2) paddedCall) decodeCall ∧
      ¬ summing.CallRight twoSequences
        (summing.forward (LayerState.fresh natTensors 2) paddedCall) decodeCall := by
  refine ⟨paddedCall_fed, by unfold WellFed; decide, fun hright => ?_⟩
  have hmem : ⟨7, 1, true⟩ ∈ decodeCall.valid 1 := List.mem_singleton_self _
  have hctx : [(0, 0)] = [] := (hright 1 _ hmem).2
  cases hctx

theorem feed_right_padded :
    (Run (Guarded (summing.FeedStep twoSequences) (summing.CallRight twoSequences))
        (LayerState.fresh natTensors 2) [paddedCall]
        (summing.forward (LayerState.fresh natTensors 2) paddedCall) ↔
      Run (Guarded (summing.FeedStep twoSequences) summing.EvenDecode)
        (LayerState.fresh natTensors 2) [paddedCall]
        (summing.forward (LayerState.fresh natTensors 2) paddedCall)) ∧
      summing.EntriesRight twoSequences
        (summing.forward (LayerState.fresh natTensors 2) paddedCall) :=
  feed_right_iff paddedCall_fed

end Calls

end RapidLlm
