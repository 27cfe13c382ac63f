import Mathlib.Order.WithBot
import RapidLlm.Lib.Windows

/-!
# RapidLlm.DeepseekV4.Compressor

**The compressors of DeepSeek-V4** (`modules/deepseek_v4/compressor.py`): every closed window
of `rate` tokens becomes one entry, normed and roped at the window's position. A row keeps the
tokens of its open window back, so its entries do not depend on how it is fed
(`HCACompressor.advance_compresses`, `OverlapPool.advance_compresses`).

Projections, pooling, norm and rope are parameters. The gate of a window that has no
predecessor is `-inf` on the predecessor's half, so pooling takes that half as an option.
-/

namespace RapidLlm

open Windows

/-- One sequence's compressor-side rolling state. -/
structure CompressorRow (Proj Slice Entry : Type) where
  /-- `buf_kv` and `buf_gate`: the projected tokens of the open window. -/
  buf : List Proj := []
  compressed : List Entry := []
  entryCount : Nat := 0
  /-- `overlap_kv` and `overlap_gate`: the first half of the last closed window. -/
  overlap : Option Slice := none

variable {Token Proj Slice Entry : Type}

/-- Prepend the rolling buffer, peel off the window-aligned prefix. -/
def combineBuffer (rate : Nat) (row : CompressorRow Proj Slice Entry) (fresh : List Proj) :
    List Proj × Nat × CompressorRow Proj Slice Entry :=
  let all := row.buf ++ fresh
  let usable := all.length / rate * rate
  (all.take usable, row.entryCount * rate, { row with buf := all.drop usable })

/-- Heavily-Compressed Attention: one entry for each window on its own. -/
structure HCACompressor (Token Proj Entry : Type) where
  compressRate : Nat
  compressRate_pos : 0 < compressRate
  proj : Token → Proj
  softmaxPool : List Proj → Entry
  kvNorm : Entry → Entry
  rotary : Entry → Nat → Entry

/-- What becomes of a window when it is pooled together with the first half of the one before. -/
structure OverlapPool (Token Proj Slice Entry : Type) where
  proj : Token → Proj
  /-- The Ca slice of a window, which the next window pools. -/
  slice : List Proj → Slice
  pool : Option Slice → List Proj → Entry
  kvNorm : Entry → Entry
  rotary : Entry → Nat → Entry

namespace HCACompressor

variable (c : HCACompressor Token Proj Entry)

/-- Advance a row by the step's valid tokens. -/
def advance (row : CompressorRow Proj Slice Entry) (tokens : List Token) :
    CompressorRow Proj Slice Entry :=
  let (chunk, firstPos, row) := combineBuffer c.compressRate row (tokens.map c.proj)
  if chunk.length = 0 then row
  else
    let nWindows := chunk.length / c.compressRate
    let compressed := (List.range nWindows).map fun i =>
      c.rotary (c.kvNorm (c.softmaxPool (window c.compressRate chunk i)))
        (i * c.compressRate + firstPos)
    { row with
      entryCount := row.entryCount + nWindows
      compressed := row.compressed ++ compressed }

/-- Entry `w` of a sequence: its window, at the window's position. -/
def entry (tokens : List Token) (w : Nat) : Entry :=
  c.rotary (c.kvNorm (c.softmaxPool (window c.compressRate (tokens.map c.proj) w)))
    (w * c.compressRate)

end HCACompressor

namespace OverlapPool

variable (c : OverlapPool Token Proj Slice Entry) (rate : Nat)

/-- `_compress_row`: advance a row by the closed windows. -/
def advance (row : CompressorRow Proj Slice Entry) (tokens : List Token) :
    CompressorRow Proj Slice Entry :=
  let (chunk, firstPos, row) := combineBuffer rate row (tokens.map c.proj)
  if chunk.length = 0 then row
  else
    let nWindows := chunk.length / rate
    let prior := fun i => if i = 0 then row.overlap else some (c.slice (window rate chunk (i - 1)))
    let compressed := (List.range nWindows).map fun i =>
      c.rotary (c.kvNorm (c.pool (prior i) (window rate chunk i))) (i * rate + firstPos)
    { row with
      overlap := some (c.slice (window rate chunk (nWindows - 1)))
      entryCount := row.entryCount + nWindows
      compressed := row.compressed ++ compressed }

/-- The half of window `w - 1` that window `w` pools. -/
def before (tokens : List Token) (w : Nat) : Option Slice :=
  if w = 0 then none else some (c.slice (window rate (tokens.map c.proj) (w - 1)))

/-- Entry `w` of a sequence: its window and the one before, at the window's position. -/
def entry (tokens : List Token) (w : Nat) : Entry :=
  c.rotary (c.kvNorm (c.pool (c.before rate tokens w) (window rate (tokens.map c.proj) w)))
    (w * rate)

end OverlapPool

/-! ### Entries do not depend on how a row is fed -/

/-- A row that was fed `tokens`, in whatever pieces. -/
structure Compresses (rate : Nat) (proj : Token → Proj) (entry : List Token → Nat → Entry)
    (tokens : List Token) (row : CompressorRow Proj Slice Entry) : Prop where
  buf_eq : row.buf = leftover rate (tokens.map proj)
  entryCount_eq : row.entryCount = tokens.length / rate
  compressed_eq : row.compressed = (List.range (tokens.length / rate)).map (entry tokens)

section Advance

variable {rate : Nat} {proj : Token → Proj} {entry : List Token → Nat → Entry}
  {tokens : List Token} {row : CompressorRow Proj Slice Entry}

theorem compresses_nil : Compresses rate proj entry ([] : List Token)
    ({} : CompressorRow Proj Slice Entry) where
  buf_eq := (List.drop_nil).symm
  entryCount_eq := by rw [List.length_nil, Nat.zero_div]
  compressed_eq := by rw [List.length_nil, Nat.zero_div, List.range_zero, List.map_nil]

/-- The entries of a row are entries of the whole sequence. -/
theorem Compresses.compressed_take {sequence : List Token} {n : Nat}
    (h : Compresses rate proj entry (sequence.take n) row) (hn : n ≤ sequence.length)
    (hlocal : ∀ w < n / rate, entry sequence w = entry (sequence.take n) w) :
    row.compressed = (List.range (n / rate)).map (entry sequence) := by
  rw [h.compressed_eq, List.length_take_of_le hn]
  exact List.map_congr_left fun w hw => (hlocal w (List.mem_range.mp hw)).symm

variable (hrate : 0 < rate) (h : Compresses rate proj entry tokens row) (fresh : List Token)

include hrate h

/-- The windows that leave the buffer, and the count of entries they add. -/
theorem Compresses.chunk_length :
    ((row.buf ++ fresh.map proj).take ((row.buf ++ fresh.map proj).length / rate * rate)).length /
        rate = (row.buf ++ fresh.map proj).length / rate ∧
      tokens.length / rate + (row.buf ++ fresh.map proj).length / rate =
        (tokens ++ fresh).length / rate := by
  constructor
  · rw [List.length_take, Nat.min_eq_left (Nat.div_mul_le_self _ _), Nat.mul_div_cancel _ hrate]
  · have hclosed := closed_append (tokens.map proj) (fresh.map proj) hrate
    rw [List.length_map] at hclosed
    rw [h.buf_eq, hclosed, ← List.map_append, List.length_map]

omit hrate in
/-- Window `i` of what leaves the buffer is a window of the whole sequence. -/
theorem Compresses.chunk_window {i : Nat}
    (hi : i < (row.buf ++ fresh.map proj).length / rate) :
    window rate ((row.buf ++ fresh.map proj).take
        ((row.buf ++ fresh.map proj).length / rate * rate)) i =
      window rate ((tokens ++ fresh).map proj) (tokens.length / rate + i) := by
  have hwindow := window_leftover rate (tokens.map proj) (fresh.map proj) hi
  rw [List.length_map] at hwindow
  rw [h.buf_eq] at hi ⊢
  rw [List.map_append, ← hwindow, h.buf_eq]

/-- A step that appends the entries of the new windows goes on feeding the row. -/
theorem Compresses.step (hlocal : ∀ w < tokens.length / rate,
      entry (tokens ++ fresh) w = entry tokens w)
    {row' : CompressorRow Proj Slice Entry}
    (hbuf : row'.buf = (row.buf ++ fresh.map proj).drop
      ((row.buf ++ fresh.map proj).length / rate * rate))
    (hcount : row'.entryCount = row.entryCount + (row.buf ++ fresh.map proj).length / rate)
    (hnew : row'.compressed = row.compressed ++
      (List.range ((row.buf ++ fresh.map proj).length / rate)).map fun i =>
        entry (tokens ++ fresh) (tokens.length / rate + i)) :
    Compresses rate proj entry (tokens ++ fresh) row' := by
  obtain ⟨-, htotal⟩ := h.chunk_length hrate fresh
  refine ⟨?_, ?_, ?_⟩
  · rw [hbuf, h.buf_eq, List.map_append]
    exact leftover_leftover hrate
  · rw [hcount, h.entryCount_eq, htotal]
  · have hkeep : (List.range (tokens.length / rate)).map (entry (tokens ++ fresh)) =
        (List.range (tokens.length / rate)).map (entry tokens) :=
      List.map_congr_left fun w hw => hlocal w (List.mem_range.mp hw)
    rw [hnew, h.compressed_eq, ← htotal, List.range_add, List.map_append, List.map_map, hkeep]
    rfl

end Advance

namespace HCACompressor

variable {c : HCACompressor Token Proj Entry} {tokens : List Token}
  {row : CompressorRow Proj Slice Entry}

/-- The entry of a closed window does not change when the sequence goes on. -/
theorem entry_append {w : Nat} (hw : w < tokens.length / c.compressRate) (fresh : List Token) :
    c.entry (tokens ++ fresh) w = c.entry tokens w := by
  rw [entry, entry, List.map_append, window_append (by rwa [List.length_map])]

/-- Feeding a row more tokens leaves what feeding it all of them at once leaves. -/
theorem advance_compresses (h : Compresses c.compressRate c.proj c.entry tokens row)
    (fresh : List Token) :
    Compresses c.compressRate c.proj c.entry (tokens ++ fresh) (c.advance row fresh) := by
  have hrate := c.compressRate_pos
  have hlocal : ∀ w < tokens.length / c.compressRate,
      c.entry (tokens ++ fresh) w = c.entry tokens w :=
    fun w hw => entry_append hw fresh
  obtain ⟨hwindows, -⟩ := h.chunk_length hrate fresh
  by_cases hnone : (row.buf ++ fresh.map c.proj).length / c.compressRate = 0
  · -- no window closes
    have hadvance : c.advance row fresh = { row with buf := row.buf ++ fresh.map c.proj } := by
      simp only [advance, combineBuffer, hnone, Nat.zero_mul, List.take_zero, List.length_nil,
        if_true, List.drop_zero]
    refine h.step hrate fresh hlocal ?_ ?_ ?_ <;> rw [hadvance]
    · rw [hnone, Nat.zero_mul, List.drop_zero]
    · rw [hnone, Nat.add_zero]
    · rw [hnone, List.range_zero, List.map_nil, List.append_nil]
  · have hchunk : ((row.buf ++ fresh.map c.proj).take
        ((row.buf ++ fresh.map c.proj).length / c.compressRate * c.compressRate)).length ≠ 0 :=
      fun h0 => hnone (by rw [← hwindows, h0, Nat.zero_div])
    refine h.step hrate fresh hlocal ?_ ?_ ?_
    · exact (congrArg CompressorRow.buf (if_neg hchunk)).trans rfl
    · simp only [advance, combineBuffer, if_neg hchunk, hwindows]
    · simp only [advance, combineBuffer, if_neg hchunk, hwindows]
      refine congrArg _ (List.map_congr_left fun i hi => ?_)
      rw [h.chunk_window fresh (List.mem_range.mp hi), h.entryCount_eq, entry, Nat.add_mul,
        Nat.add_comm (i * _)]

end HCACompressor

namespace OverlapPool

variable {c : OverlapPool Token Proj Slice Entry} {rate : Nat} {tokens : List Token}
  {row : CompressorRow Proj Slice Entry}

theorem window_map_append {w : Nat} (hw : w < tokens.length / rate) (fresh : List Token) :
    window rate ((tokens ++ fresh).map c.proj) w = window rate (tokens.map c.proj) w := by
  rw [List.map_append, window_append (by rwa [List.length_map])]

theorem before_append {w : Nat} (hw : w ≤ tokens.length / rate) (fresh : List Token) :
    c.before rate (tokens ++ fresh) w = c.before rate tokens w := by
  unfold before
  split
  · rfl
  · rw [window_map_append (by omega)]

/-- The entry of a closed window does not change when the sequence goes on. -/
theorem entry_append {w : Nat} (hw : w < tokens.length / rate) (fresh : List Token) :
    c.entry rate (tokens ++ fresh) w = c.entry rate tokens w := by
  rw [entry, entry, window_map_append hw, before_append hw.le]

/-- Feeding a row more tokens leaves what feeding it all of them at once leaves, the half
carried over included. -/
theorem advance_compresses (hrate : 0 < rate)
    (h : Compresses rate c.proj (c.entry rate) tokens row)
    (hoverlap : row.overlap = c.before rate tokens (tokens.length / rate)) (fresh : List Token) :
    Compresses rate c.proj (c.entry rate) (tokens ++ fresh) (c.advance rate row fresh) ∧
      (c.advance rate row fresh).overlap =
        c.before rate (tokens ++ fresh) ((tokens ++ fresh).length / rate) := by
  have hbefore : ∀ w ≤ tokens.length / rate,
      c.before rate (tokens ++ fresh) w = c.before rate tokens w :=
    fun w hw => before_append hw fresh
  have hlocal : ∀ w < tokens.length / rate,
      c.entry rate (tokens ++ fresh) w = c.entry rate tokens w :=
    fun w hw => entry_append hw fresh
  obtain ⟨hwindows, htotal⟩ := h.chunk_length hrate fresh
  by_cases hnone : (row.buf ++ fresh.map c.proj).length / rate = 0
  · -- no window closes
    have hadvance : c.advance rate row fresh = { row with buf := row.buf ++ fresh.map c.proj } := by
      simp only [advance, combineBuffer, hnone, Nat.zero_mul, List.take_zero, List.length_nil,
        if_true, List.drop_zero]
    rw [hnone, Nat.add_zero] at htotal
    constructor
    · refine h.step hrate fresh hlocal ?_ ?_ ?_ <;> rw [hadvance]
      · rw [hnone, Nat.zero_mul, List.drop_zero]
      · rw [hnone, Nat.add_zero]
      · rw [hnone, List.range_zero, List.map_nil, List.append_nil]
    · rw [hadvance, ← htotal, hbefore _ le_rfl]
      exact hoverlap
  · have hchunk : ((row.buf ++ fresh.map c.proj).take
        ((row.buf ++ fresh.map c.proj).length / rate * rate)).length ≠ 0 :=
      fun h0 => hnone (by rw [← hwindows, h0, Nat.zero_div])
    constructor
    · refine h.step hrate fresh hlocal ?_ ?_ ?_
      · exact (congrArg CompressorRow.buf (if_neg hchunk)).trans rfl
      · simp only [advance, combineBuffer, if_neg hchunk, hwindows]
      · simp only [advance, combineBuffer, if_neg hchunk, hwindows]
        refine congrArg _ (List.map_congr_left fun i hi => ?_)
        have hi := List.mem_range.mp hi
        have hprior : (if i = 0 then row.overlap else some (c.slice (window rate
            ((row.buf ++ fresh.map c.proj).take
              ((row.buf ++ fresh.map c.proj).length / rate * rate)) (i - 1)))) =
            c.before rate (tokens ++ fresh) (tokens.length / rate + i) := by
          by_cases hi0 : i = 0
          · rw [if_pos hi0, hoverlap, hi0, Nat.add_zero, hbefore _ le_rfl]
          · have hi0 : 0 < i := Nat.pos_of_ne_zero hi0
            have hlast := Nat.lt_of_le_of_lt (Nat.sub_le i 1) hi
            rw [if_neg hi0.ne', h.chunk_window fresh hlast, before,
              if_neg (Nat.ne_of_gt (Nat.add_pos_right _ hi0)), Nat.add_sub_assoc hi0]
        rw [hprior, h.chunk_window fresh hi, h.entryCount_eq, entry, Nat.add_mul,
          Nat.add_comm (i * _)]
    · simp only [advance, combineBuffer, if_neg hchunk, hwindows]
      have hpos := Nat.pos_of_ne_zero hnone
      rw [h.chunk_window fresh (Nat.sub_lt hpos Nat.one_pos), ← htotal, before,
        if_neg (Nat.ne_of_gt (Nat.add_pos_right _ hpos)), Nat.add_sub_assoc hpos]

end OverlapPool

end RapidLlm
