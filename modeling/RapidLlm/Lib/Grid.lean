import Mathlib.Data.Nat.Init
import Mathlib.Tactic.Common

/-!
# RapidLlm.Lib.Grid

**Two-dimensional arrays as tensor libraries handle them.** A grid has two extents and an entry
for every index; what the entry is outside the extents does not matter. Row-major reshapes,
transposition, repeated rows and columns, crops and the broadcast of two grids are functions of
the entries.
-/

namespace RapidLlm

universe u v w

/-- A two-dimensional array. -/
structure Grid (A : Type u) where
  rows : Nat
  cols : Nat
  entry : Nat → Nat → A

namespace Grid

variable {A : Type u} {B : Type v} {C : Type w}

/-- `t.numel()`. -/
def numel (m : Grid A) : Nat := m.rows * m.cols

def map (f : A → B) (m : Grid A) : Grid B where
  rows := m.rows
  cols := m.cols
  entry := fun i j => f (m.entry i j)

/-- `t.t()`. -/
def transpose (m : Grid A) : Grid A where
  rows := m.cols
  cols := m.rows
  entry := fun i j => m.entry j i

/-- The entries in row-major order. -/
def flat (m : Grid A) (i : Nat) : A := m.entry (i / m.cols) (i % m.cols)

/-- `t.reshape(rows, cols)`. -/
def reshape (m : Grid A) (rows cols : Nat) : Grid A where
  rows := rows
  cols := cols
  entry := fun i j => m.flat (i * cols + j)

/-- `t.repeat_interleave(count, 0)`. -/
def repeatRows (m : Grid A) (count : Nat) : Grid A where
  rows := m.rows * count
  cols := m.cols
  entry := fun i j => m.entry (i / count) j

/-- `t.repeat_interleave(count, 1)`. -/
def repeatCols (m : Grid A) (count : Nat) : Grid A where
  rows := m.rows
  cols := m.cols * count
  entry := fun i j => m.entry i (j / count)

/-- `t[:rows, :cols]`. -/
def crop (m : Grid A) (rows cols : Nat) : Grid A where
  rows := min rows m.rows
  cols := min cols m.cols
  entry := m.entry

/-- `t.narrow(0, start, count)`, for a range inside the grid. -/
def narrowRows (m : Grid A) (start count : Nat) : Grid A where
  rows := count
  cols := m.cols
  entry := fun i j => m.entry (start + i) j

/-- `t.narrow(1, start, count)`, for a range inside the grid. -/
def narrowCols (m : Grid A) (start count : Nat) : Grid A where
  rows := m.rows
  cols := count
  entry := fun i j => m.entry i (start + j)

/-- The extent two extents broadcast to. -/
def broadcastDim (a b : Nat) : Option Nat :=
  if a = b then some a else if a = 1 then some b else if b = 1 then some a else none

/-- An elementwise operation on two grids, broadcast to one shape where they have one. -/
def zipWith (f : A → B → C) (m : Grid A) (m' : Grid B) : Option (Grid C) :=
  match broadcastDim m.rows m'.rows, broadcastDim m.cols m'.cols with
  | some rows, some cols =>
    some
      { rows := rows
        cols := cols
        entry := fun i j =>
          f (m.entry (if m.rows = 1 then 0 else i) (if m.cols = 1 then 0 else j))
            (m'.entry (if m'.rows = 1 then 0 else i) (if m'.cols = 1 then 0 else j)) }
  | _, _ => none

@[simp] theorem broadcastDim_self (a : Nat) : broadcastDim a a = some a := if_pos rfl

@[simp] theorem broadcastDim_one (a : Nat) : broadcastDim a 1 = some a := by
  by_cases h : a = 1 <;> simp [broadcastDim, h]

/-- The coordinate a broadcast reads at an index inside the extent. -/
theorem coord_eq {n i : Nat} (hi : i < n) : (if n = 1 then 0 else i) = i := by
  split
  · omega
  · rfl

/-- Grids of one shape combine entry by entry. -/
theorem zipWith_same (f : A → B → C) (m : Grid A) (m' : Grid B) (hrows : m'.rows = m.rows)
    (hcols : m'.cols = m.cols) : ∃ out : Grid C, zipWith f m m' = some out ∧
      out.rows = m.rows ∧ out.cols = m.cols ∧
        ∀ i < m.rows, ∀ j < m.cols, out.entry i j = f (m.entry i j) (m'.entry i j) := by
  rw [zipWith, hrows, hcols, broadcastDim_self, broadcastDim_self]
  refine ⟨_, rfl, rfl, rfl, ?_⟩
  intro i hi j hj
  simp only [coord_eq hi, coord_eq hj]

/-- A column is applied along the rows. -/
theorem zipWith_column (f : A → B → C) (m : Grid A) (m' : Grid B) (hrows : m'.rows = m.rows)
    (hcols : m'.cols = 1) : ∃ out : Grid C, zipWith f m m' = some out ∧
      out.rows = m.rows ∧ out.cols = m.cols ∧
        ∀ i < m.rows, ∀ j < m.cols, out.entry i j = f (m.entry i j) (m'.entry i 0) := by
  rw [zipWith, hrows, hcols, broadcastDim_self, broadcastDim_one]
  refine ⟨_, rfl, rfl, rfl, ?_⟩
  intro i hi j hj
  simp only [coord_eq hi, coord_eq hj, if_true]

end Grid

end RapidLlm
