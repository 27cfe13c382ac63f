import Mathlib.Algebra.BigOperators.Group.Finset.Basic
import Mathlib.Algebra.Order.BigOperators.Group.Finset
import Mathlib.Algebra.Order.Group.Nat
import Mathlib.Tactic.Ring
import RapidLlm.Lib.Grouping

/-!
# RapidLlm.Lib.Tiling

A range walked in tiles of one width, over data grouped at another.

A tile of width `b` reads one group of width `g`. `one_group_iff` says when that serves every
index of every tile below `n`: the tile width divides the group width, or one group covers the
range.
-/

namespace RapidLlm.Tiling

/-- How many tiles of width `b` cover `n` indices. -/
def numTiles (n b : Nat) : Nat := (n + b - 1) / b

/-- Every index below `n` lies in the group its tile starts in. -/
def OneGroup (b n : Nat) (g : Int) : Prop :=
  ∀ tile k : Nat, tile * b ≤ k → k < (tile + 1) * b → k < n →
    ((tile * b : Nat) : Int) / g = (k : Int) / g

variable {b n : Nat} {g : Int}

/-- One group covers the range. -/
theorem OneGroup.of_le (h : (n : Int) ≤ g) : OneGroup b n g := by
  intro tile k hlo _ hk
  rw [Int.ediv_eq_zero_of_lt (by omega) (by omega), Int.ediv_eq_zero_of_lt (by omega) (by omega)]

/-- Tiles that divide the groups. -/
theorem OneGroup.of_dvd (h : (b : Int) ∣ g) : OneGroup b n g := by
  intro tile k hlo hhi _
  obtain ⟨c, rfl⟩ := h
  have hb : (0 : Int) < b := by
    rcases Nat.eq_zero_or_pos b with h0 | h0
    · subst h0
      omega
    · exact_mod_cast h0
  have hk : (k : Int) / b = tile := by
    have hdiv : k / b = tile := by
      rw [Nat.div_eq_iff (by exact_mod_cast hb)]
      rw [add_mul, one_mul] at hhi
      omega
    exact_mod_cast hdiv
  rw [← Int.ediv_ediv_of_nonneg hb.le, ← Int.ediv_ediv_of_nonneg hb.le, hk]
  congr 1
  push_cast
  exact Int.mul_ediv_cancel _ hb.ne'

/-- A group that ends inside a tile and inside the range splits that tile. -/
theorem OneGroup.dvd (h : OneGroup b n g) (hb : 0 < b) (hg : 0 < g) (hn : g < n) :
    (b : Int) ∣ g := by
  lift g to Nat using hg.le
  have hlo : g / b * b ≤ g := Nat.div_mul_le_self g b
  have hhi : g < (g / b + 1) * b := by
    have := Nat.lt_div_mul_add hb (a := g)
    rwa [add_mul, one_mul]
  have heq := h (g / b) g hlo hhi (by exact_mod_cast hn)
  rw [Int.ediv_self hg.ne'] at heq
  have hge : g ≤ g / b * b := by
    by_contra hlt
    rw [Int.ediv_eq_zero_of_lt (by omega) (by omega)] at heq
    omega
  exact_mod_cast Dvd.intro_left _ (le_antisymm hlo hge)

/-- When every tile below `n` lies in one group. -/
theorem one_group_iff (hb : 0 < b) (hg : 0 < g) :
    OneGroup b n g ↔ (b : Int) ∣ g ∨ (n : Int) ≤ g := by
  constructor
  · intro h
    rcases lt_or_ge g n with hn | hn
    · exact .inl (h.dvd hb hg hn)
    · exact .inr hn
  · rintro (h | h)
    · exact .of_dvd h
    · exact .of_le h

/-! ### All lanes of all tiles -/

theorem le_numTiles_mul (n : Nat) (hb : 0 < b) : n ≤ numTiles n b * b := by
  have h := Nat.lt_div_mul_add hb (a := n + b - 1)
  rw [← numTiles] at h
  omega

theorem lt_numTiles (hb : 0 < b) {i : Nat} (hi : i < n) : i / b < numTiles n b :=
  Nat.div_lt_of_lt_mul (Nat.mul_comm b _ ▸ hi.trans_le (le_numTiles_mul n hb))

theorem numTiles_one (n : Nat) : numTiles n 1 = n := Nat.div_one n

theorem numTiles_of_dvd (hb : 0 < b) (h : b ∣ n) : numTiles n b = n / b := by
  obtain ⟨q, rfl⟩ := h
  unfold numTiles
  rw [Nat.add_sub_assoc hb, Nat.mul_add_div hb, Nat.div_eq_of_lt (Nat.sub_lt hb Nat.one_pos),
    Nat.mul_div_cancel_left q hb]
  rfl

/-- As many tiles as whole ones: there is no rest. -/
theorem dvd_of_numTiles_le (hb : 0 < b) (h : numTiles n b ≤ n / b) : b ∣ n := by
  have hle := le_numTiles_mul n hb
  have hmul := Nat.mul_le_mul_right b h
  exact Dvd.intro_left _ (le_antisymm (Nat.div_mul_le_self n b) (hle.trans hmul))

/-- Where a new tile starts. -/
theorem dvd_of_div_lt (hn : 0 < n) (h : (n - 1) / b < n / b) : b ∣ n := by
  obtain ⟨m, rfl⟩ := Nat.exists_eq_succ_of_ne_zero hn.ne'
  rw [Nat.succ_div, Nat.succ_sub_one] at h
  by_contra hdvd
  rw [if_neg hdvd] at h
  exact lt_irrefl _ h

/-- Equal runs that are whole tiles, or one run: the tiles of all of them divide evenly, and a run's
tiles are at its place among them. -/
theorem numTiles_runs (hb : 0 < b) {s r : Nat} (hr : r < s) (h : s = 1 ∨ b ∣ n) (i : Nat) :
    numTiles (s * n) b / s = numTiles n b ∧
      (r * n + i) / b = r * (numTiles (s * n) b / s) + i / b := by
  rcases h with rfl | hdvd
  · obtain rfl : r = 0 := by omega
    rw [Nat.one_mul, Nat.div_one, Nat.zero_mul, Nat.zero_mul, Nat.zero_add, Nat.zero_add]
    exact ⟨rfl, rfl⟩
  · have hs : 0 < s := Nat.zero_lt_of_lt hr
    obtain ⟨q, rfl⟩ := hdvd
    have hall : numTiles (s * (b * q)) b = s * q := by
      rw [numTiles_of_dvd hb ((Dvd.intro _ rfl).mul_left s), Nat.mul_left_comm,
        Nat.mul_div_cancel_left _ hb]
    rw [hall, numTiles_of_dvd hb (Dvd.intro _ rfl), Nat.mul_div_cancel_left _ hs,
      Nat.mul_div_cancel_left _ hb, Nat.mul_left_comm, Nat.mul_add_div hb]
    exact ⟨rfl, rfl⟩

/-- The lanes of the tiles, in order, are the indices. -/
theorem flatMap_tiles (t b : Nat) :
    ((List.range t).flatMap fun tile => (List.range b).map fun lane => tile * b + lane) =
      List.range (t * b) := by
  rw [flatMap_range]
  simp only [Nat.div_add_mod', List.map_id']

/-- A loop over tiles whose masked lanes contribute nothing adds up what is below the bound. -/
theorem sum_tiles {M : Type*} [AddCommMonoid M] (n : Nat) (hb : 0 < b) (f : Nat → M) :
    (((List.range (numTiles n b)).flatMap fun tile => (List.range b).map fun lane =>
      tile * b + lane).map fun k => if k < n then f k else 0).sum = ∑ k ∈ Finset.range n, f k := by
  obtain ⟨rest, hrest⟩ := Nat.exists_eq_add_of_le (le_numTiles_mul n hb)
  rw [flatMap_tiles, hrest]
  change ∑ k ∈ Finset.range (n + rest), (if k < n then f k else 0) = _
  have hbelow : ∀ k ∈ Finset.range n, (if k < n then f k else 0) = f k := fun k hk =>
    if_pos (Finset.mem_range.mp hk)
  have habove : ∀ k ∈ Finset.range rest, (if n + k < n then f (n + k) else 0) = 0 := fun k _ =>
    if_neg (by omega)
  rw [Finset.sum_range_add, Finset.sum_congr rfl hbelow, Finset.sum_eq_zero habove, add_zero]

/-- A sum over equal runs, run by run. -/
theorem sum_equal_runs {M : Type*} [AddCommMonoid M] (s w : Nat) (f : Nat → M) :
    ∑ r ∈ Finset.range s, ∑ j ∈ Finset.range w, f (r * w + j) = ∑ k ∈ Finset.range (s * w), f k := by
  induction s with
  | zero => simp
  | succ s ih => rw [Finset.sum_range_succ, ih, Nat.succ_mul, Finset.sum_range_add]

/-- The unmasked lanes of tiles that reach the bound are what is below it. -/
theorem sum_masked {M : Type*} [AddCommMonoid M] {n s : Nat} (h : n ≤ s * b) (f : Nat → M) :
    ∑ tile ∈ Finset.range s,
      ∑ lane ∈ Finset.range b with tile * b + lane < n, f (tile * b + lane) =
        ∑ k ∈ Finset.range n, f k := by
  simp only [Finset.sum_filter]
  rw [sum_equal_runs s b fun k => if k < n then f k else 0]
  obtain ⟨rest, hrest⟩ := Nat.exists_eq_add_of_le h
  have hbelow : ∀ k ∈ Finset.range n, (if k < n then f k else 0) = f k := fun k hk =>
    if_pos (Finset.mem_range.mp hk)
  have habove : ∀ k ∈ Finset.range rest, (if n + k < n then f (n + k) else 0) = 0 := fun k _ =>
    if_neg (by omega)
  rw [hrest, Finset.sum_range_add, Finset.sum_congr rfl hbelow, Finset.sum_eq_zero habove, add_zero]

theorem sum_masked_tiles {M : Type*} [AddCommMonoid M] (n : Nat) (hb : 0 < b) (f : Nat → M) :
    ∑ tile ∈ Finset.range (numTiles n b),
      ∑ lane ∈ Finset.range b with tile * b + lane < n, f (tile * b + lane) =
        ∑ k ∈ Finset.range n, f k :=
  sum_masked (le_numTiles_mul n hb) f

/-- A tile of an interval has a lane in it. -/
theorem tile_start_lt (hb : 0 < b) {t : Nat} (h : t < numTiles n b) : t * b < n := by
  have hle : (t + 1) * b ≤ n + b - 1 := (Nat.le_div_iff_mul_le hb).mp h
  rw [Nat.succ_mul] at hle
  omega

/-! ### Runs of given lengths, one after another -/

section Runs

variable {f : Nat → Nat} {m e e' a : Nat}

/-- Where run `e` starts. -/
def runStart (f : Nat → Nat) (e : Nat) : Nat := ∑ i ∈ Finset.range e, f i

theorem runStart_succ : runStart f (e + 1) = runStart f e + f e := Finset.sum_range_succ f e

theorem runStart_mono (h : e ≤ e') : runStart f e ≤ runStart f e' :=
  Finset.sum_le_sum_of_subset (Finset.range_mono h)

/-- Every place before the end is in a run. -/
theorem exists_run (h : a < runStart f m) :
    ∃ e < m, runStart f e ≤ a ∧ a < runStart f e + f e := by
  induction m with
  | zero => exact absurd h (Nat.not_lt_zero a)
  | succ m ih =>
    by_cases ha : a < runStart f m
    · obtain ⟨e, he, hrun⟩ := ih ha
      exact ⟨e, Nat.lt_succ_of_lt he, hrun⟩
    · rw [runStart_succ] at h
      exact ⟨m, Nat.lt_succ_self m, Nat.not_lt.mp ha, h⟩

/-- And in one only; places further on are in later runs. -/
theorem run_le {a' : Nat} (hrun : runStart f e ≤ a) (ha : a ≤ a')
    (hrun' : a' < runStart f e' + f e') : e ≤ e' := by
  by_contra hlt
  have hmono := runStart_mono (f := f) (Nat.succ_le_of_lt (Nat.not_le.mp hlt))
  rw [Nat.succ_eq_add_one, runStart_succ] at hmono
  omega

end Runs

end RapidLlm.Tiling
