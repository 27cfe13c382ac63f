import Mathlib.Data.List.Infix
import Mathlib.Data.List.TakeDrop

/-!
# RapidLlm.Lib.HashChain

**Chained block digests**: a sequence is cut into blocks of `size` entries, and
the digest of block `k` folds in the digest of block `k - 1`, so that a digest
names a whole prefix of the sequence and not one block at some offset.

* `digestAt_append`, `chain_append`: a sequence that grows keeps the digests it has;
* `running_eq`: the running digest a program computes is the chain;
* `CollisionFree.take_eq`: without collisions, when two digests agree, so do the
  prefixes they name.

The entries `α`, the digests `δ` and the digest function are parameters.
-/

namespace RapidLlm.HashChain

universe u v

variable {α : Type u} {δ : Type v} (digest : δ → List α → δ) (seed : δ) (size : Nat)

/-- Block `k` of a sequence. -/
def block (xs : List α) (k : Nat) : List α := (xs.drop (k * size)).take size

/-- The digest after the first `k` blocks. -/
def digestAt (xs : List α) : Nat → δ
  | 0 => seed
  | k + 1 => digest (digestAt xs k) (block size xs k)

/-- The digests of all complete blocks, in order. -/
def chain (xs : List α) : List δ :=
  (List.range (xs.length / size)).map fun k => digestAt digest seed size xs (k + 1)

/-- The loop that computes `n` more digests from the one before block `b`. -/
def running (xs : List α) (parent : δ) (b : Nat) : Nat → List δ
  | 0 => []
  | n + 1 =>
    let parent := digest parent (block size xs b)
    parent :: running xs parent (b + 1) n

/-- No two digests of the sequences agree unless what they are taken of does, and none is the seed. -/
structure CollisionFree (xs ys : List α) : Prop where
  digests : ∀ j k, (j + 1) * size ≤ xs.length → (k + 1) * size ≤ ys.length →
    digestAt digest seed size xs (j + 1) = digestAt digest seed size ys (k + 1) →
    digestAt digest seed size xs j = digestAt digest seed size ys k ∧
      block size xs j = block size ys k
  left : ∀ j, (j + 1) * size ≤ xs.length → digestAt digest seed size xs (j + 1) ≠ seed
  right : ∀ k, (k + 1) * size ≤ ys.length → digestAt digest seed size ys (k + 1) ≠ seed

variable {digest seed size} {xs ys : List α} {k : Nat}

theorem block_append (h : (k + 1) * size ≤ xs.length) :
    block size (xs ++ ys) k = block size xs k := by
  rw [Nat.succ_mul] at h
  rw [block, block, List.drop_append_of_le_length (by omega),
    List.take_append_of_le_length (by rw [List.length_drop]; omega)]

/-- A digest only depends on the blocks it covers. -/
theorem digestAt_append (h : k * size ≤ xs.length) :
    digestAt digest seed size (xs ++ ys) k = digestAt digest seed size xs k := by
  induction k with
  | zero => rfl
  | succ k ih =>
    have hk : k * size ≤ xs.length := by rw [Nat.succ_mul] at h; omega
    rw [digestAt, digestAt, ih hk, block_append h]

theorem digestAt_take {n : Nat} (h : k * size ≤ n) (hn : n ≤ xs.length) :
    digestAt digest seed size (xs.take n) k = digestAt digest seed size xs k := by
  have hlen : k * size ≤ (xs.take n).length := by rw [List.length_take]; omega
  have happ : digestAt digest seed size (xs.take n ++ xs.drop n) k =
      digestAt digest seed size (xs.take n) k := digestAt_append hlen
  rw [← happ, List.take_append_drop]

@[simp] theorem chain_length : (chain digest seed size xs).length = xs.length / size := by
  simp [chain]

/-- A sequence that grows keeps the chain it has. -/
theorem chain_append (xs ys : List α) :
    chain digest seed size xs <+: chain digest seed size (xs ++ ys) := by
  have hle : xs.length / size ≤ (xs ++ ys).length / size :=
    Nat.div_le_div_right (by simp)
  have htake : chain digest seed size xs =
      (chain digest seed size (xs ++ ys)).take (xs.length / size) := by
    rw [chain, chain, ← List.map_take, List.take_range, Nat.min_eq_left hle]
    refine List.map_congr_left fun j hj => ?_
    rw [digestAt_append]
    rw [List.mem_range] at hj
    exact Nat.le_trans (Nat.mul_le_mul_right size hj) (Nat.div_mul_le_self _ _)
  rw [htake]
  exact List.take_prefix _ _

/-- Sequences that start alike have chains that start alike. -/
theorem chain_take_congr (hxs : k * size ≤ xs.length) (hys : k * size ≤ ys.length)
    (h : xs.take (k * size) = ys.take (k * size)) :
    (chain digest seed size xs).take k = (chain digest seed size ys).take k := by
  rcases Nat.eq_zero_or_pos size with rfl | hsize
  · simp [chain]
  have hlen : ∀ zs : List α, k * size ≤ zs.length → k ≤ zs.length / size := fun zs hzs =>
    (Nat.le_div_iff_mul_le hsize).mpr hzs
  rw [chain, chain, ← List.map_take, ← List.map_take, List.take_range, List.take_range,
    Nat.min_eq_left (hlen xs hxs), Nat.min_eq_left (hlen ys hys)]
  refine List.map_congr_left fun j hj => ?_
  have hj : (j + 1) * size ≤ k * size := Nat.mul_le_mul_right size (List.mem_range.mp hj)
  rw [← digestAt_take hj hxs, h, digestAt_take hj hys]

/-- The running digest is the chain, from wherever it resumes. -/
theorem running_eq (xs : List α) (b n : Nat) :
    running digest size xs (digestAt digest seed size xs b) b n =
      (List.range n).map fun k => digestAt digest seed size xs (b + k + 1) := by
  induction n generalizing b with
  | zero => rfl
  | succ n ih =>
    have hstep : digest (digestAt digest seed size xs b) (block size xs b) =
        digestAt digest seed size xs (b + 1) := rfl
    rw [running, hstep, ih (b + 1), List.range_succ_eq_map]
    simp only [List.map_cons, List.map_map, Nat.add_zero, List.cons.injEq, true_and]
    refine List.map_congr_left fun j _ => ?_
    simp only [Function.comp_apply]
    rw [show b + 1 + j + 1 = b + (j + 1) + 1 by omega]

/-- Extending a chain by the blocks completed since gives the chain. -/
theorem extend_eq {hashes : List δ} (h : hashes <+: chain digest seed size xs) :
    hashes ++ running digest size xs (hashes.getLast?.getD seed) hashes.length
      (xs.length / size - hashes.length) = chain digest seed size xs := by
  have hlen : hashes.length ≤ xs.length / size := by
    simpa using h.length_le
  have hpre : hashes = (List.range hashes.length).map fun k =>
      digestAt digest seed size xs (k + 1) := by
    rw [List.prefix_iff_eq_take.mp h]
    simp [chain, ← List.map_take, List.take_range, Nat.min_eq_left hlen]
  have hlast : hashes.getLast?.getD seed = digestAt digest seed size xs hashes.length := by
    generalize hashes.length = m at hpre
    subst hpre
    cases m with
    | zero => rfl
    | succ m => simp [List.range_succ]
  have hsum : hashes.length + (xs.length / size - hashes.length) = xs.length / size := by omega
  have hall : chain digest seed size xs =
      (List.range (hashes.length + (xs.length / size - hashes.length))).map fun k =>
        digestAt digest seed size xs (k + 1) := by
    rw [hsum, chain]
  rw [hlast, running_eq, hall, List.range_add, List.map_append, ← hpre, List.map_map]
  rfl

/-- A digest function that is injective and never yields the seed has no collisions. -/
theorem collisionFree_of_digest (hinj : ∀ p p' b b', digest p b = digest p' b' → p = p' ∧ b = b')
    (hseed : ∀ p b, digest p b ≠ seed) : CollisionFree digest seed size xs ys :=
  ⟨fun _ _ _ _ => hinj _ _ _ _, fun _ _ => hseed _ _, fun _ _ => hseed _ _⟩

/-- Without collisions, digests that agree name prefixes that do. -/
theorem CollisionFree.take_eq (h : CollisionFree digest seed size xs ys) {j : Nat}
    (hj : j * size ≤ xs.length) (hk : k * size ≤ ys.length)
    (heq : digestAt digest seed size xs j = digestAt digest seed size ys k) :
    j = k ∧ xs.take (j * size) = ys.take (k * size) := by
  induction j generalizing k with
  | zero =>
    cases k with
    | zero => simp
    | succ k => exact absurd heq.symm (h.right k hk)
  | succ j ih =>
    cases k with
    | zero => exact absurd heq (h.left j hj)
    | succ k =>
      obtain ⟨hparent, hblock⟩ := h.digests j k hj hk heq
      rw [Nat.succ_mul] at hj hk
      obtain ⟨rfl, hind⟩ := ih (by omega) (by omega) hparent
      have hcut : ∀ zs : List α,
          zs.take ((j + 1) * size) = zs.take (j * size) ++ block size zs j := by
        intro zs
        rw [block, Nat.succ_mul, List.take_add]
      exact ⟨rfl, by rw [hcut, hcut, hind, hblock]⟩

end RapidLlm.HashChain
