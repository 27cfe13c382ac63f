import Mathlib.Data.Finmap
import Mathlib.Algebra.BigOperators.Group.Multiset.Basic

/-!
# RapidLlm.Lib.Ledger

**Charges against accounts.** A ledger remembers, for each open item, the account it was
charged to and the amount, and keeps the load of every account next to that. Releasing an
item gives back its own amount; the load is a natural number, so giving back more than it
holds stops at zero.

`Balanced` says that the loads are what the charges add up to. A charge for a new item and
any release keep it, and two balanced ledgers with the same charges are the same ledger, so a
rollback that restores the charges restores the loads.
-/

namespace RapidLlm

universe u v

/-- Items of `ι`, charged to accounts of `ρ`. -/
structure Ledger (ι : Type u) (ρ : Type v) where
  charges : Finmap fun _ : ι => ρ × Nat
  load : ρ → Nat

namespace Ledger

variable {ι : Type u} {ρ : Type v} [DecidableEq ι] [DecidableEq ρ]

def empty : Ledger ι ρ := ⟨∅, fun _ => 0⟩

/-- Charge an item; an earlier charge under the same name is forgotten. -/
def charge (ledger : Ledger ι ρ) (item : ι) (account : ρ) (amount : Nat) : Ledger ι ρ :=
  { charges := ledger.charges.insert item (account, amount)
    load := Function.update ledger.load account (ledger.load account + amount) }

/-- Release an item, if it is charged. -/
def release (ledger : Ledger ι ρ) (item : ι) : Ledger ι ρ :=
  match ledger.charges.lookup item with
  | none => ledger
  | some (account, amount) =>
    { charges := ledger.charges.erase item
      load := Function.update ledger.load account (ledger.load account - amount) }

/-- The account an item is charged to. -/
def accountOf (ledger : Ledger ι ρ) (item : ι) : Option ρ :=
  (ledger.charges.lookup item).map Prod.fst

/-- What one entry adds to an account. -/
def share (account : ρ) (entry : Sigma fun _ : ι => ρ × Nat) : Nat :=
  if entry.2.1 = account then entry.2.2 else 0

/-- The charges on an account, added up. -/
def total (charges : Finmap fun _ : ι => ρ × Nat) (account : ρ) : Nat :=
  (charges.entries.map (share account)).sum

/-- Every load is what its charges add up to. -/
def Balanced (ledger : Ledger ι ρ) : Prop :=
  ∀ account, ledger.load account = total ledger.charges account

variable {ledger : Ledger ι ρ} {item item' : ι} {account : ρ} {amount : Nat}

@[simp] theorem accountOf_charge_self :
    (ledger.charge item account amount).accountOf item = some account := by
  simp [accountOf, charge]

@[simp] theorem accountOf_charge_of_ne (h : item' ≠ item) :
    (ledger.charge item account amount).accountOf item' = ledger.accountOf item' := by
  simp [accountOf, charge, Finmap.lookup_insert_of_ne _ h]

theorem charges_release : (ledger.release item).charges = ledger.charges.erase item := by
  unfold release
  split
  · rename_i hnone
    refine (Finmap.ext_lookup fun x => ?_).symm
    by_cases hx : x = item
    · subst hx; rw [Finmap.lookup_erase, hnone]
    · rw [Finmap.lookup_erase_ne hx]
  · rfl

@[simp] theorem accountOf_release_self : (ledger.release item).accountOf item = none := by
  rw [accountOf, charges_release, Finmap.lookup_erase, Option.map_none]

@[simp] theorem accountOf_release_of_ne (h : item' ≠ item) :
    (ledger.release item).accountOf item' = ledger.accountOf item' := by
  rw [accountOf, charges_release, Finmap.lookup_erase_ne h, accountOf]

omit [DecidableEq ρ] in
theorem accountOf_eq_none : ledger.accountOf item = none ↔ item ∉ ledger.charges := by
  rw [accountOf, Option.map_eq_none_iff, Finmap.lookup_eq_none]

/-! ### Balance -/

theorem total_insert (charges : Finmap fun _ : ι => ρ × Nat) (h : item ∉ charges)
    (entry : ρ × Nat) (account : ρ) :
    total (charges.insert item entry) account = share account ⟨item, entry⟩ + total charges account := by
  rw [total, Finmap.entries_insert_of_notMem h, Multiset.map_cons, Multiset.sum_cons, total]

omit [DecidableEq ρ] in
/-- Taking an entry out and putting it back. -/
theorem insert_erase (charges : Finmap fun _ : ι => ρ × Nat) {entry : ρ × Nat}
    (h : charges.lookup item = some entry) : (charges.erase item).insert item entry = charges := by
  refine Finmap.ext_lookup fun x => ?_
  by_cases hx : x = item
  · subst hx; rw [Finmap.lookup_insert, h]
  · rw [Finmap.lookup_insert_of_ne _ hx, Finmap.lookup_erase_ne hx]

omit [DecidableEq ι] in
theorem balanced_empty : (empty : Ledger ι ρ).Balanced := fun _ => rfl

/-- A charge for an item that is not open. -/
theorem Balanced.charge (h : ledger.Balanced) (hfresh : item ∉ ledger.charges) :
    (ledger.charge item account amount).Balanced := by
  intro account'
  have htotal := total_insert ledger.charges hfresh (account, amount) account'
  simp only [Ledger.charge, htotal, ← h account', share]
  by_cases ha : account' = account
  · subst ha
    rw [Function.update_self, if_pos rfl, Nat.add_comm]
  · rw [Function.update_of_ne ha, if_neg (Ne.symm ha), Nat.zero_add]

/-- Releasing gives back what the item had. -/
theorem Balanced.release (h : ledger.Balanced) : (ledger.release item).Balanced := by
  unfold Ledger.release
  split
  · exact h
  · rename_i account amount hlookup
    intro account'
    have htotal := total_insert (ledger.charges.erase item) Finmap.notMem_erase_self
      (account, amount) account'
    rw [insert_erase _ hlookup, ← h account', share] at htotal
    by_cases ha : account' = account
    · subst ha
      rw [if_pos rfl] at htotal
      simp only [Function.update_self, htotal, Nat.add_sub_cancel_left]
    · rw [if_neg (Ne.symm ha), Nat.zero_add] at htotal
      simp only [Function.update_of_ne ha, htotal]

omit [DecidableEq ι] in
/-- The charges of a balanced ledger decide its loads. -/
theorem Balanced.eq_of_charges {ledger' : Ledger ι ρ} (h : ledger.Balanced) (h' : ledger'.Balanced)
    (hcharges : ledger.charges = ledger'.charges) : ledger = ledger' := by
  obtain ⟨charges, load⟩ := ledger
  obtain ⟨charges', load'⟩ := ledger'
  obtain rfl : charges = charges' := hcharges
  have hload : load = load' := funext fun account => (h account).trans (h' account).symm
  rw [hload]

end Ledger

end RapidLlm
