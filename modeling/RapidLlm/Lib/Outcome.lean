import Mathlib.Tactic.Common

/-!
# RapidLlm.Lib.Outcome

Computations that may raise, as `Except`: the two facts about `bind` that let a
proof walk through a `do` block one call at a time, without ever unfolding the
monad. A call known to return is stepped over with `ok_bind`; a block known to
return is taken apart with `bind_eq_ok`, and a loop with `mapM_mem`.
-/

namespace RapidLlm

universe u v

variable {ε : Type u} {α β : Type v}

@[simp] theorem ok_bind (a : α) (f : α → Except ε β) : (Except.ok a >>= f) = f a := rfl

@[simp] theorem pure_eq_ok (a : α) : (pure a : Except ε α) = .ok a := rfl

/-- A block that returns got there through a first call that returned. -/
theorem bind_eq_ok {x : Except ε α} {f : α → Except ε β} {b : β} :
    (x >>= f) = .ok b ↔ ∃ a, x = .ok a ∧ f a = .ok b := by
  cases x with
  | error e => simp [bind, Except.bind]
  | ok a => simp

theorem map_eq_ok {x : Except ε α} {f : α → β} {b : β} :
    x.map f = .ok b ↔ ∃ a, x = .ok a ∧ f a = b := by
  cases x with
  | error e => simp [Except.map]
  | ok a => simp [Except.map]

/-- A computation that is seen to return does return something. -/
theorem ok_of_isOk : ∀ {x : Except ε α}, x.isOk = true → ∃ a, x = .ok a
  | .ok a, _ => ⟨a, rfl⟩

/-! ### A loop that may raise -/

section Loops

variable {f : α → Except ε β}

/-- A loop returns where each of its calls does. -/
theorem mapM_ok {g : α → β} {xs : List α} (h : ∀ x ∈ xs, f x = .ok (g x)) :
    xs.mapM f = .ok (xs.map g) := by
  induction xs with
  | nil => rfl
  | cons x xs ih =>
    rw [List.mapM_cons, h x List.mem_cons_self, ok_bind,
      ih fun y hy => h y (List.mem_cons_of_mem _ hy), ok_bind, pure_eq_ok, List.map_cons]

theorem mapM_total {xs : List α} (h : ∀ x ∈ xs, ∃ y, f x = .ok y) : ∃ ys, xs.mapM f = .ok ys := by
  induction xs with
  | nil => exact ⟨[], rfl⟩
  | cons x xs ih =>
    obtain ⟨y, hy⟩ := h x List.mem_cons_self
    obtain ⟨ys, hys⟩ := ih fun y hy => h y (List.mem_cons_of_mem _ hy)
    exact ⟨y :: ys, by rw [List.mapM_cons, hy, ok_bind, hys]; rfl⟩

/-- What a loop returns are the results of its calls. -/
theorem mapM_mem : ∀ {xs : List α} {ys : List β}, xs.mapM f = .ok ys →
    (∀ x ∈ xs, ∃ y ∈ ys, f x = .ok y) ∧ ∀ y ∈ ys, ∃ x ∈ xs, f x = .ok y
  | [], ys, h => by
      cases h
      simp
  | x :: xs, ys, h => by
      rw [List.mapM_cons] at h
      obtain ⟨y, hy, h⟩ := bind_eq_ok.mp h
      obtain ⟨zs, hzs, h⟩ := bind_eq_ok.mp h
      cases h
      obtain ⟨hto, hfrom⟩ := mapM_mem hzs
      refine ⟨fun a ha => ?_, fun b hb => ?_⟩
      · rcases List.mem_cons.mp ha with rfl | ha
        · exact ⟨y, List.mem_cons_self, hy⟩
        · obtain ⟨b, hb, hab⟩ := hto a ha
          exact ⟨b, List.mem_cons_of_mem _ hb, hab⟩
      · rcases List.mem_cons.mp hb with rfl | hb
        · exact ⟨x, List.mem_cons_self, hy⟩
        · obtain ⟨a, ha, hab⟩ := hfrom b hb
          exact ⟨a, List.mem_cons_of_mem _ ha, hab⟩

theorem mapM_length : ∀ {xs : List α} {ys : List β}, xs.mapM f = .ok ys → ys.length = xs.length
  | [], ys, h => by
      cases h
      rfl
  | x :: xs, ys, h => by
      rw [List.mapM_cons] at h
      obtain ⟨y, -, h⟩ := bind_eq_ok.mp h
      obtain ⟨zs, hzs, h⟩ := bind_eq_ok.mp h
      cases h
      rw [List.length_cons, mapM_length hzs, List.length_cons]

end Loops

end RapidLlm
