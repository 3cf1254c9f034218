import Mathlib
/-!
# Computations that may fail

A computation in `Except` succeeds exactly when its parts do, and a list that is mapped by one that
succeeds keeps whatever the single steps keep.  The last two lemmas are about lists that are mapped
in `Option`.
-/

namespace SearchTable

variable {ε α β γ : Type}

/-- A computation that succeeds is one whose parts succeed. -/
theorem bind_eq_ok_iff {x : Except ε α} {f : α → Except ε β} {b : β} :
    (x >>= f) = .ok b ↔ ∃ a, x = .ok a ∧ f a = .ok b := by
  cases x with
  | error e => simp [bind, Except.bind]
  | ok a => simp [bind, Except.bind]

/-- A computation fails where its first part does, or where the part behind it does. -/
theorem bind_eq_error_iff {x : Except ε α} {f : α → Except ε β} {e : ε} :
    (x >>= f) = .error e ↔ x = .error e ∨ ∃ a, x = .ok a ∧ f a = .error e := by
  cases x with
  | error e' => simp [bind, Except.bind]
  | ok a => simp [bind, Except.bind]

/-- What every step of a mapping keeps, is the same along the whole list. -/
theorem map_eq_of_mapM {f : α → Except ε β} {g : α → γ} {h : β → γ} {xs : List α} {ys : List β}
    (hf : ∀ a ∈ xs, ∀ b, f a = .ok b → h b = g a) (hys : xs.mapM f = .ok ys) :
    ys.map h = xs.map g := by
  induction xs generalizing ys with
  | nil =>
    obtain rfl : [] = ys := by simpa [pure, Except.pure] using hys
    rfl
  | cons x xs ih =>
    rw [List.mapM_cons] at hys
    obtain ⟨y, hy, hys⟩ := bind_eq_ok_iff.1 hys
    obtain ⟨rest, hrest, hys⟩ := bind_eq_ok_iff.1 hys
    rw [List.forall_mem_cons] at hf
    rw [← Except.ok.inj hys, List.map_cons, List.map_cons, hf.1 y hy, ih hf.2 hrest]

/-- A mapping that succeeds is one whose steps succeed. -/
theorem forall₂_of_mapM {f : α → Except ε β} {xs : List α} {ys : List β} (h : xs.mapM f = .ok ys) :
    List.Forall₂ (fun a b => f a = .ok b) xs ys := by
  induction xs generalizing ys with
  | nil =>
    obtain rfl : [] = ys := by simpa [pure, Except.pure] using h
    exact .nil
  | cons x xs ih =>
    rw [List.mapM_cons] at h
    obtain ⟨y, hy, h⟩ := bind_eq_ok_iff.1 h
    obtain ⟨rest, hrest, h⟩ := bind_eq_ok_iff.1 h
    rw [← Except.ok.inj h]
    exact .cons hy (ih hrest)

/-- Reading undoes writing along a list when it does for every item. -/
theorem mapM_map_eq_some {f : β → Option α} {g : α → β} {xs : List α}
    (h : ∀ a ∈ xs, f (g a) = some a) : (xs.map g).mapM f = some xs := by
  induction xs with
  | nil => rfl
  | cons x xs ih =>
    rw [List.forall_mem_cons] at h
    rw [List.map_cons, List.mapM_cons, h.1, ih h.2]
    rfl

/-- A list is not mapped when one of its items is not. -/
theorem mapM_eq_none {f : α → Option β} {xs : List α} {a : α} (ha : a ∈ xs) (h : f a = none) :
    xs.mapM f = none := by
  induction xs with
  | nil => cases ha
  | cons x xs ih =>
    rw [List.mapM_cons]
    rcases List.mem_cons.1 ha with rfl | ha
    · rw [h]
      rfl
    · rw [ih ha]
      cases f x <;> rfl

end SearchTable
