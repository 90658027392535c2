import Mathlib.Data.List.Forall2

/-!
# Results of steps that may fail

A sequence of steps succeeds exactly if each of them does.
-/
namespace FfiHeaders.Result

variable {ε α β : Type}

theorem bind_eq_ok {a : Except ε α} {f : α → Except ε β} {y : β} :
    (a >>= f) = .ok y ↔ ∃ x, a = .ok x ∧ f x = .ok y := by
  cases a with
  | error e =>
    constructor
    · intro h
      cases h
    · rintro ⟨x, h, -⟩
      cases h
  | ok x => exact ⟨fun h => ⟨x, rfl, h⟩, by rintro ⟨_, ⟨⟩, h⟩; exact h⟩

/-- A sequence of steps fails with the first of them that does. -/
theorem bind_eq_error {a : Except ε α} {f : α → Except ε β} {e : ε} :
    (a >>= f) = .error e ↔ a = .error e ∨ ∃ x, a = .ok x ∧ f x = .error e := by
  cases a with
  | error e' =>
    constructor
    · intro h
      exact Or.inl (congrArg _ (Except.error.inj h))
    · rintro (h | ⟨x, h, -⟩)
      · exact congrArg _ (Except.error.inj h)
      · cases h
  | ok x =>
    constructor
    · intro h
      exact Or.inr ⟨x, rfl, h⟩
    · rintro (h | ⟨_, ⟨⟩, h⟩)
      · cases h
      · exact h

theorem exists_bind {a : Except ε α} {f : α → Except ε β} (ha : ∃ x, a = .ok x)
    (hf : ∀ x, ∃ y, f x = .ok y) : ∃ y, (a >>= f) = .ok y := by
  obtain ⟨x, rfl⟩ := ha
  exact hf x

theorem map_eq_ok {a : Except ε α} {f : α → β} {y : β} :
    (f <$> a) = .ok y ↔ ∃ x, a = .ok x ∧ f x = y := by
  cases a with
  | error e =>
    constructor
    · intro h
      cases h
    · rintro ⟨x, h, -⟩
      cases h
  | ok x => exact ⟨fun h => ⟨x, rfl, Except.ok.inj h⟩, by rintro ⟨_, ⟨⟩, rfl⟩; rfl⟩

theorem map_eq_error {a : Except ε α} {f : α → β} {e : ε} : (f <$> a) = .error e ↔ a = .error e := by
  cases a with
  | error e' =>
    change Except.error e' = .error e ↔ _
    rw [Except.error.injEq, Except.error.injEq]
  | ok x => exact iff_of_false nofun nofun

theorem pure_eq_ok {x y : α} : (pure x : Except ε α) = .ok y ↔ x = y :=
  ⟨Except.ok.inj, fun h => congrArg Except.ok h⟩

theorem mapM_eq_ok {f : α → Except ε β} {xs : List α} {ys : List β} :
    xs.mapM f = .ok ys ↔ List.Forall₂ (fun x y => f x = .ok y) xs ys := by
  induction xs generalizing ys with
  | nil => rw [List.mapM_nil, pure_eq_ok, List.forall₂_nil_left_iff, eq_comm]
  | cons x xs ih =>
    simp only [List.mapM_cons, bind_eq_ok, pure_eq_ok, ih]
    constructor
    · rintro ⟨y, hy, zs, hz, rfl⟩
      exact .cons hy hz
    · rintro (_ | ⟨hy, hz⟩)
      exact ⟨_, hy, _, hz, rfl⟩

/-- The results of a list are those of its elements. -/
theorem mem_of_mapM {f : α → Except ε β} {xs : List α} {ys : List β} (h : xs.mapM f = .ok ys)
    (y : β) : y ∈ ys ↔ ∃ x ∈ xs, f x = .ok y := by
  induction mapM_eq_ok.1 h with
  | nil => simp
  | cons hy ht ih =>
    rw [List.mem_cons, ih (mapM_eq_ok.2 ht), List.exists_mem_cons_iff, hy, Except.ok.injEq]
    exact or_congr_left eq_comm

theorem exists_of_mapM {f : α → Except ε β} {xs : List α} {ys : List β} (h : xs.mapM f = .ok ys)
    {x : α} (hx : x ∈ xs) : ∃ y, f x = .ok y := by
  induction mapM_eq_ok.1 h with
  | nil => cases hx
  | cons hy ht ih =>
    rcases List.mem_cons.1 hx with rfl | hx
    · exact ⟨_, hy⟩
    · exact ih (mapM_eq_ok.2 ht) hx

/-- A list that has no results has an element without one. -/
theorem exists_of_mapM_error {f : α → Except ε β} {xs : List α} {e : ε} (h : xs.mapM f = .error e) :
    ∃ x ∈ xs, f x = .error e := by
  induction xs with
  | nil => cases h
  | cons x xs ih =>
    rw [List.mapM_cons] at h
    rcases bind_eq_error.1 h with h | ⟨y, -, h⟩
    · exact ⟨x, List.mem_cons_self, h⟩
    rcases bind_eq_error.1 h with h | ⟨ys, -, h⟩
    · obtain ⟨z, hz, hf⟩ := ih h
      exact ⟨z, List.mem_cons_of_mem x hz, hf⟩
    · cases h

/-- A list has results if each of its elements has one. -/
theorem exists_mapM {f : α → Except ε β} {xs : List α} (h : ∀ x ∈ xs, ∃ y, f x = .ok y) :
    ∃ ys, xs.mapM f = .ok ys := by
  induction xs with
  | nil => exact ⟨[], rfl⟩
  | cons x xs ih =>
    obtain ⟨⟨y, hy⟩, hxs⟩ := List.forall_mem_cons.1 h
    obtain ⟨ys, hys⟩ := ih hxs
    exact ⟨y :: ys, mapM_eq_ok.2 (.cons hy (mapM_eq_ok.1 hys))⟩

end FfiHeaders.Result
