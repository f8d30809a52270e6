import Mathlib.Data.List.Forall2

/-!
# Results that are there

What a result says about the steps that led to it.

## Main statements

* `bind_eq_ok_iff`, `exists_of_map_eq_ok`: the step before has a result, too.
* `error_bind_iff`: a step that always has a result adds no error.
* `forall₂_of_mapM_eq_ok`: so has every member of a list.
-/

namespace BlockPuzzle

variable {ε α β : Type} {x : Except ε α}

theorem bind_eq_ok_iff {f : α → Except ε β} {y : β} :
    x >>= f = .ok y ↔ ∃ a, x = .ok a ∧ f a = .ok y := by
  cases x <;> simp [bind, Except.bind]

theorem exists_of_bind_eq_ok {f : α → Except ε β} {y : β} (h : x >>= f = .ok y) :
    ∃ a, x = .ok a ∧ f a = .ok y := bind_eq_ok_iff.1 h

theorem error_bind_iff {f : α → Except ε β} (hf : ∀ a, ∃ y, f a = .ok y) {e : ε} :
    x >>= f = .error e ↔ x = .error e := by
  cases x with
  | error e' => simp [bind, Except.bind]
  | ok a =>
    obtain ⟨y, hy⟩ := hf a
    simp [bind, Except.bind, hy]

theorem exists_of_map_eq_ok {f : α → β} {y : β} (h : x.map f = .ok y) :
    ∃ a, x = .ok a ∧ f a = y := by
  cases x with
  | error e => cases h
  | ok a =>
    cases h
    exact ⟨a, rfl, rfl⟩

theorem forall₂_of_mapM_eq_ok {f : α → Except ε β} {as : List α} {bs : List β}
    (h : as.mapM f = .ok bs) : List.Forall₂ (fun a b => f a = .ok b) as bs := by
  induction as generalizing bs with
  | nil =>
    cases h
    exact .nil
  | cons a as ih =>
    rw [List.mapM_cons] at h
    obtain ⟨b, hb, h⟩ := exists_of_bind_eq_ok h
    obtain ⟨bs, hbs, h⟩ := exists_of_bind_eq_ok h
    cases h
    exact .cons hb (ih hbs)

end BlockPuzzle
