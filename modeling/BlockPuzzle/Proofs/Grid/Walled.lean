import BlockPuzzle.Proofs.Grid.Rectangle

/-!
# Grids with a wall around them

## Main definitions

* `Position.Inner`: a position inside the outer rows and columns.
* `Grid.Walled`: a rectangle whose outer rows and columns are wall.

## Main statements

* `Grid.Walled.inner_of_walkable`: no position outside can be walked on.
* `Grid.Walled.set`: the wall stays where an inner cell is replaced.
-/

namespace BlockPuzzle

/-- In one of `m` rows and `n` columns with one row and one column before them. -/
def Position.Inner (p : Position) (m n : Nat) : Prop :=
  1 ≤ p.row ∧ p.row ≤ m ∧ 1 ≤ p.col ∧ p.col ≤ n

namespace Grid

/-- The grid has `m` rows and `n` columns of cells, and a wall around them. -/
structure Walled (g : Grid) (m n : Nat) : Prop where
  rectangle : g.Rectangle (m + 2) (n + 2)
  border : ∀ p, g.InBounds p → ¬ p.Inner m n → g.get? p = some .wall

variable {g : Grid} {m n : Nat} {p : Position} {x : Cell}

theorem Walled.inner_of_get? (h : g.Walled m n) (hx : g.get? p = some x) (hwall : x ≠ .wall) :
    p.Inner m n := by
  apply Classical.byContradiction
  intro hp
  rw [h.border p (inBounds_of_get? hx) hp] at hx
  exact hwall (Option.some.inj hx).symm

theorem Walled.inner_of_walkable (h : g.Walled m n) (hp : g.walkable p) : p.Inner m n := by
  refine h.inner_of_get? (get?_of_walkable hp) ?_
  intro hwall
  rw [walkable, hwall] at hp
  cases hp

theorem Walled.set (h : g.Walled m n) (hp : p.Inner m n) (y : Cell) :
    (g.set p y).Walled m n where
  rectangle := h.rectangle.set p y
  border := by
    intro q hq hout
    have hwall := h.border q (inBounds_set.1 hq) hout
    cases hx : g.get? p with
    | none => rwa [set_of_get?_eq_none hx]
    | some x =>
      rw [get?_set hx, if_neg, hwall]
      rintro rfl
      exact hout hp

end Grid

end BlockPuzzle
