import BlockPuzzle.Proofs.Grid.Finding

/-!
# A grid as a finite map

There is a cell at a position, or there is none: the bounds come from the first row and the cells
from the row itself, and looking up and replacing agree about both. What is replaced is one cell and
nothing around it.

## Main definitions

* `Grid.Replaces`: a grid that differs from another one by a single cell.

## Main statements

* `Grid.replaces_set`: replacing a cell does that and no more.
* `Grid.find?_eq_none_iff_count`: nothing is found exactly if nothing is counted.
* `Grid.coherent`: looking up, replacing, counting and searching, taken together.
-/

namespace BlockPuzzle

namespace Grid

variable {g : Grid} {p : Position} {x old : Cell} {m n : Nat}

/-- In `g'` the cell at `p`, which was `old` in `g`, is `x`, and nothing else is changed. -/
structure Replaces (g g' : Grid) (p : Position) (old x : Cell) : Prop where
  get?_self : g'.get? p = some x
  get?_of_ne : ∀ q, q ≠ p → g'.get? q = g.get? q
  height_eq : g'.height = g.height
  lengths_eq : g'.rows.map List.length = g.rows.map List.length
  count_eq : ∀ k, (g'.count k : Int) - g.count k =
    (if x = k then 1 else 0) - if old = k then 1 else 0

/-! ## Replacing a cell -/

theorem set?_eq_some_set (h : g.get? p = some old) (x : Cell) : g.set? p x = some (g.set p x) := by
  rw [set_eq h, set?_eq, h, Option.map_some]

theorem replaces_set (h : g.get? p = some old) (x : Cell) : g.Replaces (g.set p x) p old x where
  get?_self := by rw [get?_set h, if_pos rfl]
  get?_of_ne q hq := by rw [get?_set h, if_neg hq]
  height_eq := height_set g p x
  lengths_eq := map_length_set g p x
  count_eq k := by
    have hcount := count_set h x k
    by_cases hx : x = k <;> by_cases hold : old = k <;>
      simp only [hx, hold, if_true, if_false] at hcount ⊢ <;> omega

/-! ## Searching -/

/-- Counting and searching both go through all cells, also those that no position can reach. -/
theorem find?_eq_none_iff_count : g.find? x = none ↔ g.count x = 0 := by
  rw [find?_eq_none_iff, count_eq_zero_iff]

/-- A cell can be replaced exactly where there is one. It is replaced then, with no change at any
other position or to the size of any row, and the numbers of cells change by one for the new kind
and by one for the old; elsewhere the grid stays as it is. Nothing of a kind is found exactly if
there is no cell of that kind, and what is found in a rectangle is the first of all positions that
hold it. -/
theorem coherent (g : Grid) (p : Position) (x : Cell) :
    ((g.set? p x).isSome ↔ (g.get? p).isSome) ∧
      (∀ old, g.get? p = some old →
        g.set? p x = some (g.set p x) ∧ g.Replaces (g.set p x) p old x) ∧
      (g.get? p = none → g.set p x = g) ∧
      (g.find? x = none ↔ g.count x = 0) ∧
      ∀ m n, g.Rectangle m n → ∀ q, g.find? x = some q → g.IsFirst x q := by
  refine ⟨by rw [isSome_set?], ?_, ?_, find?_eq_none_iff_count, ?_⟩
  · intro old h
    exact ⟨set?_eq_some_set h x, replaces_set h x⟩
  · intro h
    exact set_of_get?_eq_none h x
  · intro m n h q hq
    exact h.isFirst_of_find? hq

/-- A short row, a long one whose last cell is out of reach, and a row as long as the first. -/
def ragged : Grid :=
  ⟨[[.path, .gem, .wall], [.star], [.wall, .gem, .path, .gem], [.goal, .gem, .path]]⟩

/-- In a ragged grid the gem that is out of reach is counted all the same. -/
theorem coherent_ragged :
    ragged.get? ⟨2, 1⟩ = some .gem ∧ ragged.get? ⟨1, 1⟩ = none ∧ ragged.get? ⟨2, 3⟩ = none ∧
      (ragged.set ⟨2, 1⟩ .star).get? ⟨2, 1⟩ = some .star ∧
      ((ragged.set ⟨2, 1⟩ .star).count .gem : Int) - ragged.count .gem = 0 - 1 ∧
      ragged.set ⟨1, 1⟩ .gem = ragged ∧
      (filled 2 3 .gem).Rectangle 2 3 ∧ (filled 2 3 .gem).IsFirst .gem ⟨0, 0⟩ := by
  have hgem : ragged.get? ⟨2, 1⟩ = some .gem := by decide
  have hshort : ragged.get? ⟨1, 1⟩ = none := by decide
  obtain ⟨-, hset, -⟩ := coherent ragged ⟨2, 1⟩ .star
  obtain ⟨-, hreplaces⟩ := hset .gem hgem
  obtain ⟨-, -, hstays, -⟩ := coherent ragged ⟨1, 1⟩ .gem
  obtain ⟨-, -, -, -, hfirst⟩ := coherent (filled 2 3 .gem) ⟨0, 0⟩ .gem
  have hrectangle := rectangle_filled 2 3 .gem
  refine ⟨hgem, hshort, by decide, hreplaces.get?_self, hreplaces.count_eq .gem, hstays hshort,
    hrectangle, hfirst 2 3 hrectangle _ (by decide)⟩

end Grid

end BlockPuzzle
