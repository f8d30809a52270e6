import BlockPuzzle.Proofs.Grid.Rectangle
import Mathlib.Logic.Function.Basic

/-!
# Mirrored and transposed grids

## Main definitions

* `Grid.mirrored`, `Position.mirrored`, `Direction.mirrored`: left and right exchanged.
* `Grid.transposed`, `Position.transposed`, `Direction.transposed`: rows and columns exchanged.

## Main statements

* `Position.mirrored_step`, `Position.transposed_step`: a step leads to the other position of the
  neighbour.
* `Grid.Rectangle.cellAt_mirrored`, `Grid.Rectangle.cellAt_transposed`: what the agent meets on a
  rectangle, it meets at the mirrored or transposed position of the other grid, outside as well.
-/

namespace BlockPuzzle

/-! ## Positions and directions -/

def Direction.mirrored : Direction → Direction
  | .left => .right
  | .right => .left
  | d => d

def Direction.transposed : Direction → Direction
  | .up => .left
  | .left => .up
  | .down => .right
  | .right => .down

namespace Position

/-- The position in the same row that is as far from the right end as this one from the left. -/
def mirrored (width : Nat) (p : Position) : Position := ⟨p.row, width - 1 - p.col⟩

def transposed (p : Position) : Position := ⟨p.col, p.row⟩

theorem involutive_mirrored (width : Nat) : (mirrored width).Involutive := by
  intro p
  have hcol : (width : Int) - 1 - (width - 1 - p.col) = p.col := by omega
  simp only [mirrored, hcol]

theorem involutive_transposed : transposed.Involutive := fun _ => rfl

theorem mirrored_step (width : Nat) (p : Position) (d : Direction) :
    (p.step d).mirrored width = (p.mirrored width).step d.mirrored := by
  cases d <;> simp [mirrored, step, Direction.offset, Direction.mirrored] <;> omega

theorem transposed_step (p : Position) (d : Direction) :
    (p.step d).transposed = p.transposed.step d.transposed := by
  cases d <;> rfl

end Position

namespace Grid

/-- The grid with every row read from right to left. -/
def mirrored (g : Grid) : Grid := ⟨g.rows.map List.reverse⟩

/-- The grid whose rows are the columns, from left to right. -/
def transposed (g : Grid) : Grid :=
  ⟨(List.range g.width).map fun j => g.rows.filterMap (·[j]?)⟩

variable {g : Grid} {m n : Nat}

/-! ## Left and right -/

theorem Rectangle.mirrored (h : g.Rectangle m n) : g.mirrored.Rectangle m n where
  height := by simpa [Grid.mirrored, Grid.height] using h.height
  length_row := by
    intro row hrow
    obtain ⟨row', hrow', rfl⟩ := List.mem_map.1 hrow
    rw [List.length_reverse, h.length_row row' hrow']

theorem Rectangle.cell?_mirrored (h : g.Rectangle m n) (i : Nat) {j : Nat} (hj : j < n) :
    g.mirrored.cell? i (n - 1 - j) = g.cell? i j := by
  simp only [Grid.mirrored, cell?, List.getElem?_map]
  cases hrow : g.rows[i]? with
  | none => rfl
  | some row =>
    have hlength := h.length_row row (List.mem_of_getElem? hrow)
    simp only [Option.map_some, Option.bind_some]
    rw [List.getElem?_reverse (by omega), hlength]
    congr 1
    omega

theorem Rectangle.cellAt_mirrored (h : g.Rectangle m n) (p : Position) :
    g.mirrored.cellAt (p.mirrored n) = g.cellAt p := by
  symm
  apply cellAt_congr
  · simp only [Position.mirrored, h.inBounds_iff, h.mirrored.inBounds_iff]
    omega
  · intro hp
    have hin := h.inBounds_iff.1 hp
    have hcol : ((n : Int) - 1 - p.col).toNat = n - 1 - p.col.toNat := by omega
    rw [Position.mirrored, hcol, h.cell?_mirrored _ (by omega)]

/-! ## Rows and columns -/

/-- Where all rows are long enough, a column has one cell of each. -/
theorem map_some_column {rows : List (List Cell)} {j : Nat}
    (hlength : ∀ row ∈ rows, j < row.length) :
    (rows.filterMap (·[j]?)).map some = rows.map (·[j]?) := by
  rw [List.map_filterMap_some_eq_filter_map_isSome, List.filter_eq_self]
  intro x? hx
  obtain ⟨row, hrow, rfl⟩ := List.mem_map.1 hx
  simpa using hlength row hrow

variable (hmn : m = 0 → n = 0)

include hmn

theorem Rectangle.transposed (h : g.Rectangle m n) : g.transposed.Rectangle n m where
  height := by simp [Grid.transposed, Grid.height, h.width_eq_of_imp hmn]
  length_row := by
    intro row hrow
    obtain ⟨j, hj, rfl⟩ := List.mem_map.1 hrow
    rw [h.width_eq_of_imp hmn, List.mem_range] at hj
    have hcolumn := map_some_column fun row hrow => (h.length_row row hrow).symm ▸ hj
    simpa [← h.height, Grid.height] using congrArg List.length hcolumn

theorem Rectangle.cell?_transposed (h : g.Rectangle m n) (i : Nat) {j : Nat} (hj : j < n) :
    g.transposed.cell? j i = g.cell? i j := by
  have hwidth := h.width_eq_of_imp hmn
  have hcolumn := map_some_column fun row hrow => (h.length_row row hrow).symm ▸ hj
  have hentry : (g.rows.filterMap (·[j]?))[i]? = g.rows[i]?.bind (·[j]?) := by
    simpa [Option.bind_map, Function.comp_def] using congrArg (·[i]?.bind id) hcolumn
  simp [Grid.transposed, cell?, hwidth, hj, hentry]

theorem Rectangle.cellAt_transposed (h : g.Rectangle m n) (p : Position) :
    g.transposed.cellAt p.transposed = g.cellAt p := by
  symm
  apply cellAt_congr
  · simp only [Position.transposed, h.inBounds_iff, (h.transposed hmn).inBounds_iff]
    omega
  · intro hp
    have hcol : p.col.toNat < n := by
      have hin := h.inBounds_iff.1 hp
      omega
    exact (h.cell?_transposed hmn _ hcol).symm

end Grid

end BlockPuzzle
