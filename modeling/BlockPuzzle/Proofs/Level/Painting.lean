import BlockPuzzle.Proofs.Grid.Replacing
import BlockPuzzle.Proofs.Level.Sandbox

/-!
# What painting reports

Painting reports whether there was a cell to paint, and not whether the grid is another one now. The
two come apart where path is painted over path, and nowhere else.

## Main definitions

* `Grid.OnEdge`: the outer rows and columns of a grid, also of a ragged one.
* `Grid.DiffersOnlyAt`: two grids of one shape that differ in a single cell.

## Main statements

* `Grid.set_eq_self_iff`, `Grid.differsOnlyAt_set`: when replacing a cell changes the grid, and how.
* `Sandbox.paint?_eq_some_iff`: what is painted, and where.
* `Sandbox.paint_ne_self_iff`: when painting changes the grid, beside what it reports.
-/

namespace BlockPuzzle

namespace Grid

variable {g : Grid} {p : Position} {x old : Cell}

/-- The first and the last row and column. The last column is that of the first row. -/
def OnEdge (g : Grid) (p : Position) : Prop :=
  p.row = 0 ∨ p.col = 0 ∨ p.row = g.height - 1 ∨ p.col = g.width - 1

/-- The rows of both grids are equally long, and of all their cells, also those out of reach,
exactly the one at `p` is different. -/
structure DiffersOnlyAt (g g' : Grid) (p : Position) : Prop where
  lengths_eq : g'.rows.map List.length = g.rows.map List.length
  differs_iff : ∀ i j : Nat, g'.cell? i j ≠ g.cell? i j ↔ p = ⟨i, j⟩

theorem set_eq_self_iff (h : g.get? p = some old) : g.set p x = g ↔ x = old := by
  constructor
  · intro hset
    have hget := get?_set h x p
    rw [hset, h, if_pos rfl] at hget
    exact (Option.some.inj hget).symm
  · rintro rfl
    apply ext_cell? (height_set g p x)
    intro i j
    rw [cell?_set h]
    split
    · next hij => rw [hij.1, hij.2, cell?_of_get? h]
    · rfl

theorem differsOnlyAt_set (h : g.get? p = some old) (hne : x ≠ old) :
    g.DiffersOnlyAt (g.set p x) p where
  lengths_eq := map_length_set g p x
  differs_iff i j := by
    obtain ⟨hrow, hcol, -, -⟩ := inBounds_of_get? h
    have hcell := cell?_of_get? h
    rw [cell?_set h]
    cases p
    grind

end Grid

namespace Sandbox

variable {g g' : Grid} {p : Position} {old tool : Cell}

/-! ## What is painted -/

/-- A cell of the grid can be painted exactly if it does not lie on the edge. -/
theorem paint?_eq_some_iff : paint? g p tool = some g' ↔
    ∃ old, g.get? p = some old ∧ ¬ g.OnEdge p ∧
      g' = g.set p (if old = tool then .path else tool) := by
  cases h : g.get? p with
  | none => simp [paint?, h]
  | some old =>
    have hinner : (0 < p.row ∧ 0 < p.col ∧ p.row < g.height - 1 ∧ p.col < g.width - 1) ↔
        ¬ g.OnEdge p := by
      obtain ⟨hrow, hcol, hheight, hwidth⟩ := Grid.inBounds_of_get? h
      simp only [Grid.OnEdge]
      omega
    rw [paint?]
    split
    · next hin => simp [h, Grid.set?_eq_some_set h, hinner.1 hin, eq_comm]
    · next hout => simp [mt hinner.2 hout]

theorem isSome_paint?_iff :
    (paint? g p tool).isSome ↔ (g.get? p).isSome ∧ ¬ g.OnEdge p := by
  simp only [Option.isSome_iff_exists, paint?_eq_some_iff]
  grind

/-- Only path over path leaves a cell as it is: any other tool either brings its own kind or is the
kind that is there and gives way to path. -/
theorem painted_eq_self_iff :
    (if old = tool then Cell.path else tool) = old ↔ tool = .path ∧ old = .path := by
  grind

/-! ## What changes -/

/-- Painting reports a change exactly where there is a cell off the edge. The grid is then another
one, unless path has been painted over path, and whenever it is another one, it is so in the painted
cell alone. -/
theorem paint_ne_self_iff (g : Grid) (s : Stroke) :
    ((paint? g s.position s.tool).isSome ↔
        (g.get? s.position).isSome ∧ ¬ g.OnEdge s.position) ∧
      (paint g s ≠ g ↔ (paint? g s.position s.tool).isSome ∧
        ¬ (s.tool = .path ∧ g.get? s.position = some .path)) ∧
      (paint g s ≠ g → g.DiffersOnlyAt (paint g s) s.position ∧ ¬ g.OnEdge s.position) := by
  refine ⟨isSome_paint?_iff, ?_⟩
  cases hpaint : paint? g s.position s.tool with
  | none =>
    have hsame : paint g s = g := by rw [paint, hpaint, Option.getD_none]
    simp [hsame]
  | some g' =>
    obtain ⟨old, hold, hedge, rfl⟩ := paint?_eq_some_iff.1 hpaint
    have hset : paint g s = g.set s.position (if old = s.tool then .path else s.tool) := by
      rw [paint, hpaint, Option.getD_some]
    rw [hset, hold, Ne, Grid.set_eq_self_iff hold]
    constructor
    · simp [painted_eq_self_iff]
    · intro hne
      exact ⟨Grid.differsOnlyAt_set hold hne, hedge⟩

/-- In the middle of an empty room there is path, and painting path there reports a change all the
same. -/
theorem not_isSome_paint?_iff_ne :
    ¬ ((paint? (room 3 3) ⟨2, 2⟩ .path).isSome ↔
      paint (room 3 3) ⟨⟨2, 2⟩, .path⟩ ≠ room 3 3) := by
  decide

end Sandbox

end BlockPuzzle
