import BlockPuzzle.Direction
import BlockPuzzle.Grid.Cell

/-!
# Grids

A grid is a list of rows. Nothing forces the rows to be equally long: the width is that of the first
row, a longer row is cut off by it and a shorter one has fewer cells.

## Main definitions

* `Grid.get?`, `Grid.set?`: one cell, where there is one.
* `Grid.count`, `Grid.find?`: cells of a kind, in row-major order.
* `Grid.cellAt`, `Grid.walkable`: the board as the agent meets it, with wall all around.
* `Grid.take?`: picking up what lies at a position.
-/

namespace BlockPuzzle

structure Grid where
  rows : List (List Cell)
  deriving DecidableEq, Repr

namespace Grid

def filled (height width : Nat) (x : Cell) : Grid :=
  ⟨List.replicate height (List.replicate width x)⟩

def height (g : Grid) : Nat := g.rows.length

def width (g : Grid) : Nat := (g.rows.head?.map List.length).getD 0

def InBounds (g : Grid) (p : Position) : Prop :=
  0 ≤ p.row ∧ 0 ≤ p.col ∧ p.row < g.height ∧ p.col < g.width

instance (g : Grid) (p : Position) : Decidable (g.InBounds p) :=
  inferInstanceAs (Decidable (_ ∧ _ ∧ _ ∧ _))

def get? (g : Grid) (p : Position) : Option Cell :=
  if g.InBounds p then (g.rows[p.row.toNat]?).bind (·[p.col.toNat]?) else none

/-- The grid with the cell at `p` replaced; `none` out of bounds and behind the end of a row. -/
def set? (g : Grid) (p : Position) (x : Cell) : Option Grid :=
  if g.InBounds p then
    (g.rows[p.row.toNat]?).bind fun row =>
      if p.col.toNat < row.length then
        some ⟨g.rows.set p.row.toNat (row.set p.col.toNat x)⟩
      else none
  else none

/-- The grid with the cell at `p` replaced, if there is one. -/
def set (g : Grid) (p : Position) (x : Cell) : Grid := (g.set? p x).getD g

def count (g : Grid) (x : Cell) : Nat := g.rows.flatten.count x

/-- The first position of `x`, row by row. -/
def find? (g : Grid) (x : Cell) : Option Position :=
  g.rows.zipIdx.findSome? fun row => (row.1.idxOf? x).map fun c => ⟨row.2, c⟩

/-! ## The board as the agent meets it -/

/-- Outside the grid everything is wall. -/
def cellAt (g : Grid) (p : Position) : Cell := (g.get? p).getD .wall

def walkable (g : Grid) (p : Position) : Bool := (g.cellAt p).walkable

/-- The collectible at `p` and the grid without it. -/
def take? (g : Grid) (p : Position) : Option (Cell × Grid) :=
  if (g.cellAt p).collectible then some (g.cellAt p, g.set p .path) else none

/-- There is a cell to be replaced exactly where there is one to be seen. -/
theorem set?_eq (g : Grid) (p : Position) (x : Cell) :
    g.set? p x =
      (g.get? p).map fun _ => ⟨g.rows.modify p.row.toNat (·.set p.col.toNat x)⟩ := by
  unfold set? get?
  split
  · cases hrow : g.rows[p.row.toNat]? with
    | none => rfl
    | some row =>
      rw [Option.bind_some, Option.bind_some, List.modify_eq_set, hrow, Option.getD_some]
      by_cases hj : p.col.toNat < row.length
      · rw [if_pos hj, List.getElem?_eq_getElem hj, Option.map_some]
      · rw [if_neg hj, List.getElem?_eq_none (Nat.le_of_not_lt hj), Option.map_none]
  · rfl

theorem isSome_set? (g : Grid) (p : Position) (x : Cell) :
    (g.set? p x).isSome = (g.get? p).isSome := by
  rw [set?_eq, Option.isSome_map]

theorem walkable_eq (g : Grid) (p : Position) :
    g.walkable p = (g.get? p).any Cell.walkable := by
  unfold walkable cellAt
  cases g.get? p <;> rfl

end Grid

end BlockPuzzle
