import BlockPuzzle.Level.Basic

/-!
# The sandbox

## Main definitions

* `Sandbox.room`: an open room inside a wall.
* `Sandbox.paint?`: a grid with one of its inner cells painted.
* `Sandbox.level`: a painted grid as a level.
-/

namespace BlockPuzzle.Sandbox

/-- The longest side of a room. -/
def maxSide : Nat := 8

def clampSide (n : Nat) : Nat := max 1 (min n maxSide)

def palette : List Kind := Direction.palette.map .move ++
  [.loop, .endLoop, .branch .wallAhead, .branch .pathAhead, .otherwise, .endBranch]

/-- An empty room with a wall around it, the start in its first corner and the goal in its last. In
the smallest room the goal takes the place of the start. -/
def room (rows cols : Nat) : Grid :=
  let rows := clampSide rows
  let cols := clampSide cols
  let border := List.replicate (cols + 2) Cell.wall
  let inner := Cell.wall :: List.replicate cols .path ++ [.wall]
  let empty : Grid := ⟨border :: List.replicate rows inner ++ [border]⟩
  (empty.set ⟨1, 1⟩ .start).set ⟨rows, cols⟩ .goal

/-- The grid with the cell at `p` painted; the cell that is there already is painted over with path.
Nothing is painted on the outer rows and columns or outside of the grid. -/
def paint? (g : Grid) (p : Position) (tool : Cell) : Option Grid :=
  if 0 < p.row ∧ 0 < p.col ∧ p.row < g.height - 1 ∧ p.col < g.width - 1 then
    match g.get? p with
    | some x => g.set? p (if x = tool then .path else tool)
    | none => none
  else none

/-- The first start; without one, the first inner cell. -/
def findStart (g : Grid) : Position := (g.find? .start).getD ⟨1, 1⟩

def level (g : Grid) : Level :=
  { grid := g, start := ⟨findStart g, .right⟩, title := "Sandbox", palette }

end BlockPuzzle.Sandbox
