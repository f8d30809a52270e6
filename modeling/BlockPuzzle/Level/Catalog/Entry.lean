import BlockPuzzle.Grid.Notation
import BlockPuzzle.Level.Basic

/-!
# Entries of the catalog

## Main definitions

* `Catalog.Entry`: a level whose grid is drawn as a map.
* `Catalog.Entry.level`: the level itself.
-/

namespace BlockPuzzle.Catalog

structure Entry where
  id : Nat
  world : Nat
  title : String
  /-- The rows of the map. -/
  rows : List String
  start : Pose
  palette : List Kind
  optimalSteps : Nat
  hint : String
  deriving DecidableEq, Repr

def Entry.level (e : Entry) : Except GridError Level :=
  (Grid.parse ("\n".intercalate e.rows)).map fun grid =>
    { grid, start := e.start, id := e.id, world := e.world, title := e.title, palette := e.palette,
      optimalSteps := e.optimalSteps, hint := e.hint }

def rightOnly : List Kind := [.move .right]

def rightDown : List Kind := [.move .right, .move .down]

def allMoves : List Kind := Direction.palette.map .move

end BlockPuzzle.Catalog
