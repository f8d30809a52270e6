import BlockPuzzle.Grid.Basic
import BlockPuzzle.Program.Block

/-!
# Levels

## Main definitions

* `Level`: a grid, the pose in which the agent starts, and what the player is told about them.
-/

namespace BlockPuzzle

/-- A run sees the grid and the starting pose only. -/
structure Level where
  grid : Grid
  start : Pose
  id : Nat := 0
  world : Nat := 0
  title : String := ""
  /-- The blocks that the player is offered. -/
  palette : List Kind := []
  optimalSteps : Nat := 0
  hint : String := ""
  deriving DecidableEq, Repr

end BlockPuzzle
