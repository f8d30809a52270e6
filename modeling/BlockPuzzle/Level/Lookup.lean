import BlockPuzzle.Level.Catalog
import BlockPuzzle.Level.Maze

/-!
# Finding levels

## Main definitions

* `LevelError`: why there is no level.
* `Level.find`: the level with a number, from the catalog or from the mazes.
* `Level.all`: all levels.
-/

namespace BlockPuzzle

inductive LevelError where
  | notFound (id : Nat)
  | badMap (cause : GridError)
  deriving DecidableEq, Repr

def LevelError.message : LevelError → String
  | .notFound id => s!"level {id} not found"
  | .badMap cause => "invalid level map: " ++ cause.message

namespace Level

def find (id : Nat) : Except LevelError Level :=
  match Catalog.level? id with
  | some l => l.mapError .badMap
  | none =>
    match Maze.generate? id with
    | some m => .ok m.level
    | none => .error (.notFound id)

/-- All levels, in the order of their numbers. -/
def all : Except LevelError (List Level) := do
  let drawn ← Catalog.levels.mapError .badMap
  return drawn ++ World.all.flatMap fun w => Maze.levelsOf w.id

end Level

end BlockPuzzle
