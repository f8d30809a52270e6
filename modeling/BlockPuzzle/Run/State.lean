import BlockPuzzle.Level.Basic
import BlockPuzzle.Run.Step

/-!
# The state of a run

## Main definitions

* `Run`: the board, the agent and the counters while a program runs.
* `Run.move`: one step of the agent, or a bump.
* `Run.holds`: the answer to a predicate.
-/

namespace BlockPuzzle

structure Run where
  grid : Grid
  pose : Pose
  stars : Nat := 0
  gems : Nat := 0
  /-- Moves and bumps so far. -/
  steps : Nat := 0
  reachedGoal : Bool := false
  /-- The first limit that was broken; nothing happens after it. -/
  error : Option RunError := none
  /-- What happened, latest first. -/
  history : List Step := []
  deriving DecidableEq, Repr

namespace Run

def record (r : Run) (a : Action) : Run :=
  { r with history := ⟨r.pose, r.grid, r.stars, r.gems, a⟩ :: r.history }

/-- The run before its first block. -/
def begin (l : Level) : Run := Run.record { grid := l.grid, pose := l.start } .start

/-- A run keeps its first error. -/
def fail (r : Run) (e : RunError) : Run := { r with error := some (r.error.getD e) }

/-- Picks up what lies under the agent. -/
def collect (r : Run) : Run :=
  match r.grid.take? r.pose.position with
  | some (.star, g) => { r with grid := g, stars := r.stars + 1 }
  | some (.gem, g) => { r with grid := g, gems := r.gems + 1 }
  | _ => r

/-- Notes a goal under the agent. -/
def checkGoal (r : Run) : Run :=
  { r with reachedGoal := r.reachedGoal || r.grid.cellAt r.pose.position == .goal }

/-- A step in direction `d`. Without a walkable cell there the agent stays, and the step counts all
the same. -/
def move (r : Run) (d : Direction) : Run :=
  let r := { r with steps := r.steps + 1 }
  let target := r.pose.position.step d
  if r.grid.walkable target then
    { r with pose.position := target }.collect.checkGoal.record (.move d)
  else
    r.record .bump

def holds (r : Run) : Predicate → Bool
  | .wallAhead => !r.grid.walkable r.pose.ahead
  | .pathAhead => r.grid.walkable r.pose.ahead
  | .onStar => r.grid.cellAt r.pose.position == .star

end Run

end BlockPuzzle
