import BlockPuzzle.Run.Execution

/-!
# The report of a run

## Main definitions

* `Tally`: what a run has counted.
* `Report`: a tally beside what there was to collect.
* `runNodes`, `runBlocks`: the report of a program on a level.
-/

namespace BlockPuzzle

/-- What a run has counted. -/
structure Tally where
  trace : List Step
  reachedGoal : Bool
  stars : Nat
  gems : Nat
  steps : Nat
  error : Option RunError
  deriving DecidableEq, Repr

def Run.tally (r : Run) : Tally :=
  ⟨r.history.reverse, r.reachedGoal, r.stars, r.gems, r.steps, r.error⟩

structure Report where
  /-- What happened, first to last, beginning with the board before the first block. -/
  trace : List Step
  reachedGoal : Bool
  stars : Nat
  gems : Nat
  totalStars : Nat
  totalGems : Nat
  totalSteps : Nat
  error : Option RunError
  /-- The goal was reached and nothing is left to collect. -/
  perfect : Bool
  deriving DecidableEq, Repr

namespace Report

/-- The report of a tally on `before`, the grid before the run. -/
def ofTally (before : Grid) (t : Tally) : Report where
  trace := t.trace
  reachedGoal := t.reachedGoal
  stars := t.stars
  gems := t.gems
  totalStars := before.count .star
  totalGems := before.count .gem
  totalSteps := t.steps
  error := t.error
  perfect := t.reachedGoal && t.stars == before.count .star && t.gems == before.count .gem

def last? (r : Report) : Option Step := r.trace.getLast?

def allStars (r : Report) : Bool := r.stars == r.totalStars

end Report

def runNodes (nodes : List Node) (l : Level) (limits : Limits := {}) : Report :=
  Report.ofTally l.grid (Run.ofNodes limits nodes l).tally

def runBlocks (bs : List Block) (l : Level) (limits : Limits := {}) : Report :=
  runNodes (Node.ofBlocks bs) l limits

end BlockPuzzle
