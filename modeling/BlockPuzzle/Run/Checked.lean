import BlockPuzzle.Run.Report
import BlockPuzzle.Width

/-!
# Runs in words of 32 bits

A move, and a question about what lies ahead, compute the position beside the agent. An engine that
keeps rows and columns in signed words breaks off where that position has no room, and then there is
nothing to report.

## Main definitions

* `Position.InRange`: the positions that have room.
* `Engine.checked`: the engine that computes no others.
* `runNodes?`, `runBlocks?`: the report of a program on a level, unless its run breaks off.
-/

namespace BlockPuzzle

/-- The row and the column have room in signed words. -/
def Position.InRange (p : Position) : Prop :=
  Width.word.HasRoom p.row ∧ Width.word.HasRoom p.col

instance (p : Position) : Decidable p.InRange := inferInstanceAs (Decidable (_ ∧ _))

/-- Computes a position. -/
def Position.check (p : Position) : Except Overflow PUnit :=
  if p.InRange then return else throw .add

namespace Run

def move? (r : Run) (d : Direction) : Except Overflow Run := do
  (r.pose.position.step d).check
  return r.move d

def holds? (r : Run) : Predicate → Except Overflow Bool
  | .onStar => return r.holds .onStar
  | p => do
    r.pose.ahead.check
    return r.holds p

end Run

def Engine.checked : Engine (Except Overflow) where
  call := return
  move := Run.move?
  holds := Run.holds?

def Run.ofNodes? (limits : Limits) (nodes : List Node) (l : Level) : Except Overflow Run :=
  Run.ofNodesM .checked limits nodes l

def runNodes? (nodes : List Node) (l : Level) (limits : Limits := {}) : Except Overflow Report := do
  return Report.ofTally l.grid (← Run.ofNodes? limits nodes l).tally

def runBlocks? (bs : List Block) (l : Level) (limits : Limits := {}) : Except Overflow Report :=
  runNodes? (Node.ofBlocks bs) l limits

end BlockPuzzle
