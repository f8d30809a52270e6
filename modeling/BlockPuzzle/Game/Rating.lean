import BlockPuzzle.Run.Report

/-!
# Rating a run

## Main definitions

* `Report.rating`: the stars that a run earns, from 0 to 3.
* `Outcome`: what a finished level adds to the progress of a player.
-/

namespace BlockPuzzle

/-- One star for the goal, one for all stars of the level, one for a perfect run. Without the goal
there is none. -/
def Report.rating (r : Report) : Nat :=
  if r.reachedGoal then 1 + r.allStars.toNat + r.perfect.toNat else 0

structure Outcome where
  level : Nat
  stars : Nat
  perfect : Bool
  deriving DecidableEq, Repr

/-- Nothing where the goal was not reached. -/
def Report.outcome? (r : Report) (level : Nat) : Option Outcome :=
  if r.reachedGoal then some ⟨level, r.rating, r.perfect⟩ else none

theorem Report.rating_le (r : Report) : r.rating ≤ 3 := by
  unfold rating
  split
  · have := Bool.toNat_le r.allStars
    have := Bool.toNat_le r.perfect
    omega
  · omega

end BlockPuzzle
