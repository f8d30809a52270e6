import BlockPuzzle.Game.Progress

/-!
# Progress in words of 32 bits

An engine that keeps the count of a streak and the sum of all ratings in words breaks off where one
of them has no room, and then no level is recorded. The sum is taken only while there is a badge to
be had for it.

## Main definitions

* `Progress.meets?`: whether a rule is met, unless the engine breaks off.
* `Progress.record?`: the progress after a finished level, with the badges for it, unless the engine
  breaks off.
-/

namespace BlockPuzzle.Progress

def meets? (p : Progress) (r : BadgeRule) : Except Overflow Bool :=
  match r with
  | .totalStars _ => if p.totalStars < Width.word.size then return p.meets r else throw .add
  | .completed _ | .streak _ | .completedInRange _ _ _ => return p.meets r

/-- No rule is looked at for a badge that the player has. -/
def award? (day : Int) (given : Progress × List EarnedBadge) (b : Badge) :
    Except Overflow (Progress × List EarnedBadge) :=
  if given.1.hasBadge b.id then return given
  else (given.1.meets? b.rule).map fun _ => award day given b

def awardAll? (p : Progress) (day : Int) : Except Overflow (Progress × List EarnedBadge) :=
  Badge.all.foldlM (award? day) (p, [])

def advance? (p : Progress) (o : Outcome) (day : Int) : Except Overflow Progress :=
  (p.streak.touch? day).map fun streak => { p.advance o day with streak }

/-- The progress after a level was finished on `day`, and the badges that this brings. -/
def record? (p : Progress) (o : Outcome) (day : Int) :
    Except Overflow (Progress × List EarnedBadge) := do
  (← p.advance? o day).awardAll? day

end BlockPuzzle.Progress
