import BlockPuzzle.Game.Badge
import BlockPuzzle.Game.Rating
import BlockPuzzle.Game.Ratings
import BlockPuzzle.Game.Streak
import BlockPuzzle.Level.World

/-!
# The progress of a player

Days are numbers that the caller gives.

## Main definitions

* `Progress`: completed levels, best ratings, streak, unlocked worlds and badges.
* `Progress.record`, `Progress.earned`: the progress after a finished level, and the badges that it
  brings.
* `Progress.Summary`: what a player is shown.
-/

namespace BlockPuzzle

structure Progress where
  /-- The completed levels, in the order of their first completion. -/
  completed : List Nat := []
  stars : Ratings := .empty
  streak : Streak := {}
  /-- The unlocked worlds, in the order in which they were unlocked. -/
  unlockedWorlds : List Nat := [1]
  /-- Every world is open, whatever was completed. -/
  fullUnlock : Bool := false
  badges : List EarnedBadge := []
  deriving DecidableEq, Repr

namespace Progress

/-- The worlds with the number of completed levels that unlocks each. -/
def thresholds : List (Nat × Nat) :=
  [(2, 15), (3, 35), (4, 60), (5, 85), (6, 110), (7, 135), (8, 165)]

def allWorlds : List Nat := List.range' 1 World.number

def totalStars (p : Progress) : Nat := p.stars.total

def hasBadge (p : Progress) (id : String) : Bool := p.badges.any fun b => b.id == id

def meets (p : Progress) : BadgeRule → Bool
  | .completed count => count ≤ p.completed.length
  | .totalStars count => count ≤ p.totalStars
  | .streak count => count ≤ p.streak.count
  | .completedInRange first last count =>
    count ≤ p.completed.countP fun id => first ≤ id && id ≤ last

/-! ## A finished level -/

def complete (p : Progress) (level : Nat) : Progress :=
  if level ∈ p.completed then p else { p with completed := p.completed ++ [level] }

/-- The worlds `ws`, and the one of the threshold `t` if `done` completed levels unlock it. -/
def addWorld (done : Nat) (ws : List Nat) (t : Nat × Nat) : List Nat :=
  if t.2 ≤ done ∧ t.1 ∉ ws then ws ++ [t.1] else ws

/-- The worlds `ws` and all that `done` completed levels unlock. -/
def addUnlocked (done : Nat) (ws : List Nat) : List Nat := thresholds.foldl (addWorld done) ws

def unlockWorlds (p : Progress) : Progress :=
  { p with unlockedWorlds :=
      if p.fullUnlock then allWorlds else addUnlocked p.completed.length p.unlockedWorlds }

/-- Gives the badge `b` on `day`, unless the player has it or its rule is not met. The badges given
so far stand beside the progress. -/
def award (day : Int) (given : Progress × List EarnedBadge) (b : Badge) :
    Progress × List EarnedBadge :=
  let (p, earned) := given
  if p.hasBadge b.id || !p.meets b.rule then (p, earned)
  else ({ p with badges := p.badges ++ [b.earnedOn day] }, earned ++ [b.earnedOn day])

/-- Gives every badge that is due. -/
def awardAll (p : Progress) (day : Int) : Progress × List EarnedBadge :=
  Badge.all.foldl (award day) (p, [])

/-- The progress after a level was finished on `day`, without the badges for it. -/
def advance (p : Progress) (o : Outcome) (day : Int) : Progress :=
  let p := p.complete o.level
  { p with stars := p.stars.raise o.level o.stars, streak := p.streak.touch day }.unlockWorlds

/-- The progress after a level was finished on `day`. -/
def record (p : Progress) (o : Outcome) (day : Int) : Progress := ((p.advance o day).awardAll day).1

/-- The badges that a finished level brings. -/
def earned (p : Progress) (o : Outcome) (day : Int) : List EarnedBadge :=
  ((p.advance o day).awardAll day).2

/-- Opens every world, or no longer holds them open. Worlds once unlocked stay so. -/
def setFullUnlock (p : Progress) (on : Bool) : Progress :=
  { p with
    fullUnlock := on
    unlockedWorlds := if on then allWorlds else p.unlockedWorlds }

/-! ## Questions -/

def isCompleted (p : Progress) (level : Nat) : Bool := p.completed.contains level

def isWorldUnlocked (p : Progress) (world : Nat) : Bool :=
  p.fullUnlock || p.unlockedWorlds.contains world

def isLevelUnlocked (p : Progress) (level : Nat) : Bool :=
  1 ≤ level && level ≤ World.totalLevels && p.isWorldUnlocked (World.ofLevel level)

/-- What a player is shown. -/
structure Summary where
  completedCount : Nat
  completed : List Nat
  stars : Ratings
  totalStars : Nat
  streak : Streak
  badges : List EarnedBadge
  unlockedWorlds : List Nat
  totalLevels : Nat
  deriving DecidableEq, Repr

def summary (p : Progress) : Summary :=
  ⟨p.completed.length, p.completed, p.stars, p.totalStars, p.streak, p.badges, p.unlockedWorlds,
    World.totalLevels⟩

end Progress

end BlockPuzzle
