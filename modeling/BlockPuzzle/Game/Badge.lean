/-!
# Badges

## Main definitions

* `BadgeRule`: what a badge is given for.
* `Badge`: a badge that can be earned; `Badge.all` lists them.
* `EarnedBadge`: a badge of a player.
-/

namespace BlockPuzzle

inductive BadgeRule where
  /-- At least `count` levels are completed. -/
  | completed (count : Nat)
  /-- The best ratings sum up to at least `count`. -/
  | totalStars (count : Nat)
  /-- The streak is at least `count` days long. -/
  | streak (count : Nat)
  /-- At least `count` of the levels from `first` to `last` are completed. -/
  | completedInRange (first last count : Nat)
  deriving DecidableEq, Repr

structure Badge where
  id : String
  name : String
  icon : String
  rule : BadgeRule
  deriving DecidableEq, Repr

structure EarnedBadge where
  id : String
  name : String
  icon : String
  day : Int
  deriving DecidableEq, Repr

namespace Badge

def earnedOn (b : Badge) (day : Int) : EarnedBadge := ⟨b.id, b.name, b.icon, day⟩

/-- All badges, in the order in which they are given. -/
def all : List Badge := [
  ⟨"first_step", "First Step", "👣", .completed 1⟩,
  ⟨"ten_levels", "Explorer", "🗺️", .completed 10⟩,
  ⟨"twenty_five", "Adventurer", "⚔️", .completed 25⟩,
  ⟨"fifty_levels", "Champion", "🏆", .completed 50⟩,
  ⟨"hundred_levels", "Master Coder", "👑", .completed 100⟩,
  ⟨"all_levels", "Legend", "🌟", .completed 200⟩,
  ⟨"star_collector", "Star Collector", "⭐", .totalStars 50⟩,
  ⟨"star_master", "Star Master", "🌠", .totalStars 200⟩,
  ⟨"streak_3", "3-Day Streak", "🔥", .streak 3⟩,
  ⟨"streak_7", "Weekly Warrior", "💪", .streak 7⟩,
  ⟨"streak_30", "Monthly Master", "📅", .streak 30⟩,
  ⟨"world1_done", "Grasslands Hero", "🌿", .completedInRange 1 25 25⟩,
  ⟨"world2_done", "Ocean Explorer", "🌊", .completedInRange 26 50 25⟩,
  ⟨"world3_done", "Desert Survivor", "🏜️", .completedInRange 51 75 25⟩,
  ⟨"loop_master", "Loop Master", "🔄", .completedInRange 51 100 50⟩,
  ⟨"logic_pro", "Logic Pro", "🧠", .completedInRange 101 150 50⟩]

end Badge

end BlockPuzzle
