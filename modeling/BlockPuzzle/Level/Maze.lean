import BlockPuzzle.Level.Basic
import BlockPuzzle.Level.Maze.Carving
import BlockPuzzle.Level.Maze.Random
import BlockPuzzle.Level.World

/-!
# Mazes

## Main definitions

* `Maze`: a level with the walk that carved it.
* `Maze.carve`: the maze that a random source gives.
* `Maze.generate?`: the maze of a level.
-/

namespace BlockPuzzle

structure Maze where
  level : Level
  /-- The positions of the walk, from the start to the goal. -/
  route : List Position
  deriving DecidableEq, Repr

namespace Maze

def hints : List String := [
  "Use arrows to navigate!", "Plan your route first!", "Collect all diamonds!",
  "Try using repeat!", "Watch out for walls!", "Think step by step!", "Combine arrows wisely!",
  "Use repeat for patterns!"]

/-- The side of maze number `index` of its world, without the border. -/
def side (index : Nat) : Nat := min (4 + index / 4) 8

/-- How many steps the walk of maze number `index` tries. -/
def effort (index : Nat) : Nat := (index / 5 + 3) * 2 + index

/-- Turns a plain path into a gem. -/
def seedGem (g : Grid) (p : Option Position) : Grid :=
  match p with
  | some p => if g.get? p = some .path then g.set p .gem else g
  | none => g

/-- The gems that later mazes have on their way in any case. -/
def seedGems (index : Nat) (route : List Position) (g : Grid) : Grid :=
  let g := if 2 < index then seedGem g route[route.length / 2]? else g
  if 6 < index then seedGem g route[route.length / 4]? else g

/-- Maze number `index` of the world `w`, drawn from a random source. -/
def carve {σ : Type} (next : σ → Nat × σ) (source : σ) (w : World) (index : Nat) : Maze :=
  let c := (Carving.begin (side index) source).walk next index (side index) (effort index)
  let route := c.route.reverse
  let level : Level :=
    { grid := seedGems index route (c.grid.set c.here .goal)
      start := ⟨⟨1, 1⟩, .right⟩
      id := w.firstLevel + index
      world := w.id
      title := w.title index
      palette := w.palette
      optimalSteps := max (route.length - 1) 2
      hint := hints.getD ((next c.source).1 % hints.length) "" }
  { level, route }

/-- Maze number `index` of the world `w`. -/
def ofWorld (w : World) (index : Nat) : Maze :=
  carve Congruential.draw (Congruential.seed (w.firstLevel + index) w.id) w index

/-- The maze of a level; nothing where the level is no maze. -/
def generate? (level : Nat) : Option Maze :=
  (World.find? level).map fun w => ofWorld w (level - w.firstLevel)

/-- The levels of a world of mazes; none for other worlds. -/
def levelsOf (world : Nat) : List Level :=
  (World.all.filter fun w => w.id == world).flatMap fun w =>
    (List.range World.size).map fun i => (ofWorld w i).level

/-- The moves along a list of positions. -/
def movesAlong : List Position → List Kind
  | p :: q :: rest => ((p.directionTo? q).map Kind.move).toList ++ movesAlong (q :: rest)
  | _ => []

/-- The walk as a program: from the start to the goal, over all that is to be collected. -/
def solution (m : Maze) : List Kind := movesAlong m.route

end Maze

end BlockPuzzle
