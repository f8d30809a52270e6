import BlockPuzzle.Grid.Basic

/-!
# Carving

A walk that never crosses itself is cut into solid wall. It takes its turns, and what lies on its
way, from a random source, which may be any state that yields numbers.

## Main definitions

* `Carving`: the grid, the way so far and the random source.
* `Carving.advance`: one step of the walk, where there is room for one.
* `Carving.walk`: a number of steps.
-/

namespace BlockPuzzle

/-- A walk being carved, with a random source of states `σ`. -/
structure Carving (σ : Type) where
  grid : Grid
  here : Position
  /-- The positions visited, latest first. -/
  route : List Position
  source : σ
  deriving Repr

namespace Carving

variable {σ : Type}

/-- The order in which the directions of a step are numbered. -/
def turns : List Direction := [.right, .down, .left, .up]

/-- The positions that a maze with sides of `size` may use; the border around them stays wall. -/
def inside (size : Nat) (p : Position) : Bool :=
  1 ≤ p.row && p.row ≤ size && 1 ≤ p.col && p.col ≤ size

/-- Solid wall but for the start. -/
def begin (size : Nat) (source : σ) : Carving σ :=
  let start : Position := ⟨1, 1⟩
  { grid := (Grid.filled (size + 2) (size + 2) .wall).set start .start, here := start,
    route := [start], source }

/-- The directions in which the walk meets wall that it may carve. -/
def openTurns (size : Nat) (c : Carving σ) : List Direction :=
  turns.filter fun d => inside size (c.here.step d) && c.grid.get? (c.here.step d) == some .wall

/-- What a number leaves on the way in the maze number `index` of its world. Gems come in after the
third maze, stars after the sixth. -/
def cellFor (index roll : Nat) : Cell :=
  if roll < 2 ∧ 2 < index then .gem
  else if roll < 3 ∧ 5 < index then .star
  else .path

/-- One step; nothing where the walk has shut itself in. -/
def advance (next : σ → Nat × σ) (index size : Nat) (c : Carving σ) : Option (Carving σ) :=
  let (turn, source) := next c.source
  (c.openTurns size)[turn % (c.openTurns size).length]?.map fun d =>
    let (roll, source) := next source
    let there := c.here.step d
    { grid := c.grid.set there (cellFor index (roll % 10))
      here := there
      route := there :: c.route
      source }

/-- At most `n` steps. -/
def walk (next : σ → Nat × σ) (index size : Nat) : Nat → Carving σ → Carving σ
  | 0, c => c
  | n + 1, c =>
    match c.advance next index size with
    | none => c
    | some c => walk next index size n c

end Carving

end BlockPuzzle
