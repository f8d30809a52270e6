/-!
# Directions, positions and poses

Rows grow downwards and columns to the right. Positions are signed, so that a position outside every
grid is a value like any other.

## Main definitions

* `Direction`: one of the four compass directions on the board.
* `Position.step`: the neighbouring position in a direction.
* `Pose`: a position together with a facing direction.
-/

namespace BlockPuzzle

inductive Direction where
  | up | right | down | left
  deriving DecidableEq, Repr

namespace Direction

/-- The number of a direction, clockwise from `up`. -/
def index : Direction → Nat
  | .up => 0
  | .right => 1
  | .down => 2
  | .left => 3

def ofIndex? : Nat → Option Direction
  | 0 => some .up
  | 1 => some .right
  | 2 => some .down
  | 3 => some .left
  | _ => none

/-- The change of row and column by one step. -/
def offset : Direction → Int × Int
  | .up => (-1, 0)
  | .right => (0, 1)
  | .down => (1, 0)
  | .left => (0, -1)

def turnLeft : Direction → Direction
  | .up => .left
  | .right => .up
  | .down => .right
  | .left => .down

def turnRight : Direction → Direction
  | .up => .right
  | .right => .down
  | .down => .left
  | .left => .up

/-- The end of the name of a move in this direction. -/
def name : Direction → String
  | .up => "up"
  | .right => "right"
  | .down => "down"
  | .left => "left"

/-- All directions, in the order in which a palette shows them. -/
def palette : List Direction := [.up, .down, .left, .right]

@[simp] theorem ofIndex?_index (d : Direction) : ofIndex? d.index = some d := by
  cases d <;> rfl

@[simp] theorem turnLeft_turnRight (d : Direction) : d.turnRight.turnLeft = d := by
  cases d <;> rfl

@[simp] theorem turnRight_turnLeft (d : Direction) : d.turnLeft.turnRight = d := by
  cases d <;> rfl

theorem index_turnRight (d : Direction) : d.turnRight.index = (d.index + 1) % 4 := by
  cases d <;> rfl

theorem index_turnLeft (d : Direction) : d.turnLeft.index = (d.index + 3) % 4 := by
  cases d <;> rfl

end Direction

structure Position where
  row : Int
  col : Int
  deriving DecidableEq, Repr

/-- The neighbour of `p` in direction `d`. -/
def Position.step (p : Position) (d : Direction) : Position :=
  ⟨p.row + d.offset.1, p.col + d.offset.2⟩

/-- The direction of the single step from `p` to `q`, if one step leads there. -/
def Position.directionTo? (p q : Position) : Option Direction :=
  Direction.palette.find? fun d => p.step d == q

theorem Position.directionTo?_step (p : Position) (d : Direction) :
    p.directionTo? (p.step d) = some d := by
  cases d <;> simp only [directionTo?, step, Direction.palette, Direction.offset,
    List.find?_cons] <;> grind

/-- Where the agent stands and where it looks. Moving does not turn it. -/
structure Pose where
  position : Position
  facing : Direction
  deriving DecidableEq, Repr

/-- The position that the agent looks at. -/
def Pose.ahead (a : Pose) : Position := a.position.step a.facing

end BlockPuzzle
