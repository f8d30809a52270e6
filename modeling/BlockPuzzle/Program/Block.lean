import BlockPuzzle.Direction

/-!
# Blocks

A program is written as a flat list of blocks. Loops and branches are opened and closed by blocks of
their own.

## Main definitions

* `Predicate`: what a branch asks.
* `Kind`: the instruction of a block.
* `Block`: an instruction with its identifier and its repeat count.
-/

namespace BlockPuzzle

/-- The question of a branch. -/
inductive Predicate where
  /-- The cell in front of the agent stops a move. -/
  | wallAhead
  /-- The cell in front of the agent can be entered. -/
  | pathAhead
  /-- The agent stands on a star. -/
  | onStar
  deriving DecidableEq, Repr

namespace Predicate

def all : List Predicate := [.wallAhead, .pathAhead, .onStar]

def name : Predicate → String
  | .wallAhead => "wall_ahead"
  | .pathAhead => "path_ahead"
  | .onStar => "on_star"

def ofName? (s : String) : Option Predicate := all.find? fun p => p.name == s

@[simp] theorem ofName?_name (p : Predicate) : ofName? p.name = some p := by
  cases p <;> decide

end Predicate

inductive Kind where
  /-- One step in a direction of the board, whatever the agent faces. -/
  | move (d : Direction)
  | loop
  | endLoop
  | branch (p : Predicate)
  | otherwise
  | endBranch
  /-- An instruction that is not known; it does nothing. -/
  | unknown
  deriving DecidableEq, Repr

namespace Kind

/-- All kinds that have a name of their own. -/
def known : List Kind :=
  [.move .up, .move .down, .move .left, .move .right, .loop, .endLoop, .branch .wallAhead,
    .branch .pathAhead, .branch .onStar, .otherwise, .endBranch]

def name : Kind → String
  | .move .up => "move_up"
  | .move .right => "move_right"
  | .move .down => "move_down"
  | .move .left => "move_left"
  | .loop => "repeat"
  | .endLoop => "end_repeat"
  | .branch .wallAhead => "if_wall"
  | .branch .pathAhead => "if_path"
  | .branch .onStar => "if_star"
  | .otherwise => "else"
  | .endBranch => "end_if"
  | .unknown => "unknown"

/-- Every name that is not known names the unknown kind. -/
def ofName (s : String) : Kind := (known.find? fun k => k.name == s).getD .unknown

def direction? : Kind → Option Direction
  | .move d => some d
  | _ => none

def predicate? : Kind → Option Predicate
  | .branch p => some p
  | _ => none

/-- Loops and branches open a body. -/
def isOpener : Kind → Bool
  | .loop | .branch _ => true
  | _ => false

/-- Blocks that mean something only within a body. -/
def isMarker : Kind → Bool
  | .endLoop | .otherwise | .endBranch => true
  | _ => false

/-- Only loops have a number to edit. -/
def hasParam : Kind → Bool
  | .loop => true
  | _ => false

/-- How often a loop without a usable count runs its body. -/
def defaultCount : Nat := 2

/-- The number that a new block starts with. -/
def defaultParam? (k : Kind) : Option Nat := if k.hasParam then some defaultCount else none

@[simp] theorem ofName_name (k : Kind) : ofName k.name = k := by
  cases k with
  | move d => cases d <;> decide
  | branch p => cases p <;> decide
  | _ => decide

end Kind

structure Block where
  id : String
  kind : Kind
  param : Option Nat := none
  deriving DecidableEq, Repr

/-- How often a loop block runs its body: its number, unless that is missing or zero. -/
def Block.count (b : Block) : Nat :=
  match b.param with
  | some (n + 1) => n + 1
  | _ => Kind.defaultCount

theorem Block.count_pos (b : Block) : 0 < b.count := by
  unfold count Kind.defaultCount; split <;> omega

end BlockPuzzle
