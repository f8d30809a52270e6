import BlockPuzzle.Grid.Basic

/-!
# Steps and limits of a run

## Main definitions

* `Limits`, `RunError`: how much a run may do, and which limit ended it.
* `Action`, `Step`: what happened, and the board right after it.
-/

namespace BlockPuzzle

/-- How many moves a run may make and how deep its bodies may lie inside each other. -/
structure Limits where
  maxSteps : Nat := 500
  maxDepth : Nat := 20
  deriving DecidableEq, Repr

inductive RunError where
  | tooManySteps
  | tooMuchNesting
  deriving DecidableEq, Repr

namespace RunError

def message : RunError → String
  | .tooManySteps => "Too many steps! Simplify your code."
  | .tooMuchNesting => "Too much nesting"

def ofMessage? (s : String) : Option RunError :=
  [tooManySteps, tooMuchNesting].find? fun e => e.message == s

@[simp] theorem ofMessage?_message (e : RunError) : ofMessage? e.message = some e := by
  cases e <;> decide

end RunError

inductive Action where
  /-- Nothing yet: the board before the first block. -/
  | start
  /-- A move that was stopped. -/
  | bump
  | move (d : Direction)
  deriving DecidableEq, Repr

namespace Action

def all : List Action := [.start, .bump, .move .up, .move .down, .move .left, .move .right]

def name : Action → String
  | .start => "start"
  | .bump => "bump"
  | .move .up => "move_up"
  | .move .right => "move_right"
  | .move .down => "move_down"
  | .move .left => "move_left"

def ofName? (s : String) : Option Action := all.find? fun a => a.name == s

@[simp] theorem ofName?_name (a : Action) : ofName? a.name = some a := by
  cases a with
  | move d => cases d <;> decide
  | _ => decide

end Action

/-- The board right after an action, with the stars and gems collected up to then. -/
structure Step where
  pose : Pose
  grid : Grid
  stars : Nat
  gems : Nat
  action : Action
  deriving DecidableEq, Repr

end BlockPuzzle
