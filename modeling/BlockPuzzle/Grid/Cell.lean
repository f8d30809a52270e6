/-!
# Cells

## Main definitions

* `Cell`: what one tile of the board holds.
* `Cell.walkable`, `Cell.collectible`: how the agent meets a cell.
* `Cell.symbol`, `Cell.ofSymbol?`: the character of a cell on a map.
-/

namespace BlockPuzzle

inductive Cell where
  | path | wall | star | gem | water | lava | goal | start
  deriving DecidableEq, Repr

namespace Cell

def all : List Cell := [.path, .wall, .star, .gem, .water, .lava, .goal, .start]

/-- Walls, water and lava stop a move. -/
def walkable : Cell → Bool
  | .wall | .water | .lava => false
  | _ => true

/-- Stars and gems turn into path when the agent enters them. -/
def collectible : Cell → Bool
  | .star | .gem => true
  | _ => false

def symbol : Cell → Char
  | .path => '.'
  | .wall => '#'
  | .star => '*'
  | .gem => '$'
  | .water => '~'
  | .lava => '^'
  | .goal => 'G'
  | .start => 'S'

def name : Cell → String
  | .path => "path"
  | .wall => "wall"
  | .star => "star"
  | .gem => "gem"
  | .water => "water"
  | .lava => "lava"
  | .goal => "goal"
  | .start => "start"

/-- The byte that stands for a cell in the fingerprint of a run. -/
def code : Cell → UInt8
  | .path => 0
  | .wall => 1
  | .star => 2
  | .gem => 3
  | .water => 4
  | .lava => 5
  | .goal => 6
  | .start => 7

def ofSymbol? (c : Char) : Option Cell := all.find? fun x => x.symbol == c

def ofName? (s : String) : Option Cell := all.find? fun x => x.name == s

@[simp] theorem ofSymbol?_symbol (x : Cell) : ofSymbol? x.symbol = some x := by
  cases x <;> decide

@[simp] theorem ofName?_name (x : Cell) : ofName? x.name = some x := by
  cases x <;> decide

theorem symbol_of_ofSymbol? {c : Char} {x : Cell} (h : ofSymbol? c = some x) : x.symbol = c := by
  simpa using List.find?_some h

theorem code_injective {x y : Cell} (h : x.code = y.code) : x = y := by
  cases x <;> cases y <;> first | rfl | exact absurd h (by decide)

end Cell

end BlockPuzzle
