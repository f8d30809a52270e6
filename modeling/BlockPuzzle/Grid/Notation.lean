import BlockPuzzle.Grid.Basic
import BlockPuzzle.Text.Blank

/-!
# Maps

A map is a grid in text: one line a row, one symbol a cell. Blank lines and the blanks around a line
do not count, and rows and columns are numbered from zero in what remains.

## Main definitions

* `Grid.parse`: the grid of a map, or the first fault in it.
* `Grid.render`: the map of a grid.
-/

namespace BlockPuzzle

/-- Why a text is no map. -/
inductive GridError where
  | empty
  | ragged (row expected found : Nat)
  | unknownSymbol (symbol : Char) (row col : Nat)
  deriving DecidableEq, Repr

def GridError.message : GridError → String
  | .empty => "grid has no rows"
  | .ragged row expected found => s!"row {row} has {found} cells, expected {expected}"
  | .unknownSymbol symbol row col => s!"unknown cell symbol '{symbol}' at {row}:{col}"

namespace Grid

/-- The lines of a map that hold a row, without the blanks around them. -/
def mapRows (s : List Char) : List (List Char) :=
  ((Text.lines s).map Text.trim).filter (· ≠ [])

/-- Cells of row `row` from column `col` on. -/
def parseRow (row col : Nat) : List Char → Except GridError (List Cell)
  | [] => .ok []
  | c :: cs =>
    match Cell.ofSymbol? c with
    | none => .error (.unknownSymbol c row col)
    | some x => (parseRow row (col + 1) cs).map (x :: ·)

/-- Rows from number `row` on, where the first row of the map has `width` cells if it is read. -/
def parseRows (width : Option Nat) (row : Nat) :
    List (List Char) → Except GridError (List (List Cell))
  | [] => .ok []
  | l :: ls => do
    let cells ← parseRow row 0 l
    let expected := width.getD cells.length
    if cells.length = expected then
      let rest ← parseRows (some expected) (row + 1) ls
      return cells :: rest
    else
      throw (.ragged row expected cells.length)

def parse (map : String) : Except GridError Grid := do
  match mapRows map.toList with
  | [] => throw .empty
  | ls => return ⟨← parseRows none 0 ls⟩

def render (g : Grid) : String :=
  "\n".intercalate (g.rows.map fun row => String.ofList (row.map Cell.symbol))

end Grid

end BlockPuzzle
