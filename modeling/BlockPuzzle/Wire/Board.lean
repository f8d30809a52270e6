import BlockPuzzle.Grid.Basic
import BlockPuzzle.Wire.Fields

/-!
# Cells, grids and poses in JSON

A cell is written by its name, a grid as the list of its rows, a direction by its number, and a pose
as a record of row, column and direction.
-/

namespace BlockPuzzle

def Cell.toJson (x : Cell) : Json := .text x.name

def Cell.ofJson : Decoder Cell := Decoder.lookup Cell.ofName? (Decoder.tag false)

def Grid.toJson (g : Grid) : Json := .list (g.rows.map fun row => .list (row.map Cell.toJson))

def Grid.ofJson (j : Json) : Except Fault Grid :=
  (Decoder.list (Decoder.list Cell.ofJson) j).map .mk

namespace Direction

/-- The direction with the given number. -/
def ofIndex (n : Nat) : Except Fault Direction :=
  match ofIndex? n with
  | some d => .ok d
  | none => .error (.invalidDirection n)

def toJson (d : Direction) : Json := .ofNat d.index

def ofJson (j : Json) : Except Fault Direction := do ofIndex (← Decoder.nat .byte j)

end Direction

namespace Pose

def members (a : Pose) : List (String × Json) :=
  [("row", .int a.position.row), ("col", .int a.position.col), ("dir", a.facing.toJson)]

def toJson (a : Pose) : Json := .object a.members

def fields : Fields Pose :=
  Fields.pure (fun row col facing => ⟨⟨row, col⟩, facing⟩)
    |>.also (.required "row" (Decoder.signed .word))
    |>.also (.required "col" (Decoder.signed .word))
    |>.also (.required "dir" Direction.ofJson)

def ofJson : Decoder Pose := fields.decode

end Pose

end BlockPuzzle
