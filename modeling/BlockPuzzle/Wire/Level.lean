import BlockPuzzle.Level.Basic
import BlockPuzzle.Wire.Board
import BlockPuzzle.Wire.Program

/-!
# Levels in JSON

Only the grid and the position of the start have to be given.
-/

namespace BlockPuzzle.Level

def members (l : Level) : List (String × Json) :=
  [("id", .ofNat l.id), ("world_id", .ofNat l.world), ("title", .text l.title),
    ("grid", l.grid.toJson), ("start_row", .int l.start.position.row),
    ("start_col", .int l.start.position.col), ("start_dir", l.start.facing.toJson),
    ("available_blocks", .list (l.palette.map Kind.toJson)),
    ("optimal_steps", .ofNat l.optimalSteps), ("hint", .text l.hint)]

def toJson (l : Level) : Json := .object l.members

def fields : Fields Level :=
  Fields.pure (fun id world title grid row col facing palette optimalSteps hint =>
      { id, world, title, grid, start := ⟨⟨row, col⟩, facing⟩, palette, optimalSteps, hint })
    |>.also (.default "id" (Decoder.nat .word) 0)
    |>.also (.default "world_id" (Decoder.nat .word) 0)
    |>.also (.default "title" Decoder.text "")
    |>.also (.required "grid" Grid.ofJson)
    |>.also (.required "start_row" (Decoder.signed .word))
    |>.also (.required "start_col" (Decoder.signed .word))
    |>.also (.default "start_dir" Direction.ofJson .right)
    |>.also (.default "available_blocks" (Decoder.list Kind.ofJson) [])
    |>.also (.default "optimal_steps" (Decoder.nat .word) 0)
    |>.also (.default "hint" Decoder.text "")

def ofJson : Decoder Level := fields.decode

end BlockPuzzle.Level
