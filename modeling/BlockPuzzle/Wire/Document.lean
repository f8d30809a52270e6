import BlockPuzzle.Json.Reader
import BlockPuzzle.Json.Writer
import BlockPuzzle.Wire.Fields

/-!
# Taking values out of texts

## Main definitions

* `Decoder.ofText`: the value that a text holds.
-/

namespace BlockPuzzle

/-- The value of a text. What stands behind it is looked at last. -/
def Decoder.ofText {α : Type} (d : Decoder α) (s : String) : Except Fault α := do
  let document := Json.read s
  let a ← d document.value
  if document.complete then return a else throw .malformed

end BlockPuzzle
