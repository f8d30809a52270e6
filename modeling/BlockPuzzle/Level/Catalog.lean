import BlockPuzzle.Level.Catalog.Desert
import BlockPuzzle.Level.Catalog.Grasslands
import BlockPuzzle.Level.Catalog.Ocean

/-!
# The catalog

## Main definitions

* `Catalog.entries`: the drawn levels, in the order of their numbers from 1 on.
* `Catalog.level?`: the level with a number.
-/

namespace BlockPuzzle.Catalog

def entries : List Entry := grasslands ++ ocean ++ desert

/-- The drawn level number `id`; nothing outside the catalog. -/
def level? : Nat → Option (Except GridError Level)
  | 0 => none
  | n + 1 => entries[n]?.map Entry.level

def levels : Except GridError (List Level) := entries.mapM Entry.level

theorem map_id_entries : entries.map Entry.id = List.range' 1 75 := by decide

end BlockPuzzle.Catalog
