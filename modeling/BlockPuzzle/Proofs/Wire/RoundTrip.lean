import BlockPuzzle.Proofs.Wire.Board
import BlockPuzzle.Proofs.Wire.Program

/-!
# Texts are read back

## Main statements

* `ofText_write_toJson`: what is written for a level, for blocks, for nodes or for a report is read
  as the value that it was written for.
-/

namespace BlockPuzzle

/-- What is written for a level, a list of blocks, a list of nodes or a report is read as the value
that it was written for. The numbers have to fit into the words that are written for them, and no
more than 63 nodes may lie inside each other, which takes up all the nesting that a text may
have. -/
theorem ofText_write_toJson {l : Level} {bs : List Block} {ns : List Node} {r : Report}
    (hl : l.Fits) (hbs : ∀ b ∈ bs, b.Fits) (hns : ∀ b ∈ Node.preorderAll ns, b.Fits)
    (hlevels : Node.levelsAll ns ≤ 63) (hr : r.Fits) :
    Decoder.ofText Level.ofJson l.toJson.write = .ok l ∧
      Decoder.ofText Block.listOfJson (Json.list (bs.map Block.toJson)).write = .ok bs ∧
      Decoder.ofText Node.forestOfJson (Json.list (Node.listToJson ns)).write = .ok ns ∧
      Decoder.ofText Report.ofJson r.toJson.write = .ok r := by
  refine ⟨?_, ?_, ?_, ?_⟩
  · rw [Decoder.ofText_write (Level.complete_toJson hl 124)]
    exact Level.ofJson_toJson hl
  · rw [Decoder.ofText_write (.list_map fun b hb => Block.complete_toJson (hbs b hb) 125)]
    exact Decoder.list_map fun b hb => Block.ofJson_toJson (hbs b hb)
  · rw [Decoder.ofText_write (.list (Node.complete_listToJson ns 63 hns hlevels))]
    exact Node.ofItems_listToJson ns hns
  · rw [Decoder.ofText_write (Report.complete_toJson hr 122)]
    exact Report.ofJson_toJson hr

/-- A level with the greatest numbers, rows of different lengths and a title that is full of
escapes. -/
def Level.utmost : Level where
  grid := ⟨[[.start, .gem], []]⟩
  start := ⟨⟨-2147483648, 2147483647⟩, .left⟩
  id := 4294967295
  world := 0
  title := "\"\\/\n\t\x00\x1f\x7f ä☃😀"
  palette := [.unknown, .branch .onStar]
  optimalSteps := 4294967295
  hint := ""

/-- Loops inside each other around a marker that has bodies of its own, one of them empty. -/
def Node.around : Nat → List Node
  | 0 => [⟨⟨"\x08", .endLoop, some 255⟩, [.leaf ⟨"", .unknown, none⟩], some []⟩]
  | n + 1 => [⟨⟨"loop", .loop, some 0⟩, around n, none⟩]

/-- A report that no run gives. -/
def Report.utmost : Report where
  trace := [⟨Level.utmost.start, Level.utmost.grid, 4294967295, 0, .bump⟩]
  reachedGoal := true
  stars := 0
  gems := 4294967295
  totalStars := 4294967295
  totalGems := 0
  totalSteps := 1
  error := some .tooMuchNesting
  perfect := false

/-- The bounds are sharp, and nodes need not be those of a program. -/
theorem ofText_write_toJson_utmost :
    Node.levelsAll (Node.around 61) = 63 ∧
      Decoder.ofText Level.ofJson Level.utmost.toJson.write = .ok Level.utmost ∧
      Decoder.ofText Block.listOfJson
        (Json.list ((Node.preorderAll (Node.around 61)).map Block.toJson)).write =
          .ok (Node.preorderAll (Node.around 61)) ∧
      Decoder.ofText Node.forestOfJson (Json.list (Node.listToJson (Node.around 61))).write =
        .ok (Node.around 61) ∧
      Decoder.ofText Report.ofJson Report.utmost.toJson.write = .ok Report.utmost := by
  have hstart : Level.utmost.start.Fits := ⟨by decide, by decide⟩
  have hstep : ∀ s ∈ Report.utmost.trace, s.Fits :=
    List.forall_mem_singleton.2 ⟨hstart, by decide, by decide⟩
  have hblocks : ∀ b ∈ Node.preorderAll (Node.around 61), b.Fits := by decide +kernel
  have hlevels : Node.levelsAll (Node.around 61) = 63 := by decide +kernel
  exact ⟨hlevels, ofText_write_toJson ⟨by decide, by decide, hstart, by decide⟩ hblocks hblocks
    hlevels.le ⟨hstep, by decide, by decide, by decide, by decide, by decide⟩⟩

end BlockPuzzle
