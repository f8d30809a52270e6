import BlockPuzzle.Proofs.Grid.Symmetry
import BlockPuzzle.Proofs.Run.Redrawing

/-!
# Runs on mirrored and transposed boards

On a rectangle, exchanging left and right, or rows and columns, in the level and in the moves of a
program does nothing to a run but show it on the other board.

## Main definitions

* `Redrawing.mirrored`, `Redrawing.transposed`: the two exchanges.

## Main statements

* `runBlocks_symmetry`: the reports on the other boards.
-/

namespace BlockPuzzle

namespace Redrawing

/-- Left and right exchanged on boards with as many columns as given. -/
def mirrored (width : Nat) : Redrawing where
  position := .mirrored width
  turn := .mirrored
  grid := .mirrored

/-- Rows and columns exchanged. -/
def transposed : Redrawing where
  position := .transposed
  turn := .transposed
  grid := .transposed

theorem faithful_mirrored (m n : Nat) : (mirrored n).Faithful (·.Rectangle m n) :=
  faithful_of_cellAt (Position.mirrored_step n) (Position.involutive_mirrored n).bijective
    (fun _ hg => hg.mirrored) (fun _ p hg => hg.cellAt_mirrored p)

theorem faithful_transposed {m n : Nat} (hmn : m = 0 → n = 0) :
    transposed.Faithful (·.Rectangle m n) :=
  faithful_of_cellAt Position.transposed_step Position.involutive_transposed.bijective
    (fun _ hg => hg.transposed hmn) (fun _ p hg => hg.cellAt_transposed hmn p)

end Redrawing

/-- A program with its moves mirrored or transposed has, on the level so redrawn, the report of the
program with every step redrawn. Counters, flags and error stay the same. -/
theorem runBlocks_symmetry {l : Level} {m n : Nat} (h : l.grid.Rectangle m n) (bs : List Block)
    (limits : Limits) :
    runBlocks (bs.map (Redrawing.mirrored l.grid.width).block)
        ((Redrawing.mirrored l.grid.width).level l) limits =
      (Redrawing.mirrored l.grid.width).report (runBlocks bs l limits) ∧
    runBlocks (bs.map Redrawing.transposed.block) (Redrawing.transposed.level l) limits =
      Redrawing.transposed.report (runBlocks bs l limits) := by
  have hmirrored : (Redrawing.mirrored l.grid.width).Faithful
      (·.Rectangle l.grid.height l.grid.width) := Redrawing.faithful_mirrored _ _
  have htransposed : Redrawing.transposed.Faithful
      (·.Rectangle l.grid.height l.grid.width) := Redrawing.faithful_transposed Grid.width_eq_zero
  constructor
  · exact hmirrored.runBlocks_map (Redrawing.translates_block _) h.self bs limits
  · exact htransposed.runBlocks_map (Redrawing.translates_block _) h.self bs limits

/-- A corridor to the right with the goal below its end. -/
def Level.bend : Level :=
  { grid := ⟨[[.path, .gem, .star], [.wall, .water, .goal]]⟩, start := ⟨⟨0, 0⟩, .right⟩ }

/-- Three times to the right where that is free, and down otherwise. -/
def Block.roundTheBend : List Block :=
  [⟨"three", .loop, some 3⟩, ⟨"free", .branch .pathAhead, none⟩, ⟨"on", .move .right, none⟩,
    ⟨"else", .otherwise, none⟩, ⟨"turn", .move .down, none⟩, ⟨"end", .endBranch, none⟩,
    ⟨"round", .endLoop, none⟩]

/-- On the transposed level the corridor leads down, and the same moves turned collect
everything. -/
theorem runBlocks_symmetry_bend :
    Level.bend.grid.Rectangle 2 3 ∧ (runBlocks Block.roundTheBend Level.bend).perfect ∧
      (runBlocks (Block.roundTheBend.map (Redrawing.mirrored 3).block)
        ((Redrawing.mirrored 3).level Level.bend)).trace.map (·.pose.position) =
          [⟨0, 2⟩, ⟨0, 1⟩, ⟨0, 0⟩, ⟨1, 0⟩] ∧
      (runBlocks (Block.roundTheBend.map Redrawing.transposed.block)
        (Redrawing.transposed.level Level.bend)).trace.map (·.pose.position) =
          [⟨0, 0⟩, ⟨1, 0⟩, ⟨2, 0⟩, ⟨2, 1⟩] := by
  have hrectangle : Level.bend.grid.Rectangle 2 3 := ⟨rfl, by decide⟩
  obtain ⟨hmirrored, htransposed⟩ := runBlocks_symmetry hrectangle Block.roundTheBend {}
  refine ⟨hrectangle, by decide, ?_, ?_⟩
  · refine (congrArg (·.trace.map (·.pose.position)) hmirrored).trans ?_
    decide
  · refine (congrArg (·.trace.map (·.pose.position)) htransposed).trans ?_
    decide

end BlockPuzzle
