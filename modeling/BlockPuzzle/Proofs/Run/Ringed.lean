import BlockPuzzle.Proofs.Grid.Ringed
import BlockPuzzle.Proofs.Run.Redrawing

/-!
# Runs on boards with a ring of wall around them

## Main definitions

* `Redrawing.ringed`: the boards with the ring, and the same moves on them.

## Main statements

* `runBlocks_ringed`: no program tells the outside of a rectangle from wall.
-/

namespace BlockPuzzle

namespace Redrawing

/-- One ring of wall around the board. Directions stay what they are. -/
def ringed : Redrawing where
  position := .ringed
  turn := id
  grid := .ringed

theorem faithful_ringed {m n : Nat} (hmn : m = 0 → n = 0) : ringed.Faithful (·.Rectangle m n) :=
  faithful_of_cellAt Position.ringed_step Position.bijective_ringed
    (fun _ hg => hg.ringed hmn) (fun _ p hg => hg.cellAt_ringed hmn p)

end Redrawing

/-- The outside of a rectangle behaves as wall, wherever the run begins: with a ring of wall around
the level, every step has moved by one row and one column and shows the ring, and nothing else
changes. -/
theorem runBlocks_ringed {l : Level} {m n : Nat} (h : l.grid.Rectangle m n) (bs : List Block)
    (limits : Limits) :
    runBlocks bs (Redrawing.ringed.level l) limits =
      Redrawing.ringed.report (runBlocks bs l limits) := by
  have hid : Redrawing.ringed.Translates id := ⟨fun _ => Kind.turned_id.symm, fun _ _ => rfl⟩
  simpa using (Redrawing.faithful_ringed Grid.width_eq_zero).runBlocks_map hid h.self bs limits

/-- A row that is entered from its left end. -/
def Level.gateway : Level :=
  { grid := ⟨[[.path, .star, .goal]]⟩, start := ⟨⟨0, -1⟩, .right⟩ }

/-- A push against the outside, then on to the right. -/
def Block.intoTheRow : List Block :=
  [⟨"push", .move .up, none⟩, ⟨"three", .loop, some 3⟩, ⟨"in", .move .right, none⟩,
    ⟨"round", .endLoop, none⟩]

/-- The agent begins outside, which with the ring means on the wall, and walks in all the same. -/
theorem runBlocks_ringed_gateway :
    Level.gateway.grid.Rectangle 1 3 ∧
      ¬ Level.gateway.grid.InBounds Level.gateway.start.position ∧
      (runBlocks Block.intoTheRow Level.gateway).perfect ∧
      (runBlocks Block.intoTheRow (Redrawing.ringed.level Level.gateway)).trace.map
        (·.pose.position) = [⟨1, 0⟩, ⟨1, 0⟩, ⟨1, 1⟩, ⟨1, 2⟩, ⟨1, 3⟩] := by
  have hrectangle : Level.gateway.grid.Rectangle 1 3 := ⟨rfl, by decide⟩
  refine ⟨hrectangle, by decide, by decide, ?_⟩
  rw [runBlocks_ringed hrectangle]
  decide

end BlockPuzzle
