import BlockPuzzle.Proofs.Run.Redrawing
import Mathlib.Data.List.Forall2

/-!
# What a run looks at

Of its blocks a run sees the kinds and the counts of the loops, and of its level the grid and the
pose at the start. Blocks that differ in anything else are as good as each other, which is shown by
stripping them: runs are the same with what is left of the blocks.

## Main definitions

* `Block.Alike`: blocks that no run tells apart.
* `Block.bare`: a block stripped of what no run looks at.

## Main statements

* `runBlocks_map_bare`: the report of the stripped blocks.
* `runBlocks_alike`: replacing blocks commutes with the making of the tree, and alike programs have
  the same report on levels with the same grid and start.
-/

namespace BlockPuzzle

namespace Block

theorem count_eq (b : Block) : b.count = (b.param.filter (0 < ·)).getD 2 := by
  unfold count
  cases b.param with
  | none => rfl
  | some n => cases n <;> simp [Kind.defaultCount, Option.filter]

/-- The kinds agree, and so do the numbers of rounds if these are loops: what is given if it is more
than zero, and two otherwise. -/
structure Alike (b c : Block) : Prop where
  kind : b.kind = c.kind
  rounds : b.kind = .loop → (b.param.filter (0 < ·)).getD 2 = (c.param.filter (0 < ·)).getD 2

/-- The block without a name, and with a number only if it is a loop. -/
def bare (b : Block) : Block := ⟨"", b.kind, if b.kind = .loop then some b.count else none⟩

theorem count_bare {b : Block} (hb : b.kind = .loop) : b.bare.count = b.count := by
  rw [count_eq b.bare]
  simp [bare, hb, Option.filter, b.count_pos]

theorem Alike.bare_eq {b c : Block} (h : b.Alike c) : b.bare = c.bare := by
  have hkind := h.kind
  by_cases hb : b.kind = .loop
  · have hcount : b.count = c.count := by rw [count_eq, count_eq, h.rounds hb]
    simp [bare, ← hkind, hb, hcount]
  · simp [bare, ← hkind, hb]

end Block

namespace Redrawing

/-- Every board as it is. -/
def same : Redrawing := ⟨id, id, id⟩

theorem faithful_same : same.Faithful fun _ => True where
  position_step _ _ := rfl
  cellAt_grid _ _ _ := rfl
  grid_set _ _ _ _ := rfl
  count_grid _ _ _ _ := rfl
  fits_set _ _ _ := trivial

theorem report_same (r : Report) : same.report r = r := by
  have hstep : same.step = id := by
    funext s
    cases s with
    | mk pose grid stars gems action => cases action <;> rfl
  rw [report, hstep, List.map_id]

end Redrawing

theorem runBlocks_map_bare (bs : List Block) (l : Level) (limits : Limits) :
    runBlocks (bs.map Block.bare) l limits = runBlocks bs l limits := by
  have hbare : Redrawing.same.Translates Block.bare :=
    ⟨fun _ => Kind.turned_id.symm, fun _ => Block.count_bare⟩
  exact (Redrawing.faithful_same.runBlocks_map hbare trivial bs limits).trans
    (Redrawing.report_same _)

theorem runBlocks_congr_level (bs : List Block) {l l' : Level} (hgrid : l.grid = l'.grid)
    (hstart : l.start = l'.start) (limits : Limits) :
    runBlocks bs l limits = runBlocks bs l' limits := by
  simp only [runBlocks, runNodes, Run.ofNodes_eq, Run.begin, hgrid, hstart]

/-- Only kinds, counts, grid and start matter. A tree of replaced blocks is the tree with its blocks
replaced, for every replacement that keeps the kinds. Programs whose blocks are alike have the same
report on levels that differ in neither grid nor start. -/
theorem runBlocks_alike :
    (∀ f : Block → Block, (∀ b, (f b).kind = b.kind) →
      ∀ bs, Node.ofBlocks (bs.map f) = (Node.ofBlocks bs).map (Node.map f)) ∧
    ∀ (bs cs : List Block) (l l' : Level) (limits : Limits), List.Forall₂ Block.Alike bs cs →
      l.grid = l'.grid → l.start = l'.start → runBlocks bs l limits = runBlocks cs l' limits := by
  constructor
  · intro f hf bs
    have hturned (b : Block) : (f b).kind = b.kind.turned id := (hf b).trans Kind.turned_id.symm
    rw [Node.ofBlocks_map hturned, Node.mapAll_eq]
  · intro bs cs l l' limits halike hgrid hstart
    have hbare : bs.map Block.bare = cs.map Block.bare := by
      induction halike with
      | nil => rfl
      | cons h _ ih => rw [List.map_cons, List.map_cons, h.bare_eq, ih]
    calc runBlocks bs l limits
        = runBlocks (bs.map Block.bare) l limits := (runBlocks_map_bare bs l limits).symm
      _ = runBlocks (cs.map Block.bare) l limits := by rw [hbare]
      _ = runBlocks cs l limits := runBlocks_map_bare cs l limits
      _ = runBlocks cs l' limits := runBlocks_congr_level cs hgrid hstart limits

/-- A star on the way to the goal. -/
def Level.row : Level := { grid := ⟨[[.path, .star, .goal]]⟩, start := ⟨⟨0, 0⟩, .right⟩ }

/-- A step to the right in a loop, all under one name. -/
def Block.onAndOn (id : String) (rounds others : Option Nat) : List Block :=
  [⟨id, .loop, rounds⟩, ⟨id, .move .right, others⟩, ⟨id, .endLoop, others⟩]

def Block.named (id : String) (b : Block) : Block := { b with id := id }

/-- A loop without a number and one with a zero both go round twice. -/
theorem runBlocks_alike_onAndOn :
    List.Forall₂ Block.Alike (Block.onAndOn "a" none none)
        (Block.onAndOn "b" (some 0) (some 7)) ∧
      (runBlocks (Block.onAndOn "a" none none) Level.row).perfect ∧
      runBlocks (Block.onAndOn "a" none none) Level.row =
        runBlocks (Block.onAndOn "b" (some 0) (some 7)) { Level.row with title := "Row" } ∧
      Node.ofBlocks ((Block.onAndOn "a" none none).map (.named "c")) =
        (Node.ofBlocks (Block.onAndOn "a" none none)).map (.map (.named "c")) := by
  have halike : List.Forall₂ Block.Alike (Block.onAndOn "a" none none)
      (Block.onAndOn "b" (some 0) (some 7)) :=
    .cons ⟨rfl, fun _ => by decide⟩ (.cons ⟨rfl, nofun⟩ (.cons ⟨rfl, nofun⟩ .nil))
  obtain ⟨htree, hruns⟩ := runBlocks_alike
  exact ⟨halike, by decide, hruns _ _ _ _ {} halike rfl rfl, htree (.named "c") (fun _ => rfl) _⟩

end BlockPuzzle
