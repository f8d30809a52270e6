import BlockPuzzle.Proofs.Game.Editing
import BlockPuzzle.Proofs.Program.Openers
import BlockPuzzle.Proofs.Run.Nesting

/-!
# Programs of a session are never nested too deep

A program has room for twenty blocks, and a run may go twenty bodies deep. Nothing nests deeper than
there are openers, so the room runs out before the depth does.

## Main statements

* `Session.limits_editAll`: no edit touches the limits.
* `Session.run_editAll_shallow`: the depth of a program after any edits, and its runs.
-/

namespace BlockPuzzle

namespace Session

variable {s t : Session} {new : List String}

theorem Change.limits_eq (h : Change s new t) : t.limits = s.limits := by
  cases h <;> rfl

theorem limits_editAll (s : Session) (es : List Edit) : (s.editAll es).limits = s.limits := by
  induction es generalizing s with
  | nil => rfl
  | cons e es ih => exact (ih (s.edit e)).trans (change_edit s e).limits_eq

theorem Opened.limits_eq (h : Opened s) : s.limits = {} := by
  cases h with
  | new l => rfl
  | forLevel h =>
    obtain ⟨l, -, h⟩ := exists_of_bind_eq_ok h
    cases h
    rfl
  | sandbox g => rfl

/-- After any edits no node of the program is deeper than there are openers in the list, whether
these are closed or not, and no run ends for its nesting. -/
theorem run_editAll_shallow (h : Opened s) (es : List Edit) :
    let t := s.editAll es
    (∀ n ∈ Node.partsAll (Node.ofBlocks t.blocks), n.depth ≤ Block.openers t.blocks) ∧
      t.run.error ≠ some .tooMuchNesting := by
  intro t
  have hdepth : ∀ n ∈ Node.partsAll (Node.ofBlocks t.blocks), n.depth ≤ Block.openers t.blocks :=
    fun n hn => Node.depth_le_openers hn
  refine ⟨hdepth, ?_⟩
  have hlength : t.blocks.length ≤ maxBlocks := (sound_editAll (sound_opened h) es).length_le
  have hlimits : t.limits = {} := (limits_editAll s es).trans h.limits_eq
  have hnesting : Node.nestingAll (Node.ofBlocks t.blocks) ≤ t.limits.maxDepth := by
    rw [hlimits, Node.nestingAll_le_iff_depth]
    intro n hn
    calc n.depth
      _ ≤ Block.openers t.blocks := hdepth n (Node.mem_partsAll_of_mem hn)
      _ ≤ t.blocks.length := Block.openers_le_length _
      _ ≤ 20 := hlength
  exact Node.shallow_ofNodes hnesting t.level

/-- As many loops as there is room for, none of them closed. -/
def Edit.allLoops : List Edit := List.replicate 20 (.add .loop)

/-- Both limits are reached, and neither is broken. -/
theorem run_editAll_shallow_allLoops :
    Opened inSmallRoom ∧ (inSmallRoom.editAll Edit.allLoops).isFull ∧
      Node.nestingAll (Node.ofBlocks (inSmallRoom.editAll Edit.allLoops).blocks) = 20 ∧
      (inSmallRoom.editAll Edit.allLoops).run.error ≠ some .tooMuchNesting := by
  have hs : Opened inSmallRoom := .sandbox _
  obtain ⟨-, hrun⟩ := run_editAll_shallow hs Edit.allLoops
  exact ⟨hs, by decide +kernel, by decide +kernel, hrun⟩

end Session

end BlockPuzzle
