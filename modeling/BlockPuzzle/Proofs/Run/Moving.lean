import BlockPuzzle.Proofs.Grid.Cleared
import BlockPuzzle.Run.State

/-!
# What a move does

## Main definitions

* `Run.shown`: the step that a state records.
* `Run.arrive`: the state of an agent that has come to a position.

## Main statements

* `Run.move_of_walkable`, `Run.move_of_not_walkable`: a move is an arrival or a bump.
-/

namespace BlockPuzzle

namespace Run

/-- The state as a step that ended with `a`. -/
def shown (r : Run) (a : Action) : Step := ⟨r.pose, r.grid, r.stars, r.gems, a⟩

/-- The run whose agent has come to `p` and has picked up what lay there. -/
def arrive (r : Run) (p : Position) : Run :=
  { r with
    pose.position := p
    grid := if (r.grid.cellAt p).collectible then r.grid.set p .path else r.grid
    stars := r.stars + if r.grid.cellAt p = .star then 1 else 0
    gems := r.gems + if r.grid.cellAt p = .gem then 1 else 0
    reachedGoal := r.reachedGoal || r.grid.cellAt p == .goal }

variable {r : Run} {d : Direction}

@[simp] theorem history_record (r : Run) (a : Action) :
    (r.record a).history = r.shown a :: r.history := rfl

/-- The goal is looked for after picking up, and picking up does not hide it. -/
theorem checkGoal_collect (r : Run) (p : Position) :
    { r with pose.position := p }.collect.checkGoal = r.arrive p := by
  by_cases h : (r.grid.cellAt p).collectible
  · have hpath := Grid.cellAt_set_path h
    obtain hx | hx : r.grid.cellAt p = .star ∨ r.grid.cellAt p = .gem := by
      cases hx : r.grid.cellAt p <;> simp_all [Cell.collectible]
    all_goals
      simp [collect, checkGoal, arrive, Grid.take?, Cell.collectible, hx, hpath]
      rfl
  · have hstar : r.grid.cellAt p ≠ .star := by
      intro hx
      exact h (by rw [hx]; rfl)
    have hgem : r.grid.cellAt p ≠ .gem := by
      intro hx
      exact h (by rw [hx]; rfl)
    simp [collect, checkGoal, arrive, Grid.take?, h, hstar, hgem]

theorem move_of_walkable (h : r.grid.walkable (r.pose.position.step d)) :
    r.move d =
      { r.arrive (r.pose.position.step d) with steps := r.steps + 1 }.record (.move d) := by
  have harrive := checkGoal_collect { r with steps := r.steps + 1 } (r.pose.position.step d)
  simp only [move, h, if_true]
  exact congrArg (·.record (.move d)) harrive

theorem move_of_not_walkable (h : ¬ r.grid.walkable (r.pose.position.step d)) :
    r.move d = { r with steps := r.steps + 1 }.record .bump := by
  simp only [move, if_neg h]

theorem steps_move (r : Run) (d : Direction) : (r.move d).steps = r.steps + 1 := by
  by_cases h : r.grid.walkable (r.pose.position.step d)
  · rw [move_of_walkable h]; rfl
  · rw [move_of_not_walkable h]; rfl

theorem error_move (r : Run) (d : Direction) : (r.move d).error = r.error := by
  by_cases h : r.grid.walkable (r.pose.position.step d)
  · rw [move_of_walkable h]; rfl
  · rw [move_of_not_walkable h]; rfl

/-- A move adds one step to the history. -/
theorem exists_history_move (r : Run) (d : Direction) :
    ∃ s, (r.move d).history = s :: r.history := by
  by_cases h : r.grid.walkable (r.pose.position.step d)
  · rw [move_of_walkable h]
    exact ⟨_, rfl⟩
  · rw [move_of_not_walkable h]
    exact ⟨_, rfl⟩

theorem length_history_move (r : Run) (d : Direction) :
    (r.move d).history.length = r.history.length + 1 := by
  obtain ⟨s, hs⟩ := exists_history_move r d
  rw [hs, List.length_cons]

end Run

end BlockPuzzle
