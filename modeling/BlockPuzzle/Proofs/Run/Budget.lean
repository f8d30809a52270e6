import BlockPuzzle.Proofs.Run.Moving
import BlockPuzzle.Proofs.Run.Reaches
import BlockPuzzle.Run.Report
import BlockPuzzle.Width

/-!
# The step budget

The number of steps is looked at before a block and not after it, so that a run may make one step
more than it is allowed, and no other.

## Main definitions

* `Run.Budget`: what holds of the steps of a run at any time.

## Main statements

* `Run.budget_ofNodes`: the run of every program tree keeps to the budget.
* `runNodes_budget`: how many steps a report counts, and how many under each error.
-/

namespace BlockPuzzle

namespace Run

/-- A run has made one step too many at most, and exactly one where it was stopped for that. -/
structure Budget (limits : Limits) (r : Run) : Prop where
  length_history : r.history.length = r.steps + 1
  steps_le : r.steps ≤ limits.maxSteps + 1
  tooManySteps : r.error = some .tooManySteps → r.steps = limits.maxSteps + 1
  tooMuchNesting : r.error = some .tooMuchNesting → r.steps ≤ limits.maxSteps

variable {limits : Limits} {r r' : Run}

theorem error_fail_of_none (h : r.error = none) (e : RunError) : (r.fail e).error = some e := by
  simp [fail, h]

theorem budget_begin (limits : Limits) (l : Level) : Budget limits (Run.begin l) where
  length_history := rfl
  steps_le := Nat.zero_le _
  tooManySteps h := by cases h
  tooMuchNesting h := by cases h

theorem Budget.move (h : Budget limits r) (herror : r.error = none)
    (hsteps : r.steps ≤ limits.maxSteps) (d : Direction) : Budget limits (r.move d) where
  length_history := by rw [length_history_move, steps_move, h.length_history]
  steps_le := by rw [steps_move]; omega
  tooManySteps he := by rw [error_move, herror] at he; cases he
  tooMuchNesting he := by rw [error_move, herror] at he; cases he

/-- The only excess there can be is one step. -/
theorem Budget.fail_tooManySteps (h : Budget limits r) (herror : r.error = none)
    (hsteps : limits.maxSteps < r.steps) : Budget limits (r.fail .tooManySteps) where
  length_history := h.length_history
  steps_le := h.steps_le
  tooManySteps _ := Nat.le_antisymm h.steps_le hsteps
  tooMuchNesting he := by rw [error_fail_of_none herror] at he; cases he

theorem Budget.fail_tooMuchNesting (h : Budget limits r) (herror : r.error = none)
    (hsteps : r.steps ≤ limits.maxSteps) : Budget limits (r.fail .tooMuchNesting) where
  length_history := h.length_history
  steps_le := h.steps_le
  tooManySteps he := by rw [error_fail_of_none herror] at he; cases he
  tooMuchNesting _ := hsteps

theorem Budget.reaches (hr : Budget limits r) (h : Reaches limits r r') : Budget limits r' := by
  induction h with
  | refl => exact hr
  | move d _ herror hsteps ih => exact ih.move herror hsteps d
  | tooManySteps _ herror hsteps ih => exact ih.fail_tooManySteps herror hsteps
  | tooMuchNesting _ herror hsteps ih => exact ih.fail_tooMuchNesting herror hsteps

theorem budget_ofNodes (limits : Limits) (nodes : List Node) (l : Level) :
    Budget limits (Run.ofNodes limits nodes l) :=
  (budget_begin limits l).reaches (reaches_ofNodes limits nodes l)

end Run

/-- The trace shows every step that was counted, and the count has room in a word. It is one more
than allowed where the steps ran out, and at most what is allowed where the nesting was too deep. -/
theorem runNodes_budget (nodes : List Node) (l : Level) (limits : Limits)
    (hlimits : limits.maxSteps + 1 < Width.word.size) :
    (runNodes nodes l limits).trace.length = (runNodes nodes l limits).totalSteps + 1 ∧
      (runNodes nodes l limits).totalSteps ≤ limits.maxSteps + 1 ∧
      (runNodes nodes l limits).totalSteps < Width.word.size ∧
      ((runNodes nodes l limits).error = some .tooManySteps →
        (runNodes nodes l limits).totalSteps = limits.maxSteps + 1) ∧
      ((runNodes nodes l limits).error = some .tooMuchNesting →
        (runNodes nodes l limits).totalSteps ≤ limits.maxSteps) := by
  have h := Run.budget_ofNodes limits nodes l
  have hle := h.steps_le
  refine ⟨?_, hle, ?_, h.tooManySteps, h.tooMuchNesting⟩
  · exact (List.length_reverse).trans h.length_history
  · exact Nat.lt_of_le_of_lt hle hlimits

/-- An agent that faces a wall. -/
def Level.corner : Level := { grid := ⟨[[.wall, .path]]⟩, start := ⟨⟨0, 1⟩, .left⟩ }

/-- Six pushes against what is on the left. -/
def Node.pushes : List Node :=
  [⟨⟨"six", .loop, some 6⟩, [Node.leaf ⟨"push", .move .left, none⟩], none⟩]

/-- Where four pushes are allowed, the sixth is the one that is not made. -/
theorem runNodes_budget_pushes :
    (runNodes Node.pushes Level.corner { maxSteps := 4 }).error = some .tooManySteps ∧
      (runNodes Node.pushes Level.corner { maxSteps := 4 }).totalSteps = 5 := by
  have herror : (runNodes Node.pushes Level.corner { maxSteps := 4 }).error =
      some .tooManySteps := by decide
  obtain ⟨-, -, -, hsteps, -⟩ :=
    runNodes_budget Node.pushes Level.corner { maxSteps := 4 } (by decide)
  exact ⟨herror, hsteps herror⟩

end BlockPuzzle
