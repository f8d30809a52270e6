import BlockPuzzle.Proofs.Run.Moving
import BlockPuzzle.Proofs.Run.Reaches
import BlockPuzzle.Run.Report
import Mathlib.Data.List.Chain

/-!
# The trace of a run

A trace is a walk on the board. It begins with the board as the level shows it, and every later step
is a move onto a walkable neighbour or a bump.

## Main definitions

* `Step.Moves`, `Step.Bumps`, `Step.Follows`: how one step comes out of the one before.
* `Step.EntersGoal`: a move that ended on a goal.
* `Run.Sound`: what holds of the history of a run at any time.
* `Report.Plays`: a report whose trace is a walk on a level and whose counters are those of the
  walk.

## Main statements

* `Run.sound_ofNodes`: the run of every program tree has a sound history.
* `runNodes_plays`: every report is that of a walk on the level.
-/

namespace BlockPuzzle

namespace Step

/-- A move in direction `d`, with what lay at its end picked up. -/
structure Moves (d : Direction) (s s' : Step) : Prop where
  action : s'.action = .move d
  pose : s'.pose = { s.pose with position := s.pose.position.step d }
  walkable : s.grid.walkable s'.pose.position
  grid : s'.grid = if (s.grid.cellAt s'.pose.position).collectible
    then s.grid.set s'.pose.position .path else s.grid
  stars : s'.stars = s.stars + if s.grid.cellAt s'.pose.position = .star then 1 else 0
  gems : s'.gems = s.gems + if s.grid.cellAt s'.pose.position = .gem then 1 else 0

/-- Nothing changes when a move is stopped. -/
structure Bumps (s s' : Step) : Prop where
  action : s'.action = .bump
  pose : s'.pose = s.pose
  grid : s'.grid = s.grid
  stars : s'.stars = s.stars
  gems : s'.gems = s.gems
  blocked : ∃ d, ¬ s.grid.walkable (s.pose.position.step d)

inductive Follows (s s' : Step) : Prop where
  | move (d : Direction) : Moves d s s' → Follows s s'
  | bump : Bumps s s' → Follows s s'

/-- A move that ended on a goal. -/
def EntersGoal (s : Step) : Prop :=
  (∃ d, s.action = .move d) ∧ s.grid.cellAt s.pose.position = .goal

/-- The board as the level shows it. -/
def first (l : Level) : Step := ⟨l.start, l.grid, 0, 0, .start⟩

variable {s s' : Step} {steps : List Step}

theorem Follows.action_ne_start (h : s.Follows s') : s'.action ≠ .start := by
  cases h with
  | move d h => rw [h.action]; simp
  | bump h => rw [h.action]; simp

theorem exists_follows_of_mem_tail (h : steps.IsChain Follows) (hs : s' ∈ steps.tail) :
    ∃ s ∈ steps, s.Follows s' := by
  obtain ⟨k, hk, rfl⟩ := List.getElem_of_mem hs
  rw [List.length_tail] at hk
  refine ⟨steps[k], List.getElem_mem _, ?_⟩
  rw [List.getElem_tail]
  exact List.isChain_iff_getElem.1 h k (by omega)

end Step

/-! ## The invariant -/

namespace Run

/-- The history ends with what the run shows now, and the goal was reached if some step says so. -/
structure Sound (l : Level) (r : Run) : Prop where
  latest : ∃ a, r.history.head? = some (r.shown a)
  first : r.history.getLast? = some (Step.first l)
  chain : r.history.IsChain fun s' s => s.Follows s'
  facing : ∀ s ∈ r.history, s.pose.facing = l.start.facing
  reachedGoal : r.reachedGoal ↔ ∃ s ∈ r.history, s.EntersGoal

variable {l : Level} {limits : Limits} {r r' : Run} {a : Action} {d : Direction}

theorem sound_begin (l : Level) : Sound l (Run.begin l) where
  latest := ⟨.start, rfl⟩
  first := rfl
  chain := List.isChain_singleton _
  facing := by simp [Run.begin, shown]
  reachedGoal := by simp [Run.begin, record, Step.EntersGoal]

theorem Sound.facing_eq (h : Sound l r) : r.pose.facing = l.start.facing := by
  obtain ⟨a, hlatest⟩ := h.latest
  exact h.facing _ (List.mem_of_mem_head? hlatest)

theorem Sound.fail (h : Sound l r) (e : RunError) : Sound l (r.fail e) where
  latest := h.latest
  first := h.first
  chain := h.chain
  facing := h.facing
  reachedGoal := h.reachedGoal

/-- A history may be extended by a step that follows what the run shows. -/
theorem Sound.extend (h : Sound l r) (hhistory : r'.history = r'.shown a :: r.history)
    (hfollows : ∀ b, (r.shown b).Follows (r'.shown a)) (hfacing : r'.pose.facing = r.pose.facing)
    (hgoal : r'.reachedGoal ↔ r.reachedGoal ∨ (r'.shown a).EntersGoal) : Sound l r' := by
  obtain ⟨b, hlatest⟩ := h.latest
  obtain ⟨past, hpast⟩ := List.head?_eq_some_iff.1 hlatest
  refine ⟨⟨a, by rw [hhistory]; rfl⟩, ?_, ?_, ?_, ?_⟩
  · rw [hhistory, List.getLast?_cons, h.first]; rfl
  · rw [hhistory, hpast, List.isChain_cons_cons]
    exact ⟨hfollows b, hpast ▸ h.chain⟩
  · rw [hhistory, List.forall_mem_cons]
    exact ⟨hfacing.trans h.facing_eq, h.facing⟩
  · rw [hhistory, hgoal, h.reachedGoal, List.exists_mem_cons_iff]
    exact or_comm

theorem moves_of_walkable (h : r.grid.walkable (r.pose.position.step d)) (b : Action) :
    (r.shown b).Moves d ((r.move d).shown (.move d)) := by
  rw [move_of_walkable h]
  exact ⟨rfl, rfl, h, rfl, rfl, rfl⟩

theorem bumps_of_not_walkable (h : ¬ r.grid.walkable (r.pose.position.step d)) (b : Action) :
    (r.shown b).Bumps ((r.move d).shown .bump) := by
  rw [move_of_not_walkable h]
  exact ⟨rfl, rfl, rfl, rfl, rfl, d, h⟩

/-- Picking up neither makes a goal nor takes one away. -/
theorem cellAt_arrive (r : Run) (p : Position) :
    (r.arrive p).grid.cellAt p = .goal ↔ r.grid.cellAt p = .goal := by
  by_cases h : (r.grid.cellAt p).collectible
  · have hne : r.grid.cellAt p ≠ .goal := by
      intro hx
      simp [hx, Cell.collectible] at h
    simp [arrive, h, Grid.cellAt_set_path h, hne]
  · simp [arrive, h]

theorem reachedGoal_arrive (r : Run) (p : Position) :
    (r.arrive p).reachedGoal ↔ r.reachedGoal ∨ (r.arrive p).grid.cellAt p = .goal := by
  rw [cellAt_arrive]
  simp [arrive]

theorem entersGoal_shown (r : Run) (d : Direction) :
    (r.shown (.move d)).EntersGoal ↔ r.grid.cellAt r.pose.position = .goal :=
  ⟨And.right, fun h => ⟨⟨d, rfl⟩, h⟩⟩

theorem Sound.move (h : Sound l r) (d : Direction) : Sound l (r.move d) := by
  by_cases hd : r.grid.walkable (r.pose.position.step d)
  · refine h.extend (by rw [move_of_walkable hd]; rfl) (fun b => .move d (moves_of_walkable hd b))
      (by rw [move_of_walkable hd]; rfl) ?_
    rw [move_of_walkable hd, entersGoal_shown]
    exact reachedGoal_arrive r (r.pose.position.step d)
  · refine h.extend (by rw [move_of_not_walkable hd]; rfl)
      (fun b => .bump (bumps_of_not_walkable hd b)) (by rw [move_of_not_walkable hd]; rfl) ?_
    rw [move_of_not_walkable hd]
    simp [Step.EntersGoal, record, shown]

theorem Sound.reaches (hr : Sound l r) (h : Reaches limits r r') : Sound l r' := by
  induction h with
  | refl => exact hr
  | move d _ _ _ ih => exact ih.move d
  | tooManySteps _ _ _ ih => exact ih.fail .tooManySteps
  | tooMuchNesting _ _ _ ih => exact ih.fail .tooMuchNesting

theorem sound_ofNodes (limits : Limits) (nodes : List Node) (l : Level) :
    Sound l (Run.ofNodes limits nodes l) :=
  (sound_begin l).reaches (reaches_ofNodes limits nodes l)

end Run

/-! ## The report -/

/-- The trace is a walk on the level, and the counters are those of the walk. -/
structure Report.Plays (l : Level) (r : Report) : Prop where
  first : r.trace.head? = some (Step.first l)
  chain : r.trace.IsChain Step.Follows
  later : ∀ s ∈ r.trace.tail, s.action ≠ .start
  facing : ∀ s ∈ r.trace, s.pose.facing = l.start.facing
  last : ∃ s, r.trace.getLast? = some s ∧ r.stars = s.stars ∧ r.gems = s.gems
  reachedGoal : r.reachedGoal ↔ ∃ s ∈ r.trace, s.EntersGoal

theorem Run.Sound.plays {l : Level} {r : Run} (h : Sound l r) (g : Grid) :
    (Report.ofTally g r.tally).Plays l := by
  have hchain : r.history.reverse.IsChain Step.Follows := List.isChain_reverse.2 h.chain
  obtain ⟨a, hlatest⟩ := h.latest
  refine ⟨?_, hchain, ?_, ?_, ?_, ?_⟩
  · exact (List.head?_reverse).trans h.first
  · intro s hs
    obtain ⟨s₀, -, hfollows⟩ := Step.exists_follows_of_mem_tail hchain hs
    exact hfollows.action_ne_start
  · intro s hs
    exact h.facing s (List.mem_reverse.1 hs)
  · exact ⟨r.shown a, (List.getLast?_reverse).trans hlatest, rfl, rfl⟩
  · rw [Report.ofTally, Run.tally, h.reachedGoal]
    simp

/-- Every report is that of a walk on the level, wherever and for whatever reason the run ended. -/
theorem runNodes_plays (nodes : List Node) (l : Level) (limits : Limits) :
    (runNodes nodes l limits).Plays l :=
  (Run.sound_ofNodes limits nodes l).plays l.grid

end BlockPuzzle
