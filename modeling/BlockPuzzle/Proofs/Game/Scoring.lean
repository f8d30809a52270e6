import BlockPuzzle.Game.Rating
import BlockPuzzle.Proofs.Run.Collecting

/-!
# Scores and the last board

A score is computed from counters and from totals that are counted elsewhere. What was collected and
what is left make up what there was, so that the score says what the boards of the trace show:
whether a goal was entered, and what still lies on the last board.

## Main definitions

* `Report.EnteredGoal`: some move ended on a goal.
* `Report.Agrees`: the flags of a report say what its last board shows.
* `Report.Scored`: the score of a report, read off its trace.

## Main statements

* `exists_agrees_runNodes`: the flags of every run agree with its last board.
* `runNodes_scored`: so does the score.
-/

namespace BlockPuzzle

namespace Report

/-- Some move of the run ended on a goal. -/
def EnteredGoal (r : Report) : Prop := ∃ s ∈ r.trace, s.EntersGoal

/-- The board of `s` is the last one, and the flags of the report say what it shows. -/
structure Agrees (r : Report) (s : Step) : Prop where
  last : r.last? = some s
  reachedGoal : r.reachedGoal ↔ r.EnteredGoal
  allStars : r.allStars ↔ s.grid.count .star = 0
  perfect : r.perfect ↔ r.reachedGoal ∧ s.grid.count .star = 0 ∧ s.grid.count .gem = 0

/-- What a run scores, if its last board is that of `s`. A finished level is scored without regard
to what ended the run. -/
structure Scored (r : Report) (s : Step) : Prop where
  last : r.last? = some s
  perfect : r.perfect ↔ r.EnteredGoal ∧ s.grid.count .star = 0 ∧ s.grid.count .gem = 0
  none : r.rating = 0 ↔ ¬ r.EnteredGoal
  one : r.rating = 1 ↔ r.EnteredGoal ∧ s.grid.count .star ≠ 0
  two : r.rating = 2 ↔ r.EnteredGoal ∧ s.grid.count .star = 0 ∧ s.grid.count .gem ≠ 0
  three : r.rating = 3 ↔ r.perfect
  finished : ∀ level, (r.outcome? level).isSome ↔ r.EnteredGoal
  outcome : ∀ level, ∀ o ∈ r.outcome? level,
    o = ⟨level, r.rating, r.perfect⟩ ∧ 1 ≤ o.stars ∧ o.stars ≤ 3 ∧ (o.stars = 3 ↔ o.perfect)

variable {r : Report} {s : Step}

theorem rating_of_not_reachedGoal (h : ¬ r.reachedGoal) : r.rating = 0 := if_neg h

theorem rating_of_reachedGoal (h : r.reachedGoal) :
    r.rating = 1 + r.allStars.toNat + r.perfect.toNat := if_pos h

/-- The four ratings, by the last board. -/
theorem Agrees.rating_eq (h : r.Agrees s) :
    (¬ r.EnteredGoal ∧ r.perfect = false ∧ r.rating = 0) ∨
      (r.EnteredGoal ∧ s.grid.count .star ≠ 0 ∧ r.perfect = false ∧ r.rating = 1) ∨
      (r.EnteredGoal ∧ s.grid.count .star = 0 ∧ s.grid.count .gem ≠ 0 ∧ r.perfect = false ∧
        r.rating = 2) ∨
      (r.EnteredGoal ∧ s.grid.count .star = 0 ∧ s.grid.count .gem = 0 ∧ r.perfect ∧
        r.rating = 3) := by
  obtain ⟨-, hgoal, hstars, hperfect⟩ := h
  by_cases hg : r.reachedGoal
  · have hrating := rating_of_reachedGoal hg
    by_cases hs : s.grid.count .star = 0
    · by_cases hgem : s.grid.count .gem = 0
      · right; right; right
        simp_all
      · right; right; left
        simp_all
    · right; left
      simp_all
  · left
    have hrating := rating_of_not_reachedGoal hg
    simp_all

theorem Agrees.scored (h : r.Agrees s) : r.Scored s := by
  have hrating := h.rating_eq
  have hsome (level : Nat) : (r.outcome? level).isSome ↔ r.EnteredGoal := by
    rw [← h.reachedGoal, outcome?]
    split <;> simp_all
  refine ⟨h.last, ?_, by grind, by grind, by grind, by grind, hsome, ?_⟩
  · rw [h.perfect, h.reachedGoal]
  · intro level o ho
    have hentered : r.EnteredGoal := (hsome level).1 (Option.isSome_of_mem ho)
    obtain rfl : ⟨level, r.rating, r.perfect⟩ = o := by
      rw [outcome?, if_pos (h.reachedGoal.2 hentered)] at ho
      exact Option.some.inj ho
    grind

end Report

/-- What there was to collect is what was collected and what lies on the last board. -/
theorem exists_last_runNodes (nodes : List Node) (l : Level) (limits : Limits) :
    ∃ s, (runNodes nodes l limits).last? = some s ∧
      s.grid.count .star + (runNodes nodes l limits).stars = l.grid.count .star ∧
      s.grid.count .gem + (runNodes nodes l limits).gems = l.grid.count .gem := by
  have hplays := (Run.sound_ofNodes limits nodes l).plays l.grid
  obtain ⟨s, hlast, hstars, hgems⟩ := hplays.last
  rw [List.getLast?_eq_getElem?] at hlast
  have haccounts := Step.accounts_of_chain hplays.first hplays.chain hlast
  refine ⟨s, (List.getLast?_eq_getElem?).trans hlast, ?_, ?_⟩
  · exact hstars ▸ haccounts.count .star nofun
  · exact hgems ▸ haccounts.count .gem nofun

theorem exists_agrees_runNodes (nodes : List Node) (l : Level) (limits : Limits) :
    ∃ s, (runNodes nodes l limits).Agrees s := by
  obtain ⟨s, hlast, hstars, hgems⟩ := exists_last_runNodes nodes l limits
  have hplays := (Run.sound_ofNodes limits nodes l).plays l.grid
  refine ⟨s, hlast, hplays.reachedGoal, ?_, ?_⟩
  · have htotal : (runNodes nodes l limits).totalStars = l.grid.count .star := rfl
    rw [Report.allStars, beq_iff_eq, htotal]
    omega
  · have hperfect : (runNodes nodes l limits).perfect =
        ((runNodes nodes l limits).reachedGoal &&
          (runNodes nodes l limits).stars == l.grid.count .star &&
          (runNodes nodes l limits).gems == l.grid.count .gem) := rfl
    rw [hperfect, Bool.and_eq_true, Bool.and_eq_true, beq_iff_eq, beq_iff_eq, and_assoc]
    refine and_congr_right fun _ => and_congr ?_ ?_ <;> omega

/-- Every run scores by what its boards show: nothing unless a move ended on a goal, one for that,
two if no star is left on the last board, and three if no gem is left either, which is a perfect
run. The outcome is there where the goal was entered, with one to three stars. -/
theorem runNodes_scored (nodes : List Node) (l : Level) (limits : Limits) :
    ∃ s, (runNodes nodes l limits).Scored s := by
  obtain ⟨s, hagrees⟩ := exists_agrees_runNodes nodes l limits
  exact ⟨s, hagrees.scored⟩

end BlockPuzzle
