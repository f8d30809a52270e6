import BlockPuzzle.Width

/-!
# Streaks

## Main definitions

* `Streak`: how many days in a row a level was finished.
* `Streak.touch`: the streak after a level on a day.
* `Streak.touch?`: the same by an engine that breaks off where a number has no room.
-/

namespace BlockPuzzle

structure Streak where
  count : Nat := 0
  lastDay : Option Int := none
  deriving DecidableEq, Repr

namespace Streak

/-- The same day changes nothing, the day after the last one goes on, and any other day starts
over. -/
def touch (s : Streak) (day : Int) : Streak :=
  match s.lastDay with
  | none => ⟨1, some day⟩
  | some last =>
    if last = day then s
    else if last + 1 = day then ⟨s.count + 1, some day⟩
    else ⟨1, some day⟩

/-- The streak after a level on a day, where a day takes a signed long word and the count an
unsigned word. Where the day after the last one, or the count, has no room there is none. -/
def touch? (s : Streak) (day : Int) : Except Overflow Streak :=
  match s.lastDay with
  | none => return s.touch day
  | some last =>
    if last = day then return s
    else if Width.long.intMax < last + 1 ∨ Width.word.size ≤ (s.touch day).count then throw .add
    else return s.touch day

theorem lastDay_touch (s : Streak) (day : Int) : (s.touch day).lastDay = some day := by
  unfold touch
  split
  · rfl
  · split
    · simp_all
    · split <;> rfl

theorem touch_of_lastDay {s : Streak} {day : Int} (h : s.lastDay = some day) : s.touch day = s := by
  simp [touch, h]

@[simp] theorem touch_touch (s : Streak) (day : Int) : (s.touch day).touch day = s.touch day :=
  touch_of_lastDay (lastDay_touch s day)

end Streak

end BlockPuzzle
