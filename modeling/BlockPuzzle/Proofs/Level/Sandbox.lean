import BlockPuzzle.Level.Sandbox
import BlockPuzzle.Proofs.Grid.Finding
import BlockPuzzle.Proofs.Grid.Ringed
import BlockPuzzle.Proofs.Run.Positions

/-!
# Sandbox rooms are closed

Painting only replaces inner cells, so that the wall around a room stays whatever is painted. A
start is never wall and lies inside therefore, and no program leads out.

## Main definitions

* `Sandbox.Stroke`, `Sandbox.paintAll`: a cell painted with a tool, and many of them.

## Main statements

* `Sandbox.walled_room`, `Sandbox.walled_paintAll`: rooms have a wall, and painting keeps it.
* `Sandbox.room_closed`: the wall of a painted room, its start, and where its agent can get to.
-/

namespace BlockPuzzle

namespace Sandbox

variable {g : Grid} {m n : Nat}

/-- A position and what it is painted with. -/
structure Stroke where
  position : Position
  tool : Cell
  deriving DecidableEq, Repr

/-- The grid after a stroke, which may change nothing. -/
def paint (g : Grid) (s : Stroke) : Grid := (paint? g s.position s.tool).getD g

def paintAll (g : Grid) (strokes : List Stroke) : Grid := strokes.foldl paint g

/-! ## Rooms -/

theorem clampSide_pos (k : Nat) : 1 ≤ clampSide k := Nat.le_max_left _ _

theorem inner_corner (hm : 1 ≤ m) (hn : 1 ≤ n) : Position.Inner ⟨1, 1⟩ m n := by
  simp only [Position.Inner]
  omega

/-- A room without a start and a goal. -/
def bareRoom (m n : Nat) : Grid :=
  let border := List.replicate (n + 2) Cell.wall
  ⟨border :: List.replicate m (Cell.wall :: List.replicate n .path ++ [.wall]) ++ [border]⟩

theorem room_eq (rows cols : Nat) : room rows cols =
    ((bareRoom (clampSide rows) (clampSide cols)).set ⟨1, 1⟩ .start).set
      ⟨clampSide rows, clampSide cols⟩ .goal := rfl

theorem bareRoom_eq (hm : 1 ≤ m) (n : Nat) : bareRoom m n = (Grid.filled m n .path).ringed := by
  have hwidth := (Grid.rectangle_filled m n .path).width_eq hm
  rw [Grid.ringed, hwidth]
  simp [bareRoom, Grid.filled]

theorem walled_bareRoom (hm : 1 ≤ m) (n : Nat) : (bareRoom m n).Walled m n := by
  rw [bareRoom_eq hm]
  exact (Grid.rectangle_filled m n .path).walled_ringed (by omega)

theorem walled_room (rows cols : Nat) :
    (room rows cols).Walled (clampSide rows) (clampSide cols) := by
  have hrows := clampSide_pos rows
  have hcols := clampSide_pos cols
  rw [room_eq]
  refine ((walled_bareRoom hrows _).set (inner_corner hrows hcols) .start).set ?_ .goal
  simp only [Position.Inner]
  omega

/-! ## Painting -/

/-- A stroke replaces one inner cell or changes nothing. -/
theorem paint_eq_or (h : g.Walled m n) (s : Stroke) :
    paint g s = g ∨ s.position.Inner m n ∧ ∃ x, paint g s = g.set s.position x := by
  rw [paint, paint?]
  split
  · next hinner =>
    rw [h.rectangle.height, h.rectangle.width_eq (by omega)] at hinner
    split
    · refine .inr ⟨?_, _, rfl⟩
      simp only [Position.Inner]
      omega
    · exact .inl rfl
  · exact .inl rfl

theorem walled_paint (h : g.Walled m n) (s : Stroke) :
    (paint g s).Walled m n := by
  obtain hsame | ⟨hinner, x, hset⟩ := paint_eq_or h s
  · rwa [hsame]
  · rw [hset]
    exact h.set hinner x

theorem walled_paintAll (h : g.Walled m n) (strokes : List Stroke) :
    (paintAll g strokes).Walled m n := by
  induction strokes generalizing g with
  | nil => exact h
  | cons s strokes ih => exact ih (walled_paint h s)

/-! ## The start -/

theorem isFirst_findStart (h : g.Walled m n) (hstart : ∃ p, g.get? p = some .start) :
    g.IsFirst .start (findStart g) := by
  cases hfound : g.find? .start with
  | none =>
    obtain ⟨p, hp⟩ := hstart
    exact absurd hp (h.rectangle.find?_eq_none_iff.1 hfound p)
  | some p =>
    rw [findStart, hfound, Option.getD_some]
    exact h.rectangle.isFirst_of_find? hfound

theorem findStart_of_forall_ne (h : g.Walled m n) (hnone : ∀ p, g.get? p ≠ some .start) :
    findStart g = ⟨1, 1⟩ := by
  rw [findStart, h.rectangle.find?_eq_none_iff.2 hnone, Option.getD_none]

/-- A start is never wall, and where there is none the first inner cell takes its place. -/
theorem inner_findStart (h : g.Walled m n) (hm : 1 ≤ m) (hn : 1 ≤ n) : (findStart g).Inner m n := by
  by_cases hstart : ∃ p, g.get? p = some .start
  · exact h.inner_of_get? (isFirst_findStart h hstart).holds nofun
  · rw [findStart_of_forall_ne h (not_exists.1 hstart)]
    exact inner_corner hm hn

/-- Whatever is painted in a room, it keeps its size and the wall around it. Its level starts on an
inner cell: the first start if there is one, and otherwise the first inner cell. No program leads
out of the room. -/
theorem room_closed (rows cols : Nat) (strokes : List Stroke) :
    let m := clampSide rows
    let n := clampSide cols
    let g := paintAll (room rows cols) strokes
    g.Walled m n ∧ (level g).start.position.Inner m n ∧
      ((∃ p, g.get? p = some .start) → g.IsFirst .start (level g).start.position) ∧
      ((∀ p, g.get? p ≠ some .start) → (level g).start.position = ⟨1, 1⟩) ∧
      ∀ (nodes : List Node) (limits : Limits),
        ∀ s ∈ (runNodes nodes (level g) limits).trace, s.pose.position.Inner m n := by
  intro m n g
  have hg : g.Walled m n := walled_paintAll (walled_room rows cols) strokes
  have hstart : (level g).start.position.Inner m n :=
    inner_findStart hg (clampSide_pos rows) (clampSide_pos cols)
  have hlevel : (level g).grid.Walled m n := hg
  exact ⟨hg, hstart, isFirst_findStart hg, findStart_of_forall_ne hg,
    fun nodes limits s => hlevel.inner_of_mem_trace hstart⟩

/-- The start is painted over, a stroke on the wall changes nothing, and there is a start again
further down. -/
def moved : List Stroke := [⟨⟨1, 1⟩, .start⟩, ⟨⟨0, 1⟩, .path⟩, ⟨⟨2, 1⟩, .start⟩]

/-- While there is no start, the first inner cell takes its place. -/
theorem room_closed_moved :
    (level (paintAll (room 2 3) (moved.take 2))).start.position = ⟨1, 1⟩ ∧
      (paintAll (room 2 3) moved).get? ⟨2, 1⟩ = some .start ∧
      (paintAll (room 2 3) moved).IsFirst .start
        (level (paintAll (room 2 3) moved)).start.position := by
  have hwithout := room_closed 2 3 (moved.take 2)
  have hnone : ∀ p, (paintAll (room 2 3) (moved.take 2)).get? p ≠ some .start :=
    hwithout.1.rectangle.find?_eq_none_iff.1 (by decide)
  have hstart : (paintAll (room 2 3) moved).get? ⟨2, 1⟩ = some .start := by decide
  exact ⟨hwithout.2.2.2.1 hnone, hstart, (room_closed 2 3 moved).2.2.1 ⟨_, hstart⟩⟩

end Sandbox

end BlockPuzzle
