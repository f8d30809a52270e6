import BlockPuzzle.Proofs.Run.Checked
import BlockPuzzle.Proofs.Run.Positions

/-!
# Where positions have room

A run computes the neighbours of the start and of cells that can be walked on, and of no other
positions. On a grid with fewer than 2^31 rows and columns the neighbours of its cells have room in
signed words of 32 bits. The start may lie anywhere, and at the edge of the range its neighbour
beyond it has no room.

## Main definitions

* `Position.Inside`: the positions all of whose neighbours have room.
* `Level.HasRoom`: the levels on which no run breaks off.

## Main statements

* `Run.exists_step_of_mem_targets`: the positions that a run computes.
* `runNodes?_of_hasRoom`: the report of every run on a level that has room is the exact one.
-/

namespace BlockPuzzle

/-! ## Neighbours -/

/-- The position and all its neighbours have room in signed words. -/
def Position.Inside (p : Position) : Prop :=
  (Width.word.intMin < p.row ∧ p.row < Width.word.intMax) ∧
    Width.word.intMin < p.col ∧ p.col < Width.word.intMax

instance (p : Position) : Decidable p.Inside := inferInstanceAs (Decidable ((_ ∧ _) ∧ _ ∧ _))

/-- The grid is no larger than a signed word can count, and the start does not lie at the edge of
the range. -/
structure Level.HasRoom (l : Level) : Prop where
  height : l.grid.height ≤ Width.word.intMax
  width : l.grid.width ≤ Width.word.intMax
  start : l.start.position.Inside

theorem Position.Inside.inRange_step {p : Position} (h : p.Inside) (d : Direction) :
    (p.step d).InRange := by
  simp only [Inside, Width.intMin_word, Width.intMax_word] at h
  cases d <;> simp only [InRange, Width.HasRoom, Width.intMin_word, Width.intMax_word, step,
    Direction.offset] <;> omega

theorem Grid.inside_of_walkable {g : Grid} {p : Position} (hheight : g.height ≤ Width.word.intMax)
    (hwidth : g.width ≤ Width.word.intMax) (h : g.walkable p) : p.Inside := by
  have hin : g.InBounds p := inBounds_of_get? (get?_of_walkable h)
  obtain ⟨hrow, hcol, hheight', hwidth'⟩ := hin
  simp only [Position.Inside, Width.intMin_word, Width.intMax_word] at *
  omega

/-! ## Runs -/

theorem Node.exists_step_of_target? {n : Node} {r : Run} {p : Position}
    (h : n.target? r = some p) : ∃ d, r.pose.position.step d = p := by
  unfold target? at h
  split at h
  · exact ⟨_, Option.some.inj h⟩
  · exact ⟨_, Option.some.inj h⟩
  · exact ⟨_, Option.some.inj h⟩
  · cases h

namespace Run

variable {limits : Limits} {nodes : List Node} {l : Level} {r : Run} {p : Position}

/-- The agent stands where it started or where it can walk on the level. -/
theorem Sound.position_eq_or_walkable (h : Sound l r) :
    r.pose.position = l.start.position ∨ l.grid.walkable r.pose.position := by
  obtain ⟨a, hlatest⟩ := h.latest
  have hplays := h.plays l.grid
  have hlast : (Report.ofTally l.grid r.tally).trace.getLast? = some (r.shown a) :=
    (List.getLast?_reverse).trans hlatest
  rw [List.getLast?_eq_getElem?] at hlast
  exact Step.position_of_chain hplays.first hplays.chain hlast

/-- A run computes neighbours of the start and of cells that can be walked on. -/
theorem exists_step_of_mem_targets (hp : p ∈ targets limits nodes l) :
    ∃ q d, q.step d = p ∧ (q = l.start.position ∨ l.grid.walkable q) := by
  obtain ⟨c, hc, hp⟩ := List.mem_filterMap.1 hp
  obtain ⟨d, hd⟩ := Node.exists_step_of_target? hp
  have hsound : Sound l c.2 := (sound_begin l).reaches (reaches_of_mem_calls hc)
  exact ⟨c.2.pose.position, d, hd, hsound.position_eq_or_walkable⟩

theorem inRange_or_of_mem_targets (hheight : l.grid.height ≤ Width.word.intMax)
    (hwidth : l.grid.width ≤ Width.word.intMax) (hp : p ∈ targets limits nodes l) :
    p.InRange ∨ ∃ d, l.start.position.step d = p := by
  obtain ⟨q, d, rfl, rfl | hwalkable⟩ := exists_step_of_mem_targets hp
  · exact .inr ⟨d, rfl⟩
  · exact .inl ((Grid.inside_of_walkable hheight hwidth hwalkable).inRange_step d)

theorem inRange_of_mem_targets (h : l.HasRoom) (hp : p ∈ targets limits nodes l) : p.InRange := by
  obtain hrange | ⟨d, rfl⟩ := inRange_or_of_mem_targets h.height h.width hp
  · exact hrange
  · exact h.start.inRange_step d

end Run

/-- On a level that has room every run has a report, and it is the exact one. -/
theorem runNodes?_of_hasRoom {l : Level} (h : l.HasRoom) (nodes : List Node) (limits : Limits) :
    runNodes? nodes l limits = .ok (runNodes nodes l limits) :=
  runNodes?_eq_ok.2 ⟨fun _ hp => Run.inRange_of_mem_targets h hp, rfl⟩

end BlockPuzzle
