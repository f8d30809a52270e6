import BlockPuzzle.Proofs.Grid.Walled
import Mathlib.Logic.Function.Basic

/-!
# Grids with a ring of wall laid around them

## Main definitions

* `Grid.ringed`, `Position.ringed`: a grid with one more row and column on every side, and where its
  positions have come to.

## Main statements

* `Grid.Rectangle.walled_ringed`: the ring is a wall around what was there.
* `Grid.Rectangle.cellAt_ringed`: inside the ring, on it and beyond it the agent meets what it met
  without the ring.
-/

namespace BlockPuzzle

/-- The same place, with a row and a column more before it. -/
def Position.ringed (p : Position) : Position := ⟨p.row + 1, p.col + 1⟩

theorem Position.bijective_ringed : ringed.Bijective := by
  refine ⟨fun p q h => ?_, fun p => ⟨⟨p.row - 1, p.col - 1⟩, by simp [ringed]⟩⟩
  cases p
  cases q
  simpa [ringed] using h

theorem Position.ringed_step (p : Position) (d : Direction) :
    (p.step d).ringed = p.ringed.step d := by
  simp [ringed, step]
  omega

namespace Grid

/-- The grid with one ring of wall around it. -/
def ringed (g : Grid) : Grid :=
  let edge := List.replicate (g.width + 2) Cell.wall
  ⟨edge :: g.rows.map (fun row => .wall :: row ++ [.wall]) ++ [edge]⟩

variable {g : Grid} {m n i j : Nat}

theorem Rectangle.cell?_ringed (h : g.Rectangle m n) (hi : i < m) (hj : j < n) :
    g.ringed.cell? (i + 1) (j + 1) = g.cell? i j := by
  have hi' : i < g.rows.length := Nat.lt_of_lt_of_eq hi h.height.symm
  have hj' : j < g.rows[i].length := (h.length_row _ (List.getElem_mem hi')).symm ▸ hj
  simp [Grid.ringed, cell?, List.getElem?_append_left, hi', hj']

variable (hmn : m = 0 → n = 0)

include hmn

theorem Rectangle.ringed (h : g.Rectangle m n) : g.ringed.Rectangle (m + 2) (n + 2) where
  height := by simpa [Grid.ringed, Grid.height] using h.height
  length_row := by
    have hwidth := h.width_eq_of_imp hmn
    intro row hrow
    simp only [Grid.ringed, hwidth, List.cons_append, List.mem_cons, List.mem_append, List.mem_map,
      List.not_mem_nil, or_false] at hrow
    obtain rfl | ⟨row, hmem, rfl⟩ | rfl := hrow
    · simp
    · simp [h.length_row row hmem]
    · simp

theorem Rectangle.cell?_ringed_of_outer (h : g.Rectangle m n) (hi : i < m + 2) (hj : j < n + 2)
    (hout : ¬ (1 ≤ i ∧ i ≤ m ∧ 1 ≤ j ∧ j ≤ n)) : g.ringed.cell? i j = some .wall := by
  have hheight : g.rows.length = m := h.height
  have hwidth := h.width_eq_of_imp hmn
  obtain rfl | rfl | hrow : i = 0 ∨ i = m + 1 ∨ 1 ≤ i ∧ i ≤ m := by omega
  · simp [cell?, Grid.ringed, hwidth, hj]
  · simp [cell?, Grid.ringed, hwidth, hheight, hj]
  · obtain ⟨i, rfl⟩ : ∃ k, i = k + 1 := ⟨i - 1, by omega⟩
    have hi' : i < g.rows.length := by omega
    have hlength := h.length_row _ (List.getElem_mem hi')
    -- Only the ends of the rows in between belong to the ring.
    obtain rfl | rfl : j = 0 ∨ j = n + 1 := by omega
    · simp [cell?, Grid.ringed, List.getElem?_append_left, hi']
    · simp [cell?, Grid.ringed, List.getElem?_append_left, hi', hlength]

theorem Rectangle.walled_ringed (h : g.Rectangle m n) : g.ringed.Walled m n where
  rectangle := h.ringed hmn
  border := by
    intro p hp hout
    have hin := (h.ringed hmn).inBounds_iff.1 hp
    rw [get?_eq, if_pos hp]
    rw [Position.Inner] at hout
    apply h.cell?_ringed_of_outer hmn <;> omega

/-- Where there was nothing, the ring or what lies beyond it shows wall. -/
theorem Rectangle.cellAt_ringed (h : g.Rectangle m n) (p : Position) :
    g.ringed.cellAt p.ringed = g.cellAt p := by
  by_cases hp : g.InBounds p
  · have hin := h.inBounds_iff.1 hp
    have hrow : (p.row + 1).toNat = p.row.toNat + 1 := by omega
    have hcol : (p.col + 1).toNat = p.col.toNat + 1 := by omega
    symm
    apply cellAt_congr
    · simp only [Position.ringed, h.inBounds_iff, (h.ringed hmn).inBounds_iff]
      omega
    · intro
      rw [Position.ringed, hrow, hcol, h.cell?_ringed (by omega) (by omega)]
  · have hout : ¬ p.ringed.Inner m n := by
      rw [h.inBounds_iff] at hp
      simp only [Position.Inner, Position.ringed]
      omega
    have hwall : g.cellAt p = .wall := by rw [cellAt, get?_eq, if_neg hp, Option.getD_none]
    rw [hwall, cellAt]
    cases hx : g.ringed.get? p.ringed with
    | none => rfl
    | some x =>
      have hborder := (h.walled_ringed hmn).border _ (inBounds_of_get? hx) hout
      rw [← hx, hborder, Option.getD_some]

end Grid

end BlockPuzzle
