import BlockPuzzle.Proofs.Grid.Cells

/-!
# Grids with collectibles taken away

## Main definitions

* `Grid.cleared`: the grid in which the collectibles at some positions have turned into path.

## Main statements

* `Grid.cleared_singleton`: clearing one position replaces the cell there by what is left of it.
-/

namespace BlockPuzzle

/-- What is left of a cell once the agent has entered it. -/
def Cell.taken (x : Cell) : Cell := if x.collectible then .path else x

@[simp] theorem Cell.taken_taken (x : Cell) : x.taken.taken = x.taken := by cases x <;> rfl

theorem Cell.walkable_taken (x : Cell) : x.taken.walkable = x.walkable := by cases x <;> rfl

theorem Cell.taken_eq_iff {x y : Cell} (hy : y ≠ .path) :
    x.taken = y ↔ x = y ∧ ¬ y.collectible := by
  revert hy
  cases x <;> cases y <;> decide

namespace Grid

/-- The grid in which the stars and gems at the given positions have turned into path. -/
def cleared (g : Grid) (ps : List Position) : Grid :=
  ⟨g.rows.mapIdx fun i row => row.mapIdx fun j x => if ⟨i, j⟩ ∈ ps then x.taken else x⟩

variable {g : Grid} {p : Position} {x : Cell} {ps : List Position}

@[simp] theorem height_cleared (g : Grid) (ps : List Position) :
    (g.cleared ps).height = g.height := by simp [height, cleared]

theorem cell?_cleared (g : Grid) (ps : List Position) (i j : Nat) :
    (g.cleared ps).cell? i j =
      (g.cell? i j).map fun x => if ⟨i, j⟩ ∈ ps then x.taken else x := by
  unfold cell? cleared
  rw [List.getElem?_mapIdx]
  cases g.rows[i]? <;> simp

@[simp] theorem cleared_nil (g : Grid) : g.cleared [] = g := by
  apply ext_cell? (height_cleared g [])
  intro i j
  simp [cell?_cleared]

theorem cleared_cleared (g : Grid) (ps qs : List Position) :
    (g.cleared ps).cleared qs = g.cleared (ps ++ qs) := by
  apply ext_cell? (by simp)
  intro i j
  simp only [cell?_cleared, Option.map_map, List.mem_append]
  congr 1
  funext x
  simp only [Function.comp_apply]
  by_cases hp : (⟨i, j⟩ : Position) ∈ ps <;> by_cases hq : (⟨i, j⟩ : Position) ∈ qs <;>
    simp [hp, hq]

theorem inBounds_cleared : (g.cleared ps).InBounds p ↔ g.InBounds p := by
  have hwidth : (g.cleared ps).width = g.width := by
    unfold width cleared
    cases g.rows <;> simp
  simp [InBounds, hwidth]

theorem get?_cleared (g : Grid) (ps : List Position) (p : Position) :
    (g.cleared ps).get? p = (g.get? p).map fun x => if p ∈ ps then x.taken else x := by
  rw [get?_eq, get?_eq]
  simp only [inBounds_cleared]
  split
  · next hp =>
    obtain ⟨hrow, hcol, -, -⟩ := hp
    have hp' : (⟨p.row.toNat, p.col.toNat⟩ : Position) = p := by
      rw [Int.toNat_of_nonneg hrow, Int.toNat_of_nonneg hcol]
    rw [cell?_cleared, hp']
  · rfl

/-- Where there is a cell, clearing its position replaces it by what is left of it. -/
theorem cleared_singleton (hx : g.get? p = some x) : g.cleared [p] = g.set p x.taken := by
  apply ext_cell? (by simp [height_set])
  intro i j
  obtain ⟨hrow, hcol, -, -⟩ := inBounds_of_get? hx
  have hp : (⟨i, j⟩ : Position) = p ↔ i = p.row.toNat ∧ j = p.col.toNat := by
    cases p
    simp at hrow hcol ⊢
    omega
  rw [cell?_cleared, cell?_set hx]
  simp only [List.mem_singleton, hp]
  split
  · next hij => rw [hij.1, hij.2, cell?_of_get? hx]; rfl
  · simp

theorem cleared_singleton_of_not_collectible (hx : g.get? p = some x) (h : ¬ x.collectible) :
    g.cleared [p] = g := by
  rw [cleared_singleton hx, Cell.taken, if_neg h]
  apply ext_cell? (height_set g p x)
  intro i j
  rw [cell?_set hx]
  split
  · next hij => rw [hij.1, hij.2, cell?_of_get? hx]
  · rfl

/-- Of the positions that hold a collectible, those that were not cleared still hold it. -/
theorem get?_cleared_of_collectible {y : Cell} (hy : y.collectible) :
    (g.cleared ps).get? p = some y ↔ p ∉ ps ∧ g.get? p = some y := by
  have hpath : y ≠ .path := by rintro rfl; cases hy
  rw [get?_cleared]
  by_cases hp : p ∈ ps <;> simp [hp, Cell.taken_eq_iff hpath, hy]

/-- Picking up does not block the way. -/
theorem walkable_cleared (g : Grid) (ps : List Position) (p : Position) :
    (g.cleared ps).walkable p = g.walkable p := by
  rw [walkable_eq, walkable_eq, get?_cleared, Option.any_map]
  congr 1
  funext x
  by_cases hp : p ∈ ps <;> simp [hp, Cell.walkable_taken]

theorem get?_of_walkable (h : g.walkable p) : g.get? p = some (g.cellAt p) := by
  unfold walkable cellAt at *
  cases hx : g.get? p with
  | none => simp [hx, Cell.walkable] at h
  | some x => rfl

theorem walkable_of_collectible (h : (g.cellAt p).collectible) : g.walkable p := by
  unfold walkable
  cases hx : g.cellAt p <;> simp_all [Cell.collectible, Cell.walkable]

/-- A collectible that was picked up has turned into path. -/
theorem cellAt_set_path (h : (g.cellAt p).collectible) : (g.set p .path).cellAt p = .path := by
  have hx := get?_of_walkable (walkable_of_collectible h)
  have htaken : (g.cellAt p).taken = .path := if_pos h
  rw [cellAt, ← htaken, ← cleared_singleton hx, get?_cleared, hx]
  simp

/-- What picking up leaves of a grid is the grid with that position cleared. -/
theorem cleared_singleton_eq_ite (hx : g.get? p = some x) :
    g.cleared [p] = if x.collectible then g.set p .path else g := by
  split
  · next h => rw [cleared_singleton hx, Cell.taken, if_pos h]
  · next h => exact cleared_singleton_of_not_collectible hx h

end Grid

end BlockPuzzle
