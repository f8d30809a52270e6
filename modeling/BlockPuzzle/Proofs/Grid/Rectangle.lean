import BlockPuzzle.Proofs.Grid.Cleared

/-!
# Rectangular grids

Where all rows are equally long, every cell lies at a position, so that a grid is known by what its
positions hold.

## Main definitions

* `Grid.Rectangle`: a grid with as many rows and columns as given.

## Main statements

* `Grid.get?_set`: replacing a cell, by positions.
* `Grid.Rectangle.count_eq_zero`: a kind that no position holds does not occur.
* `Grid.Rectangle.ext_cellAt`: a rectangle is known by what the agent meets on it.
-/

namespace BlockPuzzle

namespace Grid

variable {g g' : Grid} {p q : Position} {x : Cell} {m n : Nat}

/-! ## Replacing a cell -/

theorem width_set (g : Grid) (p : Position) (y : Cell) : (g.set p y).width = g.width := by
  rw [width, width, ← List.head?_map, map_length_set, List.head?_map]

theorem inBounds_set {y : Cell} : (g.set p y).InBounds q ↔ g.InBounds q := by
  simp only [InBounds, height_set, width_set]

/-- Replacing a cell changes what its position holds, and no other. -/
theorem get?_set (hx : g.get? p = some x) (y : Cell) (q : Position) :
    (g.set p y).get? q = if q = p then some y else g.get? q := by
  rw [get?_eq, get?_eq]
  simp only [inBounds_set]
  by_cases hq : g.InBounds q
  · have hp := inBounds_of_get? hx
    have hsame : q.row.toNat = p.row.toNat ∧ q.col.toNat = p.col.toNat ↔ q = p := by
      obtain ⟨hqrow, hqcol, -, -⟩ := hq
      obtain ⟨hprow, hpcol, -, -⟩ := hp
      cases p
      cases q
      simp at hqrow hqcol hprow hpcol ⊢
      omega
    rw [if_pos hq, if_pos hq, cell?_set hx]
    simp only [hsame]
  · have hne : q ≠ p := by
      rintro rfl
      exact hq (inBounds_of_get? hx)
    rw [if_neg hq, if_neg hq, if_neg hne]

/-! ## Rectangles -/

structure Rectangle (g : Grid) (m n : Nat) : Prop where
  height : g.height = m
  length_row : ∀ row ∈ g.rows, row.length = n

theorem rectangle_filled (m n : Nat) (x : Cell) : (filled m n x).Rectangle m n where
  height := by simp [filled, Grid.height]
  length_row := by
    intro row hrow
    rw [List.eq_of_mem_replicate hrow, List.length_replicate]

theorem Rectangle.set (h : g.Rectangle m n) (p : Position) (y : Cell) :
    (g.set p y).Rectangle m n where
  height := (height_set g p y).trans h.height
  length_row := by
    intro row hrow
    have hlength : row.length ∈ g.rows.map List.length :=
      map_length_set g p y ▸ List.mem_map_of_mem hrow
    obtain ⟨row', hrow', hlength⟩ := List.mem_map.1 hlength
    rw [← hlength, h.length_row row' hrow']

theorem Rectangle.cleared (h : g.Rectangle m n) (ps : List Position) :
    (g.cleared ps).Rectangle m n where
  height := (height_cleared g ps).trans h.height
  length_row := by
    intro row hrow
    obtain ⟨i, hi, rfl⟩ := List.getElem_of_mem hrow
    have hlength : i < g.rows.length := by simpa [Grid.cleared] using hi
    simpa [Grid.cleared] using h.length_row _ (List.getElem_mem hlength)

theorem Rectangle.width_eq (h : g.Rectangle m n) (hm : 0 < m) : g.width = n := by
  obtain ⟨hheight, hlength⟩ := h
  cases hrows : g.rows with
  | nil =>
    rw [Grid.height, hrows, List.length_nil] at hheight
    omega
  | cons row rows => simpa [width, hrows] using hlength row (by simp [hrows])

theorem Rectangle.inBounds_iff (h : g.Rectangle m n) :
    g.InBounds p ↔ 0 ≤ p.row ∧ 0 ≤ p.col ∧ p.row < m ∧ p.col < n := by
  rw [InBounds, h.height]
  rcases Nat.eq_zero_or_pos m with rfl | hm
  · omega
  · rw [h.width_eq hm]

/-- There is a cell at every position within the bounds. -/
theorem Rectangle.exists_get? (h : g.Rectangle m n) (hp : g.InBounds p) :
    ∃ x, g.get? p = some x := by
  have hm := h.inBounds_iff.1 hp
  have hrow : p.row.toNat < g.rows.length := by
    have hheight : g.rows.length = m := h.height
    omega
  have hcol : p.col.toNat < g.rows[p.row.toNat].length := by
    rw [h.length_row _ (List.getElem_mem hrow)]
    omega
  refine ⟨g.rows[p.row.toNat][p.col.toNat], ?_⟩
  rw [get?_eq, if_pos hp, cell?, List.getElem?_eq_getElem hrow, Option.bind_some,
    List.getElem?_eq_getElem hcol]

theorem get?_filled (m n : Nat) (x : Cell) (p : Position) :
    (filled m n x).get? p =
      if 0 ≤ p.row ∧ 0 ≤ p.col ∧ p.row < m ∧ p.col < n then some x else none := by
  rw [get?_eq]
  simp only [(rectangle_filled m n x).inBounds_iff]
  split
  · next hp =>
    have hrow : p.row.toNat < m := by omega
    have hcol : p.col.toNat < n := by omega
    simp [cell?, filled, hrow, hcol]
  · rfl

/-- Every cell of a rectangle lies at a position. -/
theorem Rectangle.get?_of_cell? (h : g.Rectangle m n) {i j : Nat} (hx : g.cell? i j = some x) :
    g.get? ⟨i, j⟩ = some x := by
  obtain ⟨row, hrow, hcol⟩ := Option.bind_eq_some_iff.1 hx
  obtain ⟨hi, rfl⟩ := List.getElem?_eq_some_iff.1 hrow
  obtain ⟨hj, -⟩ := List.getElem?_eq_some_iff.1 hcol
  have hm : i < m := h.height ▸ hi
  have hn : j < n := h.length_row _ (List.getElem_mem hi) ▸ hj
  have hin : g.InBounds ⟨i, j⟩ := h.inBounds_iff.2 (by simp; omega)
  rw [get?_eq, if_pos hin, Int.toNat_natCast, Int.toNat_natCast, hx]

theorem Rectangle.cell?_eq (h : g.Rectangle m n) (i j : Nat) : g.cell? i j = g.get? ⟨i, j⟩ := by
  cases hx : g.cell? i j with
  | some x => rw [h.get?_of_cell? hx]
  | none => simp [get?_eq, hx]

/-- A rectangle without rows passes for one of any width. Its own width tells more. -/
theorem Rectangle.self (h : g.Rectangle m n) : g.Rectangle g.height g.width where
  height := rfl
  length_row := by
    intro row hrow
    have hm : 0 < m := h.height ▸ List.length_pos_of_mem hrow
    rw [h.length_row row hrow, h.width_eq hm]

theorem width_eq_zero (hheight : g.height = 0) : g.width = 0 := by
  rw [width, List.length_eq_zero_iff.1 hheight]
  rfl

theorem Rectangle.width_eq_of_imp (hmn : m = 0 → n = 0) (h : g.Rectangle m n) : g.width = n := by
  rcases Nat.eq_zero_or_pos m with hm | hm
  · rw [hmn hm, width_eq_zero (h.height.trans hm)]
  · exact h.width_eq hm

/-- A kind of cell that no position of a rectangle holds does not occur in it. -/
theorem Rectangle.count_eq_zero (h : g.Rectangle m n) (hx : ∀ p, g.get? p ≠ some x) :
    g.count x = 0 := by
  rw [count_eq_zero_iff]
  intro i j hij
  exact hx _ (h.get?_of_cell? hij)

/-- Where every cell of a collectible kind was cleared, none is left. -/
theorem Rectangle.count_cleared_eq_zero (h : g.Rectangle m n) {ps : List Position}
    (hx : x.collectible) (hps : ∀ p, g.get? p = some x → p ∈ ps) : (g.cleared ps).count x = 0 := by
  apply (h.cleared ps).count_eq_zero
  intro p hp
  obtain ⟨hnot, hcell⟩ := (get?_cleared_of_collectible hx).1 hp
  exact hnot (hps p hcell)

/-! ## The board as the agent meets it -/

theorem cellAt_set (hx : g.get? p = some x) (y : Cell) (q : Position) :
    (g.set p y).cellAt q = if q = p then y else g.cellAt q := by
  rw [cellAt, get?_set hx]
  split <;> rfl

/-- Two positions show the same if they hold the same cell, or if neither lies on its board. -/
theorem cellAt_congr (hin : g.InBounds p ↔ g'.InBounds q)
    (hcell : g.InBounds p →
      g.cell? p.row.toNat p.col.toNat = g'.cell? q.row.toNat q.col.toNat) :
    g.cellAt p = g'.cellAt q := by
  rw [cellAt, cellAt, get?_eq, get?_eq]
  by_cases hp : g.InBounds p
  · rw [if_pos hp, if_pos (hin.1 hp), hcell hp]
  · rw [if_neg hp, if_neg (mt hin.2 hp)]

/-- A rectangle is known by what the agent meets on it. -/
theorem Rectangle.ext_cellAt (h : g.Rectangle m n) (h' : g'.Rectangle m n)
    (hcell : ∀ p, g.cellAt p = g'.cellAt p) : g = g' := by
  apply ext_cell? (h.height.trans h'.height.symm)
  intro i j
  rw [h.cell?_eq, h'.cell?_eq]
  by_cases hin : g.InBounds ⟨i, j⟩
  · obtain ⟨x, hx⟩ := h.exists_get? hin
    obtain ⟨y, hy⟩ := h'.exists_get? (h'.inBounds_iff.2 (h.inBounds_iff.1 hin))
    have hxy : x = y := by simpa [cellAt, hx, hy] using hcell ⟨i, j⟩
    rw [hx, hy, hxy]
  · have hin' : ¬ g'.InBounds ⟨i, j⟩ := by rwa [h'.inBounds_iff, ← h.inBounds_iff]
    rw [get?_eq, get?_eq, if_neg hin, if_neg hin']

end Grid

end BlockPuzzle
