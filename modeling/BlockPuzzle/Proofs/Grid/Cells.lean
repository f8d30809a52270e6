import BlockPuzzle.Grid.Basic

/-!
# The cells of a grid

A grid as a map from rows and columns to cells, ragged rows included, and what replacing a cell does
to that map and to the number of cells of each kind.

## Main definitions

* `Grid.cell?`: every cell of a grid, also one that lies beyond its width.

## Main statements

* `Grid.cell?_set`: replacing a cell leaves all others alone.
* `Grid.count_eq_zero_iff`, `Grid.count_set`: how many cells of a kind there are, and how their
  number changes when one cell is replaced.
-/

namespace BlockPuzzle

namespace Grid

/-- The cell in a row and a column, however long the other rows are. -/
def cell? (g : Grid) (i j : Nat) : Option Cell := g.rows[i]?.bind (·[j]?)

variable {g h : Grid} {p : Position} {x : Cell} {i j : Nat}

theorem ext_cell? (hheight : g.height = h.height) (hcell : ∀ i j, g.cell? i j = h.cell? i j) :
    g = h := by
  obtain ⟨rows⟩ := g
  obtain ⟨rows'⟩ := h
  congr 1
  apply List.ext_getElem hheight
  intro i hi hi'
  apply List.ext_getElem?
  intro j
  have := hcell i j
  rw [cell?, cell?, List.getElem?_eq_getElem hi, List.getElem?_eq_getElem hi'] at this
  exact this

theorem get?_eq (g : Grid) (p : Position) :
    g.get? p = if g.InBounds p then g.cell? p.row.toNat p.col.toNat else none := rfl

theorem inBounds_of_get? (hx : g.get? p = some x) : g.InBounds p := by
  rw [get?_eq] at hx
  split at hx
  · assumption
  · cases hx

theorem cell?_of_get? (hx : g.get? p = some x) : g.cell? p.row.toNat p.col.toNat = some x := by
  rwa [get?_eq, if_pos (inBounds_of_get? hx)] at hx

theorem set_eq (hx : g.get? p = some x) (y : Cell) :
    g.set p y = ⟨g.rows.modify p.row.toNat (·.set p.col.toNat y)⟩ := by
  rw [set, set?_eq, hx, Option.map_some, Option.getD_some]

theorem set_of_get?_eq_none (hx : g.get? p = none) (y : Cell) : g.set p y = g := by
  rw [set, set?_eq, hx, Option.map_none, Option.getD_none]

/-- No row gets longer or shorter. -/
theorem map_length_set (g : Grid) (p : Position) (y : Cell) :
    (g.set p y).rows.map List.length = g.rows.map List.length := by
  cases hx : g.get? p with
  | none => rw [set_of_get?_eq_none hx]
  | some x =>
    rw [set_eq hx]
    apply List.ext_getElem?
    intro i
    rw [List.getElem?_map, List.getElem?_map, List.getElem?_modify]
    by_cases hi : p.row.toNat = i
    · cases g.rows[i]? <;> simp [hi]
    · simp [hi]

theorem height_set (g : Grid) (p : Position) (y : Cell) : (g.set p y).height = g.height := by
  simpa [height] using congrArg List.length (map_length_set g p y)

/-- Replacing a cell leaves all others alone. -/
theorem cell?_set (hx : g.get? p = some x) (y : Cell) (i j : Nat) :
    (g.set p y).cell? i j =
      if i = p.row.toNat ∧ j = p.col.toNat then some y else g.cell? i j := by
  have hcell := cell?_of_get? hx
  rw [set_eq hx]
  unfold cell? at hcell ⊢
  rw [List.getElem?_modify]
  by_cases hi : p.row.toNat = i
  · subst hi
    cases hrow : g.rows[p.row.toNat]? with
    | none => simp [hrow] at hcell
    | some row =>
      rw [hrow] at hcell
      grind
  · simp [hi, Ne.symm hi]

/-! ## Counting -/

theorem count_eq_zero_iff : g.count x = 0 ↔ ∀ i j, g.cell? i j ≠ some x := by
  rw [count, List.count_eq_zero]
  constructor
  · intro hnone i j hx
    obtain ⟨row, hrow, hcol⟩ := Option.bind_eq_some_iff.1 hx
    exact hnone (List.mem_flatten.2
      ⟨row, List.mem_of_getElem? hrow, List.mem_of_getElem? hcol⟩)
  · intro hnone hmem
    obtain ⟨row, hrow, hcell⟩ := List.mem_flatten.1 hmem
    obtain ⟨i, hi⟩ := List.mem_iff_getElem?.1 hrow
    obtain ⟨j, hj⟩ := List.mem_iff_getElem?.1 hcell
    exact hnone i j (by rw [cell?, hi, Option.bind_some, hj])

theorem count_row_set {row : List Cell} (hx : row[j]? = some x) (y z : Cell) :
    (row.set j y).count z + (if x = z then 1 else 0) = row.count z + if y = z then 1 else 0 := by
  obtain ⟨hj, hx⟩ := List.getElem?_eq_some_iff.1 hx
  rw [List.count_set hj, hx]
  have hpos : x = z → 0 < row.count z := fun h =>
    List.count_pos_iff.2 (h ▸ hx ▸ List.getElem_mem hj)
  by_cases hxz : x = z
  · have := hpos hxz
    simp [hxz]
    omega
  · simp [hxz]

theorem count_flatten_modify {rows : List (List Cell)} {row : List Cell}
    (hrow : rows[i]? = some row) (f : List Cell → List Cell) (z : Cell) :
    (rows.modify i f).flatten.count z + row.count z =
      rows.flatten.count z + (f row).count z := by
  induction rows generalizing i with
  | nil => simp at hrow
  | cons r rows ih =>
    cases i with
    | zero =>
      obtain rfl : r = row := by simpa using hrow
      simp
      omega
    | succ i =>
      have := ih (i := i) (by simpa using hrow)
      simp
      omega

/-- Replacing a cell changes the counts of the old and the new kind by one each. -/
theorem count_set (hx : g.get? p = some x) (y z : Cell) :
    (g.set p y).count z + (if x = z then 1 else 0) = g.count z + if y = z then 1 else 0 := by
  obtain ⟨row, hrow, hcol⟩ := Option.bind_eq_some_iff.1 (cell?_of_get? hx)
  have hflatten := count_flatten_modify hrow (·.set p.col.toNat y) z
  have hset := count_row_set hcol y z
  rw [set_eq hx]
  simp only [count] at hflatten ⊢
  omega

end Grid

end BlockPuzzle
