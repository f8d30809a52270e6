import BlockPuzzle.Proofs.Grid.Rectangle

/-!
# The first cell of a kind

A search goes through a grid row by row, and through a row from left to right. It also sees the
cells that no position can reach, so that what it finds is first said by rows and columns. In a
rectangle this is the same as by positions.

## Main definitions

* `Position.AtOrBefore`: the order of the search.
* `Grid.IsFirst`: a position that holds a kind of cell which no position before it holds.

## Main statements

* `Grid.find?_eq_none_iff`, `Grid.exists_of_find?`: what a search finds in any grid.
* `Grid.Rectangle.find?_eq_none_iff`, `Grid.Rectangle.isFirst_of_find?`: the same in a rectangle.
-/

namespace BlockPuzzle

/-- Row by row, and within a row from left to right. -/
def Position.AtOrBefore (p q : Position) : Prop := p.row < q.row ∨ p.row = q.row ∧ p.col ≤ q.col

namespace Grid

variable {g : Grid} {x : Cell} {p : Position} {m n : Nat}

/-- Of all positions that hold `x`, `p` is the first. -/
structure IsFirst (g : Grid) (x : Cell) (p : Position) : Prop where
  holds : g.get? p = some x
  first : ∀ q, g.get? q = some x → p.AtOrBefore q

/-! ## Any grid -/

theorem find?_eq (g : Grid) (x : Cell) : g.find? x =
    g.rows.zipIdx.findSome? fun row =>
      (row.1.idxOf? x).map fun j => (⟨(row.2 : Nat), (j : Nat)⟩ : Position) := by
  unfold find?
  congr 1
  funext row
  cases row.1.idxOf? x <;> rfl

theorem find?_eq_none_iff : g.find? x = none ↔ ∀ i j, g.cell? i j ≠ some x := by
  rw [find?_eq, List.findSome?_eq_none_iff]
  constructor
  · intro hnone i j hx
    obtain ⟨row, hrow, hj⟩ := Option.bind_eq_some_iff.1 hx
    have hrow := hnone (row, i) (List.mk_mem_zipIdx_iff_getElem?.2 hrow)
    rw [Option.map_eq_none_iff, List.idxOf?_eq_none_iff] at hrow
    exact hrow (List.mem_of_getElem? hj)
  · rintro hnone ⟨row, i⟩ hrow
    rw [Option.map_eq_none_iff, List.idxOf?_eq_none_iff]
    intro hmem
    obtain ⟨j, hj⟩ := List.mem_iff_getElem?.1 hmem
    apply hnone i j
    rw [cell?, List.mk_mem_zipIdx_iff_getElem?.1 hrow, Option.bind_some, hj]

/-- What is found is a cell of the kind, and there is none in the rows above or before it in its own
row. -/
theorem exists_of_find? (h : g.find? x = some p) :
    ∃ i j : Nat, p = ⟨i, j⟩ ∧ g.cell? i j = some x ∧
      ∀ i' j', g.cell? i' j' = some x → i < i' ∨ i = i' ∧ j ≤ j' := by
  rw [find?_eq] at h
  obtain ⟨above, ⟨row, i⟩, below, hsplit, hrow, habove⟩ := List.findSome?_eq_some_iff.1 h
  obtain ⟨j, hj, rfl⟩ := Option.map_eq_some_iff.1 hrow
  obtain ⟨hjlt, hx, hbefore⟩ := List.idxOf?_eq_some_iff.1 hj
  have hentry (k : Nat) : g.rows.zipIdx[k]? = g.rows[k]?.map (·, k) := by
    rw [List.getElem?_zipIdx, Nat.zero_add]
  -- The rows above are as many as the number that the row has got.
  have hnumber := hentry above.length
  rw [hsplit, List.getElem?_append_right (Nat.le_refl _), Nat.sub_self, List.getElem?_cons_zero,
    eq_comm, Option.map_eq_some_iff] at hnumber
  obtain ⟨_, hi, heq⟩ := hnumber
  obtain ⟨rfl, rfl⟩ := Prod.mk.inj heq
  refine ⟨above.length, j, rfl, ?_, ?_⟩
  · rw [cell?, hi, Option.bind_some, List.getElem?_eq_getElem hjlt, hx]
  · intro i' j' hx'
    obtain ⟨row', hi', hj'⟩ := Option.bind_eq_some_iff.1 hx'
    rcases Nat.lt_trichotomy above.length i' with hlt | rfl | hgt
    · exact .inl hlt
    · obtain rfl := Option.some.inj (hi.symm.trans hi')
      refine .inr ⟨rfl, Nat.le_of_not_lt fun hlt => hbefore j' hlt ?_⟩
      exact (List.getElem?_eq_some_iff.1 hj').2
    · have hmem : (row', i') ∈ above := by
        apply List.mem_of_getElem? (i := i')
        have hentry' := hentry i'
        rwa [hsplit, List.getElem?_append_left hgt, hi', Option.map_some] at hentry'
      have hnone := habove _ hmem
      rw [Option.map_eq_none_iff, List.idxOf?_eq_none_iff] at hnone
      exact absurd (List.mem_of_getElem? hj') hnone

/-! ## Rectangles -/

theorem Rectangle.find?_eq_none_iff (h : g.Rectangle m n) :
    g.find? x = none ↔ ∀ p, g.get? p ≠ some x := by
  rw [Grid.find?_eq_none_iff]
  constructor
  · intro hnone p hp
    exact hnone _ _ (cell?_of_get? hp)
  · intro hnone i j hij
    exact hnone _ (h.get?_of_cell? hij)

theorem Rectangle.isFirst_of_find? (h : g.Rectangle m n) (hp : g.find? x = some p) :
    g.IsFirst x p := by
  obtain ⟨i, j, rfl, hx, hfirst⟩ := exists_of_find? hp
  refine ⟨h.get?_of_cell? hx, ?_⟩
  intro q hq
  obtain ⟨hrow, hcol, -, -⟩ := inBounds_of_get? hq
  have horder := hfirst _ _ (cell?_of_get? hq)
  simp only [Position.AtOrBefore]
  omega

end Grid

end BlockPuzzle
