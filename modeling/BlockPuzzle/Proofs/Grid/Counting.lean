import BlockPuzzle.Proofs.Grid.Rectangle
import Mathlib.Algebra.BigOperators.Group.Finset.Sigma
import Mathlib.Data.Set.Card

/-!
# Counting cells by positions

In a rectangle each cell lies at one position, so cells of a kind may be counted in any order.

## Main statements

* `Grid.Rectangle.count_eq_ncard`: there are as many cells of a kind as positions that show it.
* `Grid.Rectangle.count_eq_of_bijective`: a board moved to other positions has as many.
-/

namespace BlockPuzzle

namespace Grid

variable {g g' : Grid} {p : Position} {x : Cell} {m n m' n' : Nat}

theorem count_row_eq_sum (row : List Cell) (x : Cell) :
    row.count x = ∑ j ∈ Finset.range row.length, if row[j]? = some x then 1 else 0 := by
  induction row with
  | nil => rfl
  | cons y row ih =>
    rw [List.count_cons, List.length_cons, Finset.sum_range_succ', ih]
    simp only [List.getElem?_cons_succ, List.getElem?_cons_zero, Option.some.injEq, beq_iff_eq]

theorem count_flatten_eq_sum {rows : List (List Cell)} (hlength : ∀ row ∈ rows, row.length = n)
    (x : Cell) :
    rows.flatten.count x = ∑ i ∈ Finset.range rows.length, ∑ j ∈ Finset.range n,
      if rows[i]?.bind (·[j]?) = some x then 1 else 0 := by
  induction rows with
  | nil => rfl
  | cons row rows ih =>
    have hrow : row.length = n := hlength row (by simp)
    have hrows := ih fun row' hrow' => hlength row' (by simp [hrow'])
    rw [List.flatten_cons, List.count_append, count_row_eq_sum row x, hrows, hrow,
      List.length_cons, Finset.sum_range_succ', Nat.add_comm]
    simp only [List.getElem?_cons_succ, List.getElem?_cons_zero, Option.bind_some]

theorem cellAt_eq_iff (hx : x ≠ .wall) : g.cellAt p = x ↔ g.get? p = some x := by
  unfold cellAt
  cases g.get? p <;> simp [Ne.symm hx]

/-- A grid holds as many cells of a kind as there are positions that show it. Wall is left out,
since all positions around a grid show it. -/
theorem Rectangle.count_eq_ncard (h : g.Rectangle m n) (hx : x ≠ .wall) :
    g.count x = {p | g.cellAt p = x}.ncard := by
  let at? (ij : Nat × Nat) : Position := ⟨ij.1, ij.2⟩
  have hinj : Function.Injective at? := by
    rintro ⟨i, j⟩ ⟨i', j'⟩ hij
    simpa [at?] using hij
  have himage : {p | g.cellAt p = x} =
      at? '' ↑((Finset.range m ×ˢ Finset.range n).filter fun ij => g.cell? ij.1 ij.2 = some x) := by
    ext p
    simp only [Set.mem_ofPred_eq, cellAt_eq_iff hx, Set.mem_image, Finset.coe_filter,
      Finset.mem_product, Finset.mem_range]
    constructor
    · intro hp
      have hin := h.inBounds_iff.1 (inBounds_of_get? hp)
      refine ⟨(p.row.toNat, p.col.toNat), ⟨⟨by omega, by omega⟩, cell?_of_get? hp⟩, ?_⟩
      simp only [at?, Int.toNat_of_nonneg hin.1, Int.toNat_of_nonneg hin.2.1]
    · rintro ⟨⟨i, j⟩, ⟨-, hij⟩, rfl⟩
      exact h.get?_of_cell? hij
  rw [himage, Set.ncard_image_of_injective _ hinj, Set.ncard_coe_finset, Finset.card_filter,
    Finset.sum_product, count, count_flatten_eq_sum h.length_row, ← h.height]
  rfl

/-- Nothing appears or vanishes where all that a board shows is moved to other positions. -/
theorem Rectangle.count_eq_of_bijective (h : g.Rectangle m n) (h' : g'.Rectangle m' n')
    {f : Position → Position} (hf : f.Bijective) (hcell : ∀ p, g'.cellAt (f p) = g.cellAt p)
    (hx : x ≠ .wall) : g'.count x = g.count x := by
  have himage : {q | g'.cellAt q = x} = f '' {p | g.cellAt p = x} := by
    ext q
    obtain ⟨p, rfl⟩ := hf.surjective q
    simp [hf.injective.eq_iff, hcell]
  rw [h.count_eq_ncard hx, h'.count_eq_ncard hx, himage,
    Set.ncard_image_of_injective _ hf.injective]

end Grid

end BlockPuzzle
