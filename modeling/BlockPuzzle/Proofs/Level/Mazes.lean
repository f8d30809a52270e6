import BlockPuzzle.Proofs.Grid.Walled
import BlockPuzzle.Proofs.Level.Solution

/-!
# Mazes are well formed

The board of a maze is its route cut into wall. The goal and the gems that are put there afterwards
replace cells of the route other than its first, and none of them blocks the way.

## Main definitions

* `Position.Adjacent`: neighbours in a row or in a column.
* `Maze.WellFormed`: a board with a wall around it that shows a route which does not cross itself.

## Main statements

* `Maze.cell_cases`: what there can be on the board of a maze.
* `Maze.wellFormed_carve`: every maze is well formed, and the first ones hold no gems and no stars.
-/

namespace BlockPuzzle

/-- Next to each other in a row or in a column. -/
def Position.Adjacent (p q : Position) : Prop :=
  p.row = q.row ∧ (q.col - p.col).natAbs = 1 ∨ p.col = q.col ∧ (q.row - p.row).natAbs = 1

theorem Position.adjacent_step (p : Position) (d : Direction) : p.Adjacent (p.step d) := by
  cases d <;> simp only [Adjacent, step, Direction.offset] <;> omega

namespace Maze

/-- The maze has sides of `size` cells and a wall around it. Its route leads from the first cell on
to neighbours and comes to no cell twice; what is no wall lies on it, with one start and one goal,
at its ends. -/
structure WellFormed (size : Nat) (m : Maze) : Prop where
  walled : m.level.grid.Walled size size
  head : m.route.head? = some ⟨1, 1⟩
  two_le_length : 2 ≤ m.route.length
  length_le : m.route.length ≤ size * size
  inner : ∀ p ∈ m.route, p.Inner size size
  nodup : m.route.Nodup
  chain : m.route.IsChain Position.Adjacent
  mem_route : ∀ p, p ∈ m.route ↔ ∃ x, m.level.grid.get? p = some x ∧ x ≠ .wall
  start : ∀ p, m.level.grid.get? p = some .start ↔ p = ⟨1, 1⟩
  goal : ∀ p, m.level.grid.get? p = some .goal ↔ m.route.getLast? = some p

variable {σ : Type} {next : σ → Nat × σ} {source : σ} {index : Nat} {w : World} {p : Position}
  {x : Cell}

/-! ## The board -/

theorem seedGems_of_le (h : index ≤ 2) (route : List Position) (g : Grid) :
    seedGems index route g = g := by
  have h₂ : ¬ 2 < index := by omega
  have h₆ : ¬ 6 < index := by omega
  simp [seedGems, h₂, h₆]

/-- What there can be on the board of a maze, and where. -/
theorem cell_cases (hx : (carve next source w index).level.grid.get? p = some x) :
    x = .wall ∨ p = ⟨1, 1⟩ ∧ x = .start ∨ p = (carving next source index).here ∧ x = .goal ∨
      x = .path ∨ x = .gem ∧ 2 < index ∨ x = .star ∧ 5 < index := by
  have hseeded : ((carving next source index).grid.set
      (carving next source index).here .goal).get? p = some x ∨ x = .gem ∧ 2 < index := by
    by_cases hindex : index ≤ 2
    · have hgrid : (carve next source w index).level.grid =
          (carving next source index).grid.set (carving next source index).here .goal :=
        seedGems_of_le hindex _ _
      exact .inl (hgrid ▸ hx)
    · obtain hsame | ⟨-, hgem⟩ := seeded_carve next source w index p
      · exact .inl (hsame ▸ hx)
      · exact .inr ⟨Option.some.inj (hx.symm.trans hgem), by omega⟩
  obtain hboard | hgem := hseeded
  · rw [get?_carving_goal] at hboard
    split at hboard
    · next hhere => exact .inr (.inr (.inl ⟨hhere, (Option.some.inj hboard).symm⟩))
    · obtain hwall | hstart | hway := (sound_carving next source index).cell_cases hboard
      · exact .inl hwall
      · exact .inr (.inl hstart)
      · exact .inr (.inr (.inr hway))
  · exact .inr (.inr (.inr (.inr (.inl hgem))))

/-- There is nothing on the board that blocks the way but wall. -/
theorem mem_route_iff : p ∈ (carve next source w index).route ↔
    ∃ x, (carve next source w index).level.grid.get? p = some x ∧ x ≠ .wall := by
  rw [← walkable_carve, Grid.walkable_eq]
  constructor
  · intro hp
    obtain ⟨x, hx, hwalkable⟩ := (Option.any_eq_true _ _).1 hp
    refine ⟨x, hx, ?_⟩
    rintro rfl
    cases hwalkable
  · rintro ⟨x, hx, hwall⟩
    rw [hx, Option.any_some]
    obtain rfl | ⟨-, rfl⟩ | ⟨-, rfl⟩ | rfl | ⟨rfl, -⟩ | ⟨rfl, -⟩ := cell_cases hx
    · exact absurd rfl hwall
    all_goals rfl

theorem inner_of_mem_route (hp : p ∈ (carve next source w index).route) :
    p.Inner (side index) (side index) :=
  Carving.inside_iff.1 ((sound_carving next source index).inside p (mem_route_carve.1 hp))

theorem walled_carve (next : σ → Nat × σ) (source : σ) (w : World) (index : Nat) :
    (carve next source w index).level.grid.Walled (side index) (side index) where
  rectangle := rectangle_carve next source w index
  border := by
    intro p hp hout
    obtain ⟨x, hx⟩ := (rectangle_carve next source w index).exists_get? hp
    by_cases hwall : x = .wall
    · rw [hx, hwall]
    · exact absurd (inner_of_mem_route (mem_route_iff.2 ⟨x, hx, hwall⟩)) hout

theorem get?_eq_start_iff : (carve next source w index).level.grid.get? p = some .start ↔
    p = ⟨1, 1⟩ := by
  refine ⟨?_, fun hp => hp ▸ get?_carve_start w⟩
  intro hx
  simpa using cell_cases hx

theorem get?_eq_goal_iff : (carve next source w index).level.grid.get? p = some .goal ↔
    p = (carving next source index).here := by
  refine ⟨?_, fun hp => hp ▸ get?_carve_goal w⟩
  intro hx
  simpa using cell_cases hx

theorem getLast?_route (next : σ → Nat × σ) (source : σ) (w : World) (index : Nat) :
    (carve next source w index).route.getLast? = some (carving next source index).here :=
  List.getLast?_reverse.trans (sound_carving next source index).head

theorem chain_route (next : σ → Nat × σ) (source : σ) (w : World) (index : Nat) :
    (carve next source w index).route.IsChain Position.Adjacent := by
  have hchain := List.isChain_reverse.2 (sound_carving next source index).chain
  refine hchain.imp ?_
  rintro p _ ⟨d, rfl⟩
  exact p.adjacent_step d

/-- Whatever the random source yields, a maze is well formed, there are no gems in the first three
mazes of a world, and no stars in the first six. -/
theorem wellFormed_carve (next : σ → Nat × σ) (source : σ) (w : World) (index : Nat) :
    (carve next source w index).WellFormed (min (4 + index / 4) 8) ∧
      (index ≤ 2 → (carve next source w index).level.grid.count .gem = 0) ∧
      (index ≤ 5 → (carve next source w index).level.grid.count .star = 0) := by
  have hwalk := sound_carving next source index
  have hwalled := walled_carve next source w index
  refine ⟨⟨hwalled, ?_, ?_, ?_, fun _ => inner_of_mem_route, ?_, chain_route next source w index,
    fun _ => mem_route_iff, fun _ => get?_eq_start_iff, ?_⟩, ?_, ?_⟩
  · exact List.head?_reverse.trans hwalk.last
  · exact (two_le_length_carving next source index).trans_eq List.length_reverse.symm
  · exact List.length_reverse.trans_le hwalk.length_route_le
  · exact List.nodup_reverse.2 hwalk.nodup
  · intro p
    rw [get?_eq_goal_iff, getLast?_route, Option.some.injEq, eq_comm]
  · intro hindex
    apply hwalled.rectangle.count_eq_zero
    intro p hp
    have hfew : ¬ 2 < index := by omega
    simpa [hfew] using cell_cases hp
  · intro hindex
    apply hwalled.rectangle.count_eq_zero
    intro p hp
    have hfew : ¬ 5 < index := by omega
    simpa [hfew] using cell_cases hp

/-- A source that yields the numbers of a list, and zero when they are used up. -/
def fromList : List Nat → Nat × List Nat
  | [] => (0, [])
  | k :: ks => (k, ks)

/-- The turns of a walk to the right, down twice, to the left and up, each beside a roll. -/
def hook : List Nat := [0, 5, 1, 5, 1, 1, 2, 0, 1, 2]

/-- There the walk has shut itself in, three steps before its end. -/
theorem wellFormed_carve_hook :
    (carve fromList hook World.forest 2).route =
        [⟨1, 1⟩, ⟨1, 2⟩, ⟨2, 2⟩, ⟨3, 2⟩, ⟨3, 1⟩, ⟨2, 1⟩] ∧
      2 ≤ 2 ∧ (carve fromList hook World.forest 2).WellFormed 4 ∧
      (carve fromList hook World.forest 2).level.grid.count .gem = 0 := by
  obtain ⟨hformed, hgems, -⟩ := wellFormed_carve fromList hook World.forest 2
  exact ⟨by decide, Nat.le_refl 2, hformed, hgems (Nat.le_refl 2)⟩

end Maze

end BlockPuzzle
