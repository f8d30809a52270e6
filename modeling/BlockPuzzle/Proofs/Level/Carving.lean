import BlockPuzzle.Level.Maze.Carving
import BlockPuzzle.Proofs.Grid.Rectangle
import Mathlib.Data.Int.Interval
import Mathlib.Data.List.Chain

/-!
# The walk that carves a maze

Whatever the random source yields, the walk only enters wall inside the border. It never crosses
itself, since what it has entered is wall no more.

## Main definitions

* `Carving.Sound`: what holds of a carving at any time.

## Main statements

* `Carving.exists_of_advance`: all that a step can do.
* `Carving.Sound.advance`, `Carving.Sound.walk`: a step, and so a walk, keeps a carving sound.
* `Carving.Sound.length_route_le`: a walk ends before the maze is full.
-/

namespace BlockPuzzle

namespace Carving

variable {σ : Type} {next : σ → Nat × σ} {index size : Nat} {c c' : Carving σ} {p : Position}
  {d : Direction}

theorem inside_iff :
    inside size p ↔ 1 ≤ p.row ∧ p.row ≤ size ∧ 1 ≤ p.col ∧ p.col ≤ size := by
  simp only [inside, Bool.and_eq_true, decide_eq_true_eq, and_assoc]

/-! ## Steps -/

theorem mem_openTurns :
    d ∈ c.openTurns size ↔
      inside size (c.here.step d) ∧ c.grid.get? (c.here.step d) = some .wall := by
  have hturns : d ∈ turns := by cases d <;> decide
  simp [openTurns, hturns]

/-- A step leads into wall inside the maze and leaves some cell there. -/
theorem exists_of_advance (h : c.advance next index size = some c') :
    ∃ d ∈ c.openTurns size, ∃ roll,
      c'.grid = c.grid.set (c.here.step d) (cellFor index roll) ∧ c'.here = c.here.step d ∧
        c'.route = c.here.step d :: c.route := by
  obtain ⟨d, hd, rfl⟩ := Option.map_eq_some_iff.1 h
  exact ⟨d, List.mem_of_getElem? hd, _, rfl, rfl, rfl⟩

/-- The walk goes on unless it has shut itself in. -/
theorem isSome_advance_iff : (c.advance next index size).isSome ↔ c.openTurns size ≠ [] := by
  unfold advance
  rw [Option.isSome_map, isSome_getElem?, ← List.length_pos_iff]
  constructor
  · intro h
    omega
  · exact Nat.mod_lt _

/-- What the source can leave on the way, and from which maze on. -/
theorem cellFor_eq (index roll : Nat) :
    cellFor index roll = .path ∨ cellFor index roll = .gem ∧ 2 < index ∨
      cellFor index roll = .star ∧ 5 < index := by
  unfold cellFor
  grind

theorem walkable_cellFor (index roll : Nat) : (cellFor index roll).walkable := by
  obtain h | ⟨h, -⟩ | ⟨h, -⟩ := cellFor_eq index roll <;> rw [h] <;> rfl

/-! ## The invariant -/

/-- The route is a walk inside the maze, from its corner to where the walk is now, that does not
cross itself. The cells on it are those that the source has left, and everything else is wall. -/
structure Sound (index size : Nat) (c : Carving σ) : Prop where
  rectangle : c.grid.Rectangle (size + 2) (size + 2)
  head : c.route.head? = some c.here
  last : c.route.getLast? = some ⟨1, 1⟩
  chain : c.route.IsChain fun q p => ∃ d, q = p.step d
  nodup : c.route.Nodup
  inside : ∀ p ∈ c.route, Carving.inside size p
  start : c.grid.get? ⟨1, 1⟩ = some .start
  carved : ∀ p ∈ c.route, p ≠ ⟨1, 1⟩ → ∃ roll, c.grid.get? p = some (cellFor index roll)
  uncarved : ∀ p ∉ c.route, ∀ x, c.grid.get? p = some x → x = .wall

theorem get?_begin (size : Nat) (source : σ) (p : Position) :
    (begin size source).grid.get? p =
      if p = ⟨1, 1⟩ then some .start
      else if 0 ≤ p.row ∧ 0 ≤ p.col ∧ p.row < size + 2 ∧ p.col < size + 2 then some .wall
      else none := by
  have hwall : (Grid.filled (size + 2) (size + 2) .wall).get? ⟨1, 1⟩ = some .wall := by
    rw [Grid.get?_filled, if_pos]
    simp only
    omega
  rw [begin, Grid.get?_set hwall, Grid.get?_filled]
  push_cast
  rfl

theorem sound_begin (index : Nat) {size : Nat} (hsize : 0 < size) (source : σ) :
    Sound index size (begin size source) where
  rectangle := (Grid.rectangle_filled _ _ _).set _ _
  head := rfl
  last := rfl
  chain := List.isChain_singleton _
  nodup := List.nodup_singleton _
  inside := by
    intro p hp
    obtain rfl := List.mem_singleton.1 hp
    simp only [inside_iff]
    omega
  start := by rw [get?_begin, if_pos rfl]
  carved p hp hne := absurd (List.mem_singleton.1 hp) hne
  uncarved := by
    intro p hp x hx
    rw [get?_begin, if_neg (by simpa [begin] using hp)] at hx
    split at hx
    · exact (Option.some.inj hx).symm
    · cases hx

namespace Sound

/-- The cell that the walk enters is wall, hence none of those on the route. -/
theorem advance (h : c.Sound index size) (hstep : c.advance next index size = some c') :
    c'.Sound index size := by
  obtain ⟨d, hd, roll, hgrid, hhere, hroute⟩ := exists_of_advance hstep
  obtain ⟨hinside, hwall⟩ := mem_openTurns.1 hd
  obtain ⟨ps, hps⟩ := List.head?_eq_some_iff.1 h.head
  have hstart : c.here.step d ≠ ⟨1, 1⟩ := by
    intro heq
    rw [heq, h.start] at hwall
    cases hwall
  -- The route holds no wall: its first cell is the start, and the source never leaves wall.
  have hnew : c.here.step d ∉ c.route := by
    intro hmem
    obtain ⟨roll, hcell⟩ := h.carved _ hmem hstart
    have hwalkable := walkable_cellFor index roll
    rw [← Option.some.inj (hwall.symm.trans hcell)] at hwalkable
    cases hwalkable
  have hget (p : Position) : c'.grid.get? p =
      if p = c.here.step d then some (cellFor index roll) else c.grid.get? p := by
    rw [hgrid, Grid.get?_set hwall]
  refine ⟨?_, ?_, ?_, ?_, ?_, ?_, ?_, ?_, ?_⟩
  · rw [hgrid]
    exact h.rectangle.set _ _
  · rw [hroute, hhere, List.head?_cons]
  · rw [hroute, List.getLast?_cons, h.last, Option.getD_some]
  · rw [hroute, hps, List.isChain_cons_cons, ← hps]
    exact ⟨⟨d, rfl⟩, h.chain⟩
  · rw [hroute]
    exact h.nodup.cons hnew
  · rw [hroute, List.forall_mem_cons]
    exact ⟨hinside, h.inside⟩
  · rw [hget, if_neg hstart.symm, h.start]
  · intro p hp hne
    rw [hget]
    split
    · exact ⟨roll, rfl⟩
    · next hother =>
      rw [hroute, List.mem_cons] at hp
      exact h.carved p (hp.resolve_left hother) hne
  · intro p hp x hx
    rw [hroute, List.mem_cons, not_or] at hp
    rw [hget, if_neg hp.1] at hx
    exact h.uncarved p hp.2 x hx

theorem walk (h : c.Sound index size) (n : Nat) : (c.walk next index size n).Sound index size := by
  induction n generalizing c with
  | zero => exact h
  | succ n ih =>
    rw [Carving.walk]
    split
    · exact h
    · next c' hstep => exact ih (h.advance hstep)

/-- The agent can walk where the walk went. -/
theorem exists_walkable (h : c.Sound index size) (hp : p ∈ c.route) :
    ∃ x, c.grid.get? p = some x ∧ x.walkable := by
  by_cases hstart : p = ⟨1, 1⟩
  · exact ⟨.start, hstart ▸ h.start, rfl⟩
  · obtain ⟨roll, hcell⟩ := h.carved p hp hstart
    exact ⟨_, hcell, walkable_cellFor index roll⟩

/-- What there is on the board while the walk goes on. -/
theorem cell_cases (h : c.Sound index size) {x : Cell} (hx : c.grid.get? p = some x) :
    x = .wall ∨ p = ⟨1, 1⟩ ∧ x = .start ∨ x = .path ∨ x = .gem ∧ 2 < index ∨
      x = .star ∧ 5 < index := by
  by_cases hroute : p ∈ c.route
  · by_cases hstart : p = ⟨1, 1⟩
    · rw [hstart, h.start] at hx
      exact .inr (.inl ⟨hstart, (Option.some.inj hx).symm⟩)
    · obtain ⟨roll, hcell⟩ := h.carved p hroute hstart
      obtain rfl := Option.some.inj (hcell.symm.trans hx)
      exact .inr (.inr (cellFor_eq index roll))
  · exact .inl (h.uncarved p hroute x hx)

theorem here_mem_route (h : c.Sound index size) : c.here ∈ c.route := List.mem_of_mem_head? h.head

/-- A walk that has gone on is not at the corner again. -/
theorem here_ne_start (h : c.Sound index size) (hlength : 2 ≤ c.route.length) :
    c.here ≠ ⟨1, 1⟩ := by
  obtain ⟨ps, hps⟩ := List.head?_eq_some_iff.1 h.head
  have hlast := h.last
  have hnodup := h.nodup
  rw [hps] at hlast hnodup hlength
  cases ps with
  | nil => simp at hlength
  | cons q ps =>
    rw [List.getLast?_cons_cons] at hlast
    rintro hhere
    exact (List.nodup_cons.1 hnodup).1 (hhere ▸ List.mem_of_getLast? hlast)

/-- Inside the maze there are no more than `size * size` positions. -/
theorem length_route_le (h : c.Sound index size) : c.route.length ≤ size * size := by
  let box : Finset (Int × Int) := Finset.Icc 1 (size : Int) ×ˢ Finset.Icc 1 (size : Int)
  have hsub : c.route.toFinset.image (fun p => (p.row, p.col)) ⊆ box := by
    intro rc hrc
    obtain ⟨p, hp, rfl⟩ := Finset.mem_image.1 hrc
    have hin := inside_iff.1 (h.inside p (List.mem_toFinset.1 hp))
    simp only [box, Finset.mem_product, Finset.mem_Icc]
    omega
  have hinj : Function.Injective fun p : Position => (p.row, p.col) := by
    intro p q hpq
    cases p
    cases q
    simpa using hpq
  calc c.route.length
      = c.route.toFinset.card := (List.toFinset_card_of_nodup h.nodup).symm
    _ = (c.route.toFinset.image fun p => (p.row, p.col)).card :=
      (Finset.card_image_of_injective _ hinj).symm
    _ ≤ box.card := Finset.card_le_card hsub
    _ = size * size := by simp [box]

end Sound

/-! ## Where the walk gets to -/

theorem length_route_walk (n : Nat) (c : Carving σ) :
    c.route.length ≤ (c.walk next index size n).route.length := by
  induction n generalizing c with
  | zero => exact Nat.le_refl _
  | succ n ih =>
    rw [walk]
    split
    · exact Nat.le_refl _
    · next c' hstep =>
      obtain ⟨d, -, roll, -, -, hroute⟩ := exists_of_advance hstep
      have hlength := ih c'
      rw [hroute, List.length_cons] at hlength
      omega

/-- From the corner there is always a way. -/
theorem two_le_length_route {n : Nat} (hsize : 1 < size) (hn : 0 < n) (source : σ) :
    2 ≤ ((begin size source).walk next index size n).route.length := by
  have hright : Direction.right ∈ (begin size source).openTurns size := by
    rw [mem_openTurns, inside_iff, get?_begin]
    simp [begin, Position.step, Direction.offset]
    omega
  have hgoes : ((begin size source).advance next index size).isSome :=
    isSome_advance_iff.2 (List.ne_nil_of_mem hright)
  obtain ⟨c, hstep⟩ := Option.isSome_iff_exists.1 hgoes
  obtain ⟨n, rfl⟩ := Nat.exists_eq_succ_of_ne_zero hn.ne'
  obtain ⟨d, -, roll, -, -, hroute⟩ := exists_of_advance hstep
  have hlength : c.route.length ≤ (c.walk next index size n).route.length :=
    length_route_walk n c
  rw [hroute, List.length_cons] at hlength
  rw [walk, hstep]
  exact hlength

end Carving

end BlockPuzzle
