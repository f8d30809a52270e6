import BlockPuzzle.Level.Maze
import BlockPuzzle.Proofs.Level.Carving
import BlockPuzzle.Proofs.Run.Following

/-!
# The solution of a maze

The walk that carved a maze is a program of moves. It leads over all that lies in the maze and ends
on the goal, so that its run is perfect, whatever the random source has yielded.

## Main definitions

* `Maze.carving`: the walk that a maze is made from.
* `Grid.Seeded`: a grid in which some plain path has turned into gems.
* `Maze.SolvedBy`: the report of a run that follows the route of a maze.

## Main statements

* `Maze.movesAlong_stops`: a walk is translated into the directions that it took.
* `Maze.runBlocks_solution`: every maze is solved perfectly by its own route.
-/

namespace BlockPuzzle

/-! ## Walks and directions -/

/-- A list of neighbours is where some directions lead. -/
theorem Position.exists_eq_stops {p : Position} {ps : List Position}
    (h : (p :: ps).IsChain fun p q => ∃ d, q = p.step d) : ∃ ds, ps = p.stops ds := by
  induction ps generalizing p with
  | nil => exact ⟨[], rfl⟩
  | cons q ps ih =>
    obtain ⟨⟨d, rfl⟩, hrest⟩ := List.isChain_cons_cons.1 h
    obtain ⟨ds, rfl⟩ := ih hrest
    exact ⟨d :: ds, rfl⟩

theorem Maze.movesAlong_stops (p : Position) (ds : List Direction) :
    movesAlong (p :: p.stops ds) = ds.map .move := by
  induction ds generalizing p with
  | nil => rfl
  | cons d ds ih =>
    rw [Position.stops, movesAlong, Position.directionTo?_step, ih, List.map_cons]
    rfl

/-! ## Gems put on the way -/

namespace Grid

variable {g g' g'' : Grid} {p : Position} {x : Cell} {m n : Nat}

/-- Some plain path has turned into gems, and all else is as it was. -/
def Seeded (g g' : Grid) : Prop :=
  ∀ p, g'.get? p = g.get? p ∨ g.get? p = some .path ∧ g'.get? p = some .gem

theorem Seeded.refl (g : Grid) : g.Seeded g := fun _ => .inl rfl

theorem Seeded.trans (h : g.Seeded g') (h' : g'.Seeded g'') : g.Seeded g'' := by
  intro p
  rcases h p with hp | ⟨hpath, hgem⟩
  · rw [← hp]
    exact h' p
  · rcases h' p with hp' | ⟨hpath', -⟩
    · exact .inr ⟨hpath, hp'.trans hgem⟩
    · rw [hgem] at hpath'
      cases hpath'

theorem Seeded.get?_eq_iff (h : g.Seeded g') (hpath : x ≠ .path) (hgem : x ≠ .gem) :
    g'.get? p = some x ↔ g.get? p = some x := by
  rcases h p with hp | ⟨hp, hp'⟩
  · rw [hp]
  · rw [hp, hp']
    simp [hpath.symm, hgem.symm]

theorem Seeded.walkable_eq (h : g.Seeded g') (p : Position) : g'.walkable p = g.walkable p := by
  rw [Grid.walkable_eq, Grid.walkable_eq]
  rcases h p with hp | ⟨hp, hp'⟩
  · rw [hp]
  · rw [hp, hp']
    rfl

end Grid

namespace Maze

variable {σ : Type} {next : σ → Nat × σ} {source : σ} {index : Nat} {g : Grid} {m n : Nat}

theorem seeded_seedGem (g : Grid) (p : Option Position) : g.Seeded (seedGem g p) := by
  unfold seedGem
  split
  · next p =>
    split
    · next hpath =>
      intro q
      rw [Grid.get?_set hpath]
      by_cases hq : q = p
      · rw [if_pos hq, hq]
        exact .inr ⟨hpath, rfl⟩
      · rw [if_neg hq]
        exact .inl rfl
    · exact .refl g
  · exact .refl g

theorem rectangle_seedGem (h : g.Rectangle m n) (p : Option Position) :
    (seedGem g p).Rectangle m n := by
  unfold seedGem
  split
  · split
    · exact h.set _ _
    · exact h
  · exact h

theorem seeded_seedGems (index : Nat) (route : List Position) (g : Grid) :
    g.Seeded (seedGems index route g) := by
  unfold seedGems
  by_cases h₂ : 2 < index
  · have hhalf := seeded_seedGem g route[route.length / 2]?
    by_cases h₆ : 6 < index
    · simpa [h₂, h₆] using hhalf.trans (seeded_seedGem _ _)
    · simpa [h₂, h₆] using hhalf
  · have h₆ : ¬ 6 < index := by omega
    simpa [h₂, h₆] using Grid.Seeded.refl g

theorem rectangle_seedGems (h : g.Rectangle m n) (index : Nat) (route : List Position) :
    (seedGems index route g).Rectangle m n := by
  unfold seedGems
  by_cases h₂ : 2 < index <;> by_cases h₆ : 6 < index <;>
    simp [h₂, h₆, h, rectangle_seedGem]

/-! ## The carved maze -/

/-- The walk that maze number `index` is made from. -/
def carving (next : σ → Nat × σ) (source : σ) (index : Nat) : Carving σ :=
  (Carving.begin (side index) source).walk next index (side index) (effort index)

theorem sound_carving (next : σ → Nat × σ) (source : σ) (index : Nat) :
    (carving next source index).Sound index (side index) :=
  (Carving.sound_begin index (by unfold side; omega) source).walk _

theorem two_le_length_carving (next : σ → Nat × σ) (source : σ) (index : Nat) :
    2 ≤ (carving next source index).route.length :=
  Carving.two_le_length_route (by unfold side; omega) (by unfold effort; omega) source

theorem mem_route_carve {w : World} {p : Position} :
    p ∈ (carve next source w index).route ↔ p ∈ (carving next source index).route :=
  List.mem_reverse

theorem here_ne_start (next : σ → Nat × σ) (source : σ) (index : Nat) :
    (carving next source index).here ≠ ⟨1, 1⟩ :=
  (sound_carving next source index).here_ne_start (two_le_length_carving next source index)

/-- The board of a maze: its end is the goal, and some plain path on the way has turned into
gems. -/
theorem seeded_carve (next : σ → Nat × σ) (source : σ) (w : World) (index : Nat) :
    ((carving next source index).grid.set (carving next source index).here .goal).Seeded
      (carve next source w index).level.grid :=
  seeded_seedGems _ _ _

theorem rectangle_carve (next : σ → Nat × σ) (source : σ) (w : World) (index : Nat) :
    (carve next source w index).level.grid.Rectangle (side index + 2) (side index + 2) :=
  rectangle_seedGems ((sound_carving next source index).rectangle.set _ _) _ _

theorem get?_carving_goal (next : σ → Nat × σ) (source : σ) (index : Nat) (p : Position) :
    ((carving next source index).grid.set (carving next source index).here .goal).get? p =
      if p = (carving next source index).here then some .goal
      else (carving next source index).grid.get? p := by
  have h := sound_carving next source index
  obtain ⟨x, hx, -⟩ := h.exists_walkable h.here_mem_route
  exact Grid.get?_set hx _ _

theorem get?_carve_start (w : World) :
    (carve next source w index).level.grid.get? ⟨1, 1⟩ = some .start := by
  refine ((seeded_carve next source w index).get?_eq_iff (by decide) (by decide)).2 ?_
  rw [get?_carving_goal, if_neg (here_ne_start next source index).symm]
  exact (sound_carving next source index).start

theorem get?_carve_goal (w : World) :
    (carve next source w index).level.grid.get? (carving next source index).here = some .goal := by
  refine ((seeded_carve next source w index).get?_eq_iff (by decide) (by decide)).2 ?_
  rw [get?_carving_goal, if_pos rfl]

/-- The agent can walk on the route and nowhere else. -/
theorem walkable_carve {w : World} {p : Position} :
    (carve next source w index).level.grid.walkable p ↔
      p ∈ (carve next source w index).route := by
  have h := sound_carving next source index
  rw [(seeded_carve next source w index).walkable_eq, Grid.walkable_eq, get?_carving_goal,
    mem_route_carve]
  by_cases hhere : p = (carving next source index).here
  · simpa [hhere, Cell.walkable] using h.here_mem_route
  · rw [if_neg hhere]
    constructor
    · intro hwalkable
      by_contra hp
      cases hx : (carving next source index).grid.get? p with
      | none => simp [hx] at hwalkable
      | some x =>
        obtain rfl := h.uncarved p hp x hx
        simp [hx, Cell.walkable] at hwalkable
    · intro hp
      obtain ⟨x, hx, hwalkable⟩ := h.exists_walkable hp
      rwa [hx, Option.any_some]

/-- The route goes from stop to stop, and it is short enough for the limits of a run. -/
theorem exists_route_carve (next : σ → Nat × σ) (source : σ) (w : World) (index : Nat) :
    ∃ ds, (carve next source w index).route = ⟨1, 1⟩ :: Position.stops ⟨1, 1⟩ ds ∧
      ds.length ≤ 64 := by
  have h := sound_carving next source index
  have hhead : (carve next source w index).route.head? = some ⟨1, 1⟩ :=
    List.head?_reverse.trans h.last
  have hchain : (carve next source w index).route.IsChain fun p q => ∃ d, q = p.step d :=
    List.isChain_reverse.2 h.chain
  have hlength : (carve next source w index).route.length ≤ side index * side index :=
    List.length_reverse.trans_le h.length_route_le
  obtain ⟨ps, hps⟩ := List.head?_eq_some_iff.1 hhead
  rw [hps] at hchain hlength
  obtain ⟨ds, rfl⟩ := Position.exists_eq_stops hchain
  refine ⟨ds, hps, ?_⟩
  -- The greatest maze has eight rows and columns.
  have hside : side index ≤ 8 := Nat.min_le_right _ _
  have hsquare := Nat.mul_le_mul hside hside
  rw [List.length_cons, Position.length_stops] at hlength
  omega

/-- The report of a run that has followed the route of a maze, with nothing left to do. -/
structure SolvedBy (m : Maze) (r : Report) : Prop where
  error : r.error = none
  action_ne_bump : ∀ s ∈ r.trace, s.action ≠ .bump
  reachedGoal : r.reachedGoal
  perfect : r.perfect
  totalSteps : r.totalSteps = m.route.length - 1
  positions : r.trace.map (·.pose.position) = m.route

/-- Every maze is solved perfectly by its own route, whatever its random source yields. -/
theorem runBlocks_solution {σ : Type} (next : σ → Nat × σ) (source : σ) (w : World) (index : Nat)
    {bs : List Block} (hbs : bs.map Block.kind = (carve next source w index).solution) :
    (carve next source w index).solution.length = (carve next source w index).route.length - 1 ∧
      (carve next source w index).SolvedBy (runBlocks bs (carve next source w index).level) ∧
      (carve next source w index).level.optimalSteps =
        max ((carve next source w index).route.length - 1) 2 := by
  obtain ⟨ds, hroute, hlength⟩ := exists_route_carve next source w index
  have hsolution : (carve next source w index).solution = ds.map .move := by
    rw [solution, hroute, movesAlong_stops]
  have hmoves : (carve next source w index).route.length - 1 = ds.length := by
    rw [hroute, List.length_cons, Position.length_stops, Nat.add_sub_cancel]
  have hmem {p : Position} (hp : p ∈ (carve next source w index).route) (hne : p ≠ ⟨1, 1⟩) :
      p ∈ Position.stops ⟨1, 1⟩ ds := by
    rw [hroute, List.mem_cons] at hp
    exact hp.resolve_left hne
  have hwalks : (runBlocks bs (carve next source w index).level).Walks
      (carve next source w index).level (Position.stops ⟨1, 1⟩ ds) := by
    apply runBlocks_walks (hbs.trans hsolution)
    · intro q hq
      rw [walkable_carve, hroute]
      exact List.mem_cons_of_mem _ hq
    · exact Nat.le_trans hlength (by decide)
  have hgoal : (carve next source w index).level.grid.cellAt (carving next source index).here =
      .goal := by
    rw [Grid.cellAt, get?_carve_goal, Option.getD_some]
  have hend : (carving next source index).here ∈ Position.stops ⟨1, 1⟩ ds :=
    hmem (mem_route_carve.2 (sound_carving next source index).here_mem_route)
      (here_ne_start next source index)
  obtain ⟨s, hagrees⟩ := exists_agrees_runNodes (Node.ofBlocks bs)
    (carve next source w index).level {}
  refine ⟨?_, ⟨hwalks.error, fun s => hwalks.action_ne_bump, hwalks.reachedGoal hend hgoal, ?_, ?_,
    ?_⟩, rfl⟩
  · rw [hsolution, hmoves, List.length_map]
  · refine hwalks.perfect hagrees (rectangle_carve next source w index) hend hgoal ?_
    -- What can be collected can be walked on, so it lies on the route, and it is not the start.
    intro q x hq hx
    refine hmem (walkable_carve.1 (Grid.walkable_of_collectible ?_)) ?_
    · rwa [Grid.cellAt, hq]
    · rintro rfl
      rw [get?_carve_start] at hq
      cases hq
      cases hx
  · rw [hwalks.totalSteps, hmoves, Position.length_stops]
  · rw [hwalks.positions, hroute]
    rfl

/-- The way along the walls of the forest's eighth maze and back to its middle. -/
def spiral : List Block :=
  [.right, .right, .right, .right, .down, .down, .down, .down, .left, .left, .left, .left, .up,
    .right, .right].map fun d => ⟨"step", .move d, none⟩

/-- It leads past four stars and two gems. -/
theorem runBlocks_solution_spiral :
    spiral.map Block.kind =
        (carve Congruential.draw (Congruential.seed 83 4) World.forest 7).solution ∧
      (carve Congruential.draw (Congruential.seed 83 4) World.forest 7).SolvedBy
        (runBlocks spiral
          (carve Congruential.draw (Congruential.seed 83 4) World.forest 7).level) := by
  have hbs : spiral.map Block.kind =
      (carve Congruential.draw (Congruential.seed 83 4) World.forest 7).solution := by decide
  exact ⟨hbs, (runBlocks_solution _ _ _ _ hbs).2.1⟩

end Maze

end BlockPuzzle
