import BlockPuzzle.Proofs.Game.Scoring
import BlockPuzzle.Proofs.Grid.Rectangle
import BlockPuzzle.Proofs.Program.Filing

/-!
# Programs of moves

A program of moves alone goes from stop to stop. Where every stop can be entered and the steps are
enough, its run comes to all of them and to nothing else.

## Main definitions

* `Position.stops`: the positions to which directions lead, one after the other.
* `Run.Walked`: a run that has come to some positions since, and to each by a move.
* `Report.Walks`: the report of a run that has come to some positions and to nothing else.

## Main statements

* `Node.walked_execAll`: a list of moves comes to its stops.
* `runBlocks_walks`: so does a program, and its report is that of the walk.
* `Report.Walks.perfect`: a walk over all that there is to collect, with a goal on its way, is
  perfect.
-/

namespace BlockPuzzle

/-- The positions to which directions lead from `p`, one after the other. -/
def Position.stops (p : Position) : List Direction → List Position
  | [] => []
  | d :: ds => p.step d :: (p.step d).stops ds

theorem Position.length_stops (p : Position) (ds : List Direction) :
    (p.stops ds).length = ds.length := by
  induction ds generalizing p with
  | nil => rfl
  | cons d ds ih => rw [stops, List.length_cons, ih, List.length_cons]

namespace Grid

variable {g : Grid} {p : Position}

/-- Picking up neither makes a goal nor takes one away. -/
theorem cellAt_cleared_eq_goal {ps : List Position} :
    (g.cleared ps).cellAt p = .goal ↔ g.cellAt p = .goal := by
  rw [cellAt, cellAt, get?_cleared]
  cases g.get? p with
  | none => rfl
  | some x =>
    by_cases hp : p ∈ ps
    · simpa [hp, Cell.collectible] using Cell.taken_eq_iff (x := x) (y := .goal) (by decide)
    · simp [hp]

end Grid

namespace Run

variable {limits : Limits} {r r' r'' : Run} {d : Direction} {ps qs : List Position}

theorem grid_arrive {p : Position} (h : r.grid.walkable p) :
    (r.arrive p).grid = r.grid.cleared [p] := by
  rw [Grid.cleared_singleton_eq_ite (Grid.get?_of_walkable h)]
  rfl

/-! ## Walks -/

/-- Since `r`, the agent has come to the positions in `ps`, and nothing else has happened. -/
structure Walked (ps : List Position) (r r' : Run) : Prop where
  error : r'.error = r.error
  steps : r'.steps = r.steps + ps.length
  history : r'.history.map Step.entered? =
    (ps.map some).reverse ++ r.history.map Step.entered?

theorem Walked.refl (r : Run) : Walked [] r r := ⟨rfl, rfl, rfl⟩

theorem Walked.trans (h : Walked ps r r') (g : Walked qs r' r'') : Walked (ps ++ qs) r r'' where
  error := g.error.trans h.error
  steps := by rw [g.steps, h.steps, List.length_append, Nat.add_assoc]
  history := by
    rw [g.history, h.history, List.map_append, List.reverse_append, List.append_assoc]

theorem walked_move (h : r.grid.walkable (r.pose.position.step d)) :
    Walked [r.pose.position.step d] r (r.move d) where
  error := error_move r d
  steps := steps_move r d
  history := by rw [move_of_walkable h]; rfl

theorem walkable_move (h : r.grid.walkable (r.pose.position.step d)) (q : Position) :
    (r.move d).grid.walkable q = r.grid.walkable q := by
  have hgrid : (r.move d).grid = (r.arrive (r.pose.position.step d)).grid := by
    rw [move_of_walkable h]; rfl
  rw [hgrid, grid_arrive h, Grid.walkable_cleared]

theorem position_move (h : r.grid.walkable (r.pose.position.step d)) :
    (r.move d).pose.position = r.pose.position.step d := by
  rw [move_of_walkable h]; rfl

end Run

namespace Node

open Run

variable {limits : Limits} {depth : Nat} {r : Run}

theorem exec_of_move {n : Node} {d : Direction} (hk : n.block.kind = .move d) :
    n.exec limits depth r = r.move d := by
  obtain ⟨b, body, alternative⟩ := n
  rw [exec_mk]
  simp only at hk
  rw [hk]

/-- A list of moves comes to all of its stops, where they can be entered and the steps are
enough. -/
theorem walked_execAll {ds : List Direction} {nodes : List Node}
    (hkinds : nodes.map Node.kind = ds.map .move)
    (hfree : ∀ q ∈ r.pose.position.stops ds, r.grid.walkable q) (herror : r.error = none)
    (hsteps : r.steps + ds.length ≤ limits.maxSteps + 1) :
    Walked (r.pose.position.stops ds) r (execAll limits nodes depth r) := by
  induction ds generalizing nodes r with
  | nil =>
    obtain rfl : nodes = [] := by simpa using hkinds
    rw [execAll_nil]
    exact .refl r
  | cons d ds ih =>
    obtain ⟨n, ns, rfl, hk, hns⟩ := List.map_eq_cons_iff.1 hkinds
    rw [List.length_cons] at hsteps
    rw [Position.stops, List.forall_mem_cons] at hfree
    have hmove := walked_move hfree.1
    have hposition := position_move hfree.1
    have hrest : Walked ((r.move d).pose.position.stops ds) (r.move d)
        (execAll limits ns depth (r.move d)) := by
      apply ih hns
      · rw [hposition]
        intro q hq
        rw [walkable_move hfree.1]
        exact hfree.2 q hq
      · rw [error_move, herror]
      · rw [steps_move]
        omega
    have hstep : execAll limits (n :: ns) depth r = execAll limits ns depth (r.move d) := by
      rw [execAll_cons, proceed_eq, if_neg (by simp [herror]), if_neg (by omega), exec_of_move hk]
    rw [hstep]
    rw [hposition] at hrest
    exact hmove.trans hrest

/-- A program that opens nothing is read block by block. -/
theorem ofBlocks_of_moves {bs : List Block} {ds : List Direction}
    (hkinds : bs.map Block.kind = ds.map .move) : ofBlocks bs = bs.map leaf := by
  rw [ofBlocks_eq]
  induction bs generalizing ds with
  | nil => rw [reading, List.map_nil]
  | cons b bs ih =>
    obtain ⟨d, ds, rfl, hk, hbs⟩ := List.map_eq_cons_iff.1 hkinds.symm
    rw [reading_cons_of_leaf (by simp [← hk, Kind.isOpener]) (by simp [← hk, Kind.isMarker]),
      ih hbs.symm, List.map_cons]

end Node

/-! ## Reports of walks -/

namespace Step

variable {s : Step} {p : Position}

theorem entered?_eq_some_iff :
    s.entered? = some p ↔ (∃ d, s.action = .move d) ∧ s.pose.position = p := by
  cases h : s.action <;> simp [entered?, h]

theorem map_position_of_entered? {ss : List Step} {ps : List Position}
    (h : ss.map entered? = ps.map some) : ss.map (·.pose.position) = ps := by
  induction ss generalizing ps with
  | nil =>
    obtain rfl : ps = [] := List.map_eq_nil_iff.1 h.symm
    rfl
  | cons s ss ih =>
    obtain ⟨p, ps, rfl, hp, hps⟩ := List.map_eq_cons_iff.1 h.symm
    rw [List.map_cons, (entered?_eq_some_iff.1 hp.symm).2, ih hps.symm]

end Step

/-- The agent has come to the positions in `ps`, and nothing else has happened on the level. -/
structure Report.Walks (l : Level) (ps : List Position) (r : Report) : Prop where
  plays : r.Plays l
  error : r.error = none
  totalSteps : r.totalSteps = ps.length
  trace : r.trace.map Step.entered? = none :: ps.map some

theorem runBlocks_walks {l : Level} {limits : Limits} {bs : List Block} {ds : List Direction}
    (hkinds : bs.map Block.kind = ds.map .move)
    (hfree : ∀ q ∈ l.start.position.stops ds, l.grid.walkable q)
    (hsteps : ds.length ≤ limits.maxSteps + 1) :
    (runBlocks bs l limits).Walks l (l.start.position.stops ds) := by
  have hnodes : (Node.ofBlocks bs).map Node.kind = ds.map .move := by
    rw [Node.ofBlocks_of_moves hkinds, List.map_map, ← hkinds]
    rfl
  have hbegin : (Run.begin l).steps = 0 := rfl
  have hwalked : Run.Walked (l.start.position.stops ds) (Run.begin l)
      (Run.ofNodes limits (Node.ofBlocks bs) l) := by
    rw [Run.ofNodes_eq, Run.enter_of_le (Nat.zero_le _)]
    apply Node.walked_execAll (r := Run.begin l) hnodes hfree rfl
    rwa [hbegin, Nat.zero_add]
  refine ⟨(Run.sound_ofNodes limits _ l).plays l.grid, hwalked.error, ?_, ?_⟩
  · have htotal : (runBlocks bs l limits).totalSteps =
        (Run.ofNodes limits (Node.ofBlocks bs) l).steps := rfl
    rw [htotal, hwalked.steps, hbegin, Nat.zero_add]
  · have hhistory := congrArg List.reverse hwalked.history
    rw [List.reverse_append, List.reverse_reverse, ← List.map_reverse] at hhistory
    exact hhistory

namespace Report.Walks

variable {l : Level} {ps : List Position} {p : Position} {r : Report} {s : Step} {m n : Nat}

/-- Behind the first step of the trace come the arrivals. -/
theorem exists_arrivals (h : r.Walks l ps) :
    ∃ ss, r.trace = Step.first l :: ss ∧ ss.map Step.entered? = ps.map some := by
  obtain ⟨ss, hss⟩ := List.head?_eq_some_iff.1 h.plays.first
  have htrace := h.trace
  rw [hss, List.map_cons] at htrace
  exact ⟨ss, hss, (List.cons.inj htrace).2⟩

theorem positions (h : r.Walks l ps) : r.trace.map (·.pose.position) = l.start.position :: ps := by
  obtain ⟨ss, hss, hps⟩ := h.exists_arrivals
  rw [hss, List.map_cons, Step.map_position_of_entered? hps]
  rfl

theorem action_ne_bump (h : r.Walks l ps) (hs : s ∈ r.trace) : s.action ≠ .bump := by
  obtain ⟨ss, hss, hps⟩ := h.exists_arrivals
  rw [hss, List.mem_cons] at hs
  obtain rfl | hs := hs
  · exact nofun
  · obtain ⟨p, -, hp⟩ := List.mem_map.1 (hps ▸ List.mem_map_of_mem hs)
    intro hbump
    simp [Step.entered?, hbump] at hp

theorem entered_trace (h : r.Walks l ps) : Step.entered r.trace = ps := by
  have hentered : Step.entered r.trace = (r.trace.map Step.entered?).filterMap id := by
    rw [List.filterMap_map]
    rfl
  rw [hentered, h.trace]
  simp

/-- A goal on the way is reached. -/
theorem reachedGoal (h : r.Walks l ps) (hp : p ∈ ps) (hgoal : l.grid.cellAt p = .goal) :
    r.reachedGoal := by
  have hmem : some p ∈ r.trace.map Step.entered? := by
    rw [h.trace]
    exact List.mem_cons_of_mem _ (List.mem_map_of_mem hp)
  obtain ⟨s, hs, hentered⟩ := List.mem_map.1 hmem
  obtain ⟨k, hk⟩ := List.mem_iff_getElem?.1 hs
  have haccounts := Step.accounts_of_chain h.plays.first h.plays.chain hk
  obtain ⟨hmove, hposition⟩ := Step.entered?_eq_some_iff.1 hentered
  refine h.plays.reachedGoal.2 ⟨s, hs, hmove, ?_⟩
  rw [haccounts.grid, hposition]
  exact Grid.cellAt_cleared_eq_goal.2 hgoal

/-- The last board is that of the level without what lay on the way. -/
theorem grid_eq_of_last? (h : r.Walks l ps) (hs : r.last? = some s) :
    s.grid = l.grid.cleared ps := by
  rw [Report.last?, List.getLast?_eq_getElem?] at hs
  have haccounts := Step.accounts_of_chain h.plays.first h.plays.chain hs
  obtain ⟨hk, -⟩ := List.getElem?_eq_some_iff.1 hs
  rw [List.take_of_length_le (by omega), h.entered_trace] at haccounts
  exact haccounts.grid

/-- A walk over all that there is to collect, with a goal on its way, is perfect. -/
theorem perfect (h : r.Walks l ps) (hagrees : r.Agrees s) (hl : l.grid.Rectangle m n)
    (hp : p ∈ ps) (hgoal : l.grid.cellAt p = .goal)
    (hall : ∀ q x, l.grid.get? q = some x → x.collectible → q ∈ ps) : r.perfect := by
  have hnone (x : Cell) (hx : x.collectible) : s.grid.count x = 0 := by
    rw [h.grid_eq_of_last? hagrees.last]
    exact hl.count_cleared_eq_zero hx fun q hq => hall q x hq hx
  exact hagrees.perfect.2 ⟨h.reachedGoal hp hgoal, hnone .star rfl, hnone .gem rfl⟩

end Report.Walks

end BlockPuzzle
