import BlockPuzzle.Proofs.Grid.Counting
import BlockPuzzle.Proofs.Program.Renaming
import BlockPuzzle.Proofs.Run.Moving
import BlockPuzzle.Proofs.Run.Reaches
import BlockPuzzle.Run.Report

/-!
# Boards drawn anew

A run sees its board only through the cells at positions and through steps from one position to the
next. Where a second drawing of the board shows the same cells, and steps lead from drawn positions
to drawn positions, a program whose moves are turned alike does the same on the second drawing.

## Main definitions

* `Redrawing`: where positions go, what becomes of directions, and the second drawing of a grid.
* `Redrawing.run`, `Redrawing.report`: runs and reports on the second drawing.
* `Redrawing.Faithful`: a redrawing that shows the same board for all grids of a kind.
* `Redrawing.Translates`: a way to replace blocks that fits a redrawing.

## Main statements

* `Redrawing.faithful_of_cellAt`: for rectangles it is enough that positions are moved one to one
  and show the same cells.
* `Redrawing.Faithful.run_move`: a move on the drawing is the drawing of a move.
* `Redrawing.Faithful.execAll_mapAll`: the same for lists of nodes.
* `Redrawing.Faithful.runBlocks_map`: the report of a translated program on the drawn level is the
  drawing of the report.
-/

namespace BlockPuzzle

/-- The action with its direction, if it has one, turned. -/
def Action.turned (turn : Direction → Direction) : Action → Action
  | .move d => .move (turn d)
  | a => a

/-- A second way to draw boards. -/
structure Redrawing where
  position : Position → Position
  turn : Direction → Direction
  grid : Grid → Grid

namespace Redrawing

def pose (e : Redrawing) (a : Pose) : Pose := ⟨e.position a.position, e.turn a.facing⟩

def step (e : Redrawing) (s : Step) : Step :=
  { s with pose := e.pose s.pose, grid := e.grid s.grid, action := s.action.turned e.turn }

def run (e : Redrawing) (r : Run) : Run :=
  { r with grid := e.grid r.grid, pose := e.pose r.pose, history := r.history.map e.step }

def report (e : Redrawing) (r : Report) : Report := { r with trace := r.trace.map e.step }

def level (e : Redrawing) (l : Level) : Level :=
  { l with grid := e.grid l.grid, start := e.pose l.start }

/-- The block with its move, if it is one, turned. -/
def block (e : Redrawing) (b : Block) : Block := { b with kind := b.kind.turned e.turn }

/-- For the grids of a kind, the second drawing shows what the first one does. Picking up is all
that happens to a grid in a run. -/
structure Faithful (e : Redrawing) (Fits : Grid → Prop) : Prop where
  position_step : ∀ p d, e.position (p.step d) = (e.position p).step (e.turn d)
  cellAt_grid : ∀ g p, Fits g → (e.grid g).cellAt (e.position p) = g.cellAt p
  grid_set : ∀ g p, Fits g → (g.cellAt p).collectible →
    e.grid (g.set p .path) = (e.grid g).set (e.position p) .path
  count_grid : ∀ g x, Fits g → x.collectible → (e.grid g).count x = g.count x
  fits_set : ∀ g p, Fits g → Fits (g.set p .path)

/-- For rectangles of one size it is enough to know where positions go and that they show the same
there. What picking up and counting do on the drawing follows, since no position of the drawing is
left over. -/
theorem faithful_of_cellAt {e : Redrawing} {m n m' n' : Nat}
    (hstep : ∀ p d, e.position (p.step d) = (e.position p).step (e.turn d))
    (hposition : e.position.Bijective)
    (hrectangle : ∀ g, g.Rectangle m n → (e.grid g).Rectangle m' n')
    (hcell : ∀ g p, g.Rectangle m n → (e.grid g).cellAt (e.position p) = g.cellAt p) :
    e.Faithful (·.Rectangle m n) where
  position_step := hstep
  cellAt_grid := hcell
  grid_set := by
    intro g p hg hp
    have hget := Grid.get?_of_walkable (Grid.walkable_of_collectible hp)
    have hp' : ((e.grid g).cellAt (e.position p)).collectible := by rwa [hcell g p hg]
    have hget' := Grid.get?_of_walkable (Grid.walkable_of_collectible hp')
    refine (hrectangle _ (hg.set p .path)).ext_cellAt ((hrectangle g hg).set _ _) fun q => ?_
    obtain ⟨q, rfl⟩ := hposition.surjective q
    rw [hcell _ q (hg.set p .path), Grid.cellAt_set hget, Grid.cellAt_set hget', hcell g q hg]
    simp only [hposition.injective.eq_iff]
  count_grid := by
    intro g x hg hx
    refine hg.count_eq_of_bijective (hrectangle g hg) hposition (fun p => hcell g p hg) ?_
    rintro rfl
    cases hx
  fits_set g p hg := hg.set p .path

/-- The blocks are replaced by blocks that do the same on the second drawing. -/
structure Translates (e : Redrawing) (f : Block → Block) : Prop where
  kind : ∀ b, (f b).kind = b.kind.turned e.turn
  count : ∀ b, b.kind = .loop → (f b).count = b.count

theorem translates_block (e : Redrawing) : e.Translates e.block where
  kind _ := rfl
  count _ _ := rfl

variable {e : Redrawing} {Fits : Grid → Prop} {limits : Limits} {r r' : Run} {d : Direction}

@[simp] theorem error_run (e : Redrawing) (r : Run) : (e.run r).error = r.error := rfl

@[simp] theorem steps_run (e : Redrawing) (r : Run) : (e.run r).steps = r.steps := rfl

theorem run_begin (e : Redrawing) (l : Level) : e.run (Run.begin l) = Run.begin (e.level l) := rfl

theorem run_fail (e : Redrawing) (r : Run) (err : RunError) :
    e.run (r.fail err) = (e.run r).fail err := rfl

theorem run_record (e : Redrawing) (r : Run) (a : Action) :
    e.run (r.record a) = (e.run r).record (a.turned e.turn) := rfl

namespace Faithful

/-! ## Moves -/

theorem walkable_grid (h : e.Faithful Fits) {g : Grid} (hg : Fits g) (p : Position) :
    (e.grid g).walkable (e.position p) = g.walkable p := by
  rw [Grid.walkable, Grid.walkable, h.cellAt_grid g p hg]

theorem run_arrive (h : e.Faithful Fits) (hr : Fits r.grid) (p : Position) :
    e.run (r.arrive p) = (e.run r).arrive (e.position p) := by
  have hcell := h.cellAt_grid r.grid p hr
  have hset := h.grid_set r.grid p hr
  simp only [run, Run.arrive, pose, hcell]
  split
  · simp [hset ‹_›]
  · rfl

/-- A move on the second drawing is the drawing of a move. -/
theorem run_move (h : e.Faithful Fits) (hr : Fits r.grid) (d : Direction) :
    e.run (r.move d) = (e.run r).move (e.turn d) := by
  have htarget : (e.run r).pose.position.step (e.turn d) = e.position (r.pose.position.step d) :=
    (h.position_step r.pose.position d).symm
  have hwalkable := h.walkable_grid hr (r.pose.position.step d)
  by_cases hd : r.grid.walkable (r.pose.position.step d)
  · have hd' : (e.run r).grid.walkable ((e.run r).pose.position.step (e.turn d)) := by
      rw [htarget]
      exact hwalkable.trans hd
    have harrive := h.run_arrive (r := { r with steps := r.steps + 1 }) hr
      (r.pose.position.step d)
    rw [Run.move_of_walkable hd, Run.move_of_walkable hd', htarget, run_record]
    exact congrArg (·.record (.move (e.turn d))) harrive
  · have hd' : ¬ (e.run r).grid.walkable ((e.run r).pose.position.step (e.turn d)) := by
      rw [htarget]
      exact fun hd' => hd (hwalkable.symm.trans hd')
    rw [Run.move_of_not_walkable hd, Run.move_of_not_walkable hd', run_record]
    rfl

theorem holds_run (h : e.Faithful Fits) (hr : Fits r.grid) (p : Predicate) :
    (e.run r).holds p = r.holds p := by
  have hahead : (e.run r).pose.ahead = e.position r.pose.ahead :=
    (h.position_step r.pose.position r.pose.facing).symm
  have hwalkable := h.walkable_grid hr r.pose.ahead
  have hcell := h.cellAt_grid r.grid r.pose.position hr
  cases p <;> simp_all [Run.holds, run, pose]

theorem fits_move (h : e.Faithful Fits) (hr : Fits r.grid) (d : Direction) :
    Fits (r.move d).grid := by
  by_cases hd : r.grid.walkable (r.pose.position.step d)
  · rw [Run.move_of_walkable hd]
    simp only [Run.record, Run.arrive]
    split
    · exact h.fits_set _ _ hr
    · exact hr
  · rwa [Run.move_of_not_walkable hd]

theorem fits_reaches (h : e.Faithful Fits) (hr : Fits r.grid) (hreaches : Run.Reaches limits r r') :
    Fits r'.grid := by
  induction hreaches with
  | refl => exact hr
  | move d _ _ _ ih => exact h.fits_move ih d
  | tooManySteps _ _ _ ih => exact ih
  | tooMuchNesting _ _ _ ih => exact ih

/-! ## Control -/

variable {depth : Nat} {body body' : Run → Run}

theorem run_enter (hbody : e.run (body r) = body' (e.run r)) :
    e.run (r.enter limits depth body) = (e.run r).enter limits depth body' := by
  rw [Run.enter_eq, Run.enter_eq]
  split
  · rfl
  · exact hbody

theorem run_proceed (hnext : r.error = none → r.steps ≤ limits.maxSteps →
    e.run (body r) = body' (e.run r)) :
    e.run (r.proceed limits body) = (e.run r).proceed limits body' := by
  by_cases herror : r.error.isSome
  · simp [Run.proceed_eq, herror]
  by_cases hsteps : limits.maxSteps < r.steps
  · simp [Run.proceed_eq, herror, hsteps, run_fail]
  · simp [Run.proceed_eq, herror, hsteps, hnext (by simpa using herror) (by omega)]

theorem run_iterate (hbody : ∀ r, Fits r.grid → e.run (body r) = body' (e.run r))
    (hfits : ∀ r, Fits r.grid → Fits (body r).grid) (n : Nat) (hr : Fits r.grid) :
    e.run (r.iterate body n) = (e.run r).iterate body' n := by
  induction n generalizing r with
  | zero => rfl
  | succ n ih =>
    simp only [Run.iterate_succ, ← hbody r hr, error_run]
    split
    · rfl
    · exact ih (hfits r hr)

theorem fits_enter (h : e.Faithful Fits) (nodes : List Node) (depth : Nat) (hr : Fits r.grid) :
    Fits (r.enter limits depth (Node.execAll limits nodes depth)).grid := by
  rw [Run.enter_eq]
  split
  · exact hr
  · exact h.fits_reaches hr (Node.reaches_execAll nodes depth r)

/-! ## Nodes -/

variable {f : Block → Block}

mutual

theorem exec_map (h : e.Faithful Fits) (hf : e.Translates f) : (n : Node) → (depth : Nat) →
    (r : Run) → Fits r.grid →
    e.run (n.exec limits depth r) = (n.map f).exec limits depth (e.run r)
  | ⟨b, body, alternative⟩, depth, r, hr => by
    have hkind := hf.kind b
    have hbody := execAll_mapAll h hf body (depth + 1)
    cases hk : b.kind with
    | move d =>
      simp only [Node.map, Node.exec_mk, hkind, hk, Kind.turned]
      exact h.run_move hr d
    | loop =>
      simp only [Node.map, Node.exec_mk, hkind, hk, Kind.turned, hf.count b hk]
      exact run_iterate (fun r hr => run_enter (hbody r hr))
        (fun r hr => h.fits_enter body (depth + 1) hr) b.count hr
    | branch p =>
      simp only [Node.map, Node.exec_mk, hkind, hk, Kind.turned, h.holds_run hr]
      split
      · exact run_enter (hbody r hr)
      · exact execOtherwise_mapOtherwise h hf alternative (depth + 1) r hr
    | _ => simp only [Node.map, Node.exec_mk, hkind, hk, Kind.turned]

theorem execOtherwise_mapOtherwise (h : e.Faithful Fits) (hf : e.Translates f) :
    (alternative : Option (List Node)) → (depth : Nat) → (r : Run) → Fits r.grid →
    e.run (Node.execOtherwise limits alternative depth r) =
      Node.execOtherwise limits (Node.mapOtherwise f alternative) depth (e.run r)
  | none, depth, r, _ => by simp only [Node.mapOtherwise, Node.execOtherwise_none]
  | some nodes, depth, r, hr => by
    simp only [Node.mapOtherwise, Node.execOtherwise_some]
    exact run_enter (execAll_mapAll h hf nodes depth r hr)

/-- A translated list does on the second drawing what the list does on the first one. -/
theorem execAll_mapAll (h : e.Faithful Fits) (hf : e.Translates f) : (nodes : List Node) →
    (depth : Nat) → (r : Run) → Fits r.grid →
    e.run (Node.execAll limits nodes depth r) =
      Node.execAll limits (Node.mapAll f nodes) depth (e.run r)
  | [], depth, r, _ => by simp only [Node.mapAll, Node.execAll_nil]
  | n :: ns, depth, r, hr => by
    simp only [Node.mapAll, Node.execAll_cons]
    refine run_proceed fun herror hsteps => ?_
    have hreaches : Run.Reaches limits r (n.exec limits depth r) :=
      Node.reaches_exec n depth r herror hsteps
    rw [execAll_mapAll h hf ns depth _ (h.fits_reaches hr hreaches), exec_map h hf n depth r hr]

end

/-! ## Reports -/

theorem report_ofTally (h : e.Faithful Fits) {g : Grid} (hg : Fits g) (r : Run) :
    e.report (Report.ofTally g r.tally) = Report.ofTally (e.grid g) (e.run r).tally := by
  have hstars := h.count_grid g .star hg rfl
  have hgems := h.count_grid g .gem hg rfl
  simp [report, Report.ofTally, Run.tally, run, hstars, hgems]

/-- The report of a translated program on the drawn level is the drawing of the report. -/
theorem runBlocks_map (h : e.Faithful Fits) (hf : e.Translates f) {l : Level} (hl : Fits l.grid)
    (bs : List Block) (limits : Limits) :
    runBlocks (bs.map f) (e.level l) limits = e.report (runBlocks bs l limits) := by
  have hrun : e.run (Run.ofNodes limits (Node.ofBlocks bs) l) =
      Run.ofNodes limits (Node.mapAll f (Node.ofBlocks bs)) (e.level l) := by
    rw [Run.ofNodes_eq, Run.ofNodes_eq, ← run_begin]
    exact run_enter (h.execAll_mapAll hf (Node.ofBlocks bs) 0 (Run.begin l) hl)
  rw [runBlocks, runBlocks, runNodes, runNodes, h.report_ofTally hl, hrun,
    Node.ofBlocks_map hf.kind]
  rfl

end Faithful

end Redrawing

end BlockPuzzle
