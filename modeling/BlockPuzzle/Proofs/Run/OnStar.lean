import BlockPuzzle.Proofs.Run.Moving
import BlockPuzzle.Proofs.Run.Passing
import BlockPuzzle.Proofs.Run.Sequence
import BlockPuzzle.Run.Report

/-!
# Standing on a star

A star is picked up by the move that comes to it. An agent that stands on one has therefore not
moved yet, and what a branch does on a star is never done on a level that does not begin there.

## Main definitions

* `Run.OnStar`: the agent stands on a star.
* `Run.Unmoved`: a run that has made no move yet, although it may have pushed.
* `Node.offStar`, `Node.offStarAll`: a program tree without what its branches do on a star.

## Main statements

* `Run.unmoved_of_onStar`: an agent on a star has not moved.
* `Node.execAll_offStarAll`: off the stars, a list does what it does without those bodies.
* `runNodes_onStar`: both for whole runs.
-/

namespace BlockPuzzle

namespace Run

def OnStar (r : Run) : Prop := r.grid.cellAt r.pose.position = .star

/-- Nothing has happened on the level but pushes. -/
structure Unmoved (l : Level) (r : Run) : Prop where
  history : ∀ s ∈ r.history, s.action = .start ∨ s.action = .bump
  position : r.pose.position = l.start.position
  grid : r.grid = l.grid

variable {limits : Limits} {l : Level} {r r' : Run} {d : Direction}

theorem holds_onStar_iff : r.holds .onStar ↔ r.OnStar := by simp [holds, OnStar]

theorem not_onStar_arrive (r : Run) (p : Position) : (r.arrive p).grid.cellAt p ≠ .star := by
  by_cases h : (r.grid.cellAt p).collectible
  · simp [arrive, h, Grid.cellAt_set_path h]
  · intro hstar
    have hcell : r.grid.cellAt p = .star := by simpa [arrive, h] using hstar
    exact h (by rw [hcell]; rfl)

/-- Only a push leaves the agent on a star. -/
theorem move_of_onStar (h : (r.move d).OnStar) :
    r.move d = { r with steps := r.steps + 1 }.record .bump := by
  by_cases hd : r.grid.walkable (r.pose.position.step d)
  · rw [move_of_walkable hd] at h
    exact absurd h (not_onStar_arrive r (r.pose.position.step d))
  · exact move_of_not_walkable hd

theorem onStar_of_move (h : (r.move d).OnStar) : r.OnStar := by
  have hmove := move_of_onStar h
  rw [hmove] at h
  exact h

theorem Reaches.onStar (h : Reaches limits r r') (hstar : r'.OnStar) : r.OnStar := by
  induction h with
  | refl => exact hstar
  | move d _ _ _ ih => exact ih (onStar_of_move hstar)
  | tooManySteps _ _ _ ih => exact ih hstar
  | tooMuchNesting _ _ _ ih => exact ih hstar

theorem unmoved_begin (l : Level) : Unmoved l (Run.begin l) where
  history := by simp [Run.begin, shown]
  position := rfl
  grid := rfl

theorem Unmoved.push (h : Unmoved l r) :
    Unmoved l ({ r with steps := r.steps + 1 }.record .bump) where
  history := by
    rw [history_record, List.forall_mem_cons]
    exact ⟨.inr rfl, h.history⟩
  position := h.position
  grid := h.grid

theorem Unmoved.fail (h : Unmoved l r) (e : RunError) : Unmoved l (r.fail e) where
  history := h.history
  position := h.position
  grid := h.grid

/-- An agent on a star has not moved. -/
theorem unmoved_of_onStar (h : Reaches limits (Run.begin l) r) (hstar : r.OnStar) :
    Unmoved l r := by
  induction h with
  | refl => exact unmoved_begin l
  | move d _ _ _ ih =>
    rw [move_of_onStar hstar]
    exact (ih (onStar_of_move hstar)).push
  | tooManySteps _ _ _ ih => exact (ih hstar).fail .tooManySteps
  | tooMuchNesting _ _ _ ih => exact (ih hstar).fail .tooMuchNesting

/-! ## Bodies that make a difference on stars only -/

variable {body body' : Run → Run} {depth : Nat}

theorem enter_congr (h : ¬ r.OnStar → body r = body' r) (hr : ¬ r.OnStar) :
    r.enter limits depth body = r.enter limits depth body' := by
  rw [enter_eq, enter_eq]
  split
  · rfl
  · exact h hr

theorem iterate_congr (h : ∀ r : Run, ¬ r.OnStar → body r = body' r)
    (hkeep : ∀ r : Run, ¬ r.OnStar → ¬ (body r).OnStar) (n : Nat) (hr : ¬ r.OnStar) :
    r.iterate body n = r.iterate body' n := by
  induction n generalizing r with
  | zero => rfl
  | succ n ih =>
    rw [iterate_succ, iterate_succ, ← h r hr]
    split
    · rfl
    · exact ih (hkeep r hr)

end Run

/-! ## Leaving those bodies out -/

mutual

/-- The node without what its branches do on a star, on every level of it. -/
def Node.offStar : Node → Node
  | ⟨b, body, alternative⟩ =>
    ⟨b, if b.kind = .branch .onStar then [] else offStarAll body, offStarOtherwise alternative⟩

def Node.offStarOtherwise : Option (List Node) → Option (List Node)
  | none => none
  | some nodes => some (offStarAll nodes)

/-- Two lists in which this is the same differ only in what their branches do on a star. -/
def Node.offStarAll : List Node → List Node
  | [] => []
  | n :: ns => n.offStar :: offStarAll ns

end

namespace Node

open Run

variable {limits : Limits}

theorem not_onStar_execAll (nodes : List Node) (depth : Nat) {r : Run} (hr : ¬ r.OnStar) :
    ¬ (execAll limits nodes depth r).OnStar :=
  fun hstar => hr ((reaches_execAll nodes depth r).onStar hstar)

theorem not_onStar_enter (nodes : List Node) (depth : Nat) {r : Run} (hr : ¬ r.OnStar) :
    ¬ (r.enter limits depth (execAll limits nodes depth)).OnStar := by
  rw [enter_eq]
  split
  · exact hr
  · exact not_onStar_execAll nodes depth hr

mutual

theorem exec_offStar : (n : Node) → (depth : Nat) → (r : Run) → ¬ r.OnStar →
    n.offStar.exec limits depth r = n.exec limits depth r
  | ⟨b, body, alternative⟩, depth, r, hr => by
    have hbody (r : Run) (hr : ¬ r.OnStar) :
        r.enter limits (depth + 1) (execAll limits (offStarAll body) (depth + 1)) =
          r.enter limits (depth + 1) (execAll limits body (depth + 1)) :=
      enter_congr (execAll_offStarAll body (depth + 1) r) hr
    have halternative := execOtherwise_offStarOtherwise alternative (depth + 1) r hr
    rw [offStar]
    cases hk : b.kind with
    | loop =>
      have hkeep (r : Run) (hr : ¬ r.OnStar) :
          ¬ (r.enter limits (depth + 1) (execAll limits (offStarAll body) (depth + 1))).OnStar :=
        not_onStar_enter (offStarAll body) (depth + 1) hr
      have hiterate := iterate_congr hbody hkeep b.count hr
      simpa [exec_mk, hk] using hiterate
    | branch p =>
      by_cases hp : p = .onStar
      · subst hp
        -- The predicate does not hold, so that neither body is looked at.
        have hholds : ¬ r.holds .onStar := fun h => hr (holds_onStar_iff.1 h)
        rw [exec_of_branch hk, exec_of_branch hk, if_neg hholds, if_neg hholds, halternative]
      · have hother : ¬ Kind.branch p = .branch .onStar := by simpa using hp
        rw [if_neg hother, exec_of_branch hk, exec_of_branch hk, halternative, hbody r hr]
    | _ => simp [exec_mk, hk]

theorem execOtherwise_offStarOtherwise : (alternative : Option (List Node)) → (depth : Nat) →
    (r : Run) → ¬ r.OnStar →
    execOtherwise limits (offStarOtherwise alternative) depth r =
      execOtherwise limits alternative depth r
  | none, depth, r, _ => by rw [offStarOtherwise]
  | some nodes, depth, r, hr => by
    rw [offStarOtherwise, execOtherwise_some, execOtherwise_some]
    exact enter_congr (execAll_offStarAll nodes depth r) hr

/-- Off the stars, a list does the same without what its branches do on one. -/
theorem execAll_offStarAll : (nodes : List Node) → (depth : Nat) → (r : Run) → ¬ r.OnStar →
    execAll limits (offStarAll nodes) depth r = execAll limits nodes depth r
  | [], depth, r, _ => by rw [offStarAll]
  | n :: ns, depth, r, hr => by
    have hrest := execAll_offStarAll ns depth (n.exec limits depth r)
    rw [offStarAll, execAll_cons, execAll_cons, proceed_eq, proceed_eq, exec_offStar n depth r hr]
    by_cases herror : r.error.isSome
    · rw [if_pos herror, if_pos herror]
    by_cases hsteps : limits.maxSteps < r.steps
    · rw [if_neg herror, if_neg herror, if_pos hsteps, if_pos hsteps]
    · have hreaches := reaches_exec n depth r (by simpa using herror) (Nat.le_of_not_lt hsteps)
      rw [if_neg herror, if_neg herror, if_neg hsteps, if_neg hsteps]
      exact hrest fun hstar => hr (hreaches.onStar hstar)

end

end Node

theorem Run.ofNodes_offStarAll (limits : Limits) (nodes : List Node) {l : Level}
    (h : l.grid.cellAt l.start.position ≠ .star) :
    Run.ofNodes limits (Node.offStarAll nodes) l = Run.ofNodes limits nodes l :=
  enter_congr (Node.execAll_offStarAll nodes 0 (Run.begin l)) h

/-- In every state that a run passes through, an agent on a star has not moved since the level
showed it there. On a level that begins off the stars, programs that differ only in what their
branches do on a star therefore have the same report. -/
theorem runNodes_onStar (l : Level) (limits : Limits) :
    (∀ (nodes : List Node) (r : Run), Node.Passes limits nodes 0 (Run.begin l) r →
        r.grid.cellAt r.pose.position = .star →
          (∀ s ∈ r.history, s.action = .start ∨ s.action = .bump) ∧
            r.pose.position = l.start.position ∧ l.grid.cellAt l.start.position = .star) ∧
      (l.grid.cellAt l.start.position ≠ .star →
        ∀ nodes nodes' : List Node, Node.offStarAll nodes = Node.offStarAll nodes' →
          runNodes nodes l limits = runNodes nodes' l limits) := by
  constructor
  · intro nodes r hpasses hstar
    obtain ⟨hhistory, hposition, hgrid⟩ := Run.unmoved_of_onStar hpasses.reaches hstar
    rw [hgrid, hposition] at hstar
    exact ⟨hhistory, hposition, hstar⟩
  · intro hstart nodes nodes' hsame
    have hrun := Run.ofNodes_offStarAll limits nodes hstart
    have hrun' := Run.ofNodes_offStarAll limits nodes' hstart
    rw [runNodes, runNodes, ← hrun, hsame, hrun']

/-- An agent on a star, between a wall and a path. -/
def Level.starred : Level := { grid := ⟨[[.wall, .star, .path]]⟩, start := ⟨⟨0, 1⟩, .left⟩ }

/-- An agent that looks at a star. -/
def Level.beforeStar : Level := { grid := ⟨[[.path, .star, .path]]⟩, start := ⟨⟨0, 0⟩, .right⟩ }

/-- A push to the left, and twice a body that is for stars, or else a step to the right. -/
def Node.starGazing (body : List Node) : List Node :=
  let step (d : Direction) : Node := .leaf ⟨"step", .move d, none⟩
  [step .left,
    ⟨⟨"twice", .loop, none⟩, [⟨⟨"star", .branch .onStar, none⟩, body, some [step .right]⟩], none⟩]

/-- After the push the agent still stands where it began. Where it begins beside the star the body
makes no difference, not even one that would run into the limit on the depth. -/
theorem runNodes_onStar_starGazing :
    Node.Passes { maxDepth := 2 } (Node.starGazing []) 0 (Run.begin Level.starred)
        ((Run.begin Level.starred).move .left) ∧
      ((Run.begin Level.starred).move .left).pose.position = Level.starred.start.position ∧
      Level.beforeStar.grid.cellAt Level.beforeStar.start.position ≠ .star ∧
      runNodes (Node.starGazing (Node.starGazing [])) Level.beforeStar { maxDepth := 2 } =
        runNodes (Node.starGazing []) Level.beforeStar { maxDepth := 2 } := by
  have hpasses : Node.Passes { maxDepth := 2 } (Node.starGazing []) 0 (Run.begin Level.starred)
      ((Run.begin Level.starred).move .left) := .next rfl (by decide) .first
  obtain ⟨-, hposition, -⟩ := (runNodes_onStar Level.starred { maxDepth := 2 }).1 _ _ hpasses
    (by decide)
  exact ⟨hpasses, hposition, by decide,
    (runNodes_onStar Level.beforeStar { maxDepth := 2 }).2 (by decide) _ _ rfl⟩

end BlockPuzzle
