import BlockPuzzle.Proofs.Results
import BlockPuzzle.Proofs.Run.Noting
import BlockPuzzle.Run.Checked

/-!
# When a run breaks off

In words of 32 bits a run breaks off at the first node that computes a position without room. It
does so if and only if any of the nodes that the exact run comes to computes such a position, and
otherwise the two runs are the same.

## Main definitions

* `Run.targets`: the positions that a run computes.

## Main statements

* `Engine.notes_checked`: the checked engine looks at the position that a node computes.
* `runNodes?_eq`: when a run breaks off, by the positions that it computes, and what it reports
  otherwise.
-/

namespace BlockPuzzle

/-- The position that a node computes: the end of its step, or what lies ahead. -/
def Node.target? (n : Node) (r : Run) : Option Position :=
  match n.kind with
  | .move d => some (r.pose.position.step d)
  | .branch .wallAhead | .branch .pathAhead => some r.pose.ahead
  | _ => none

namespace Run

/-- The positions that some nodes compute. -/
def targetsOf (cs : List (Node × Run)) : List Position := cs.filterMap fun c => c.1.target? c.2

/-- The positions that the run of a program tree on a level computes. -/
def targets (limits : Limits) (nodes : List Node) (l : Level) : List Position :=
  targetsOf (calls limits nodes l)

end Run

/-! ## The checked engine -/

/-- Looks at the position that a node computes, if it computes one. -/
def Node.checkTarget (n : Node) (r : Run) : Except Overflow PUnit :=
  forM (n.target? r) Position.check

theorem Engine.notes_checked : Engine.checked.Notes Node.checkTarget where
  move h r := by rw [Node.checkTarget, Node.target?, h]; rfl
  holds {n p} h r := by
    rw [Node.checkTarget, Node.target?, h]
    cases p <;> rfl
  rest {n} hdirection hpredicate r := by
    rw [Node.checkTarget, Node.target?]
    cases h : n.kind <;> simp_all [Kind.direction?, Kind.predicate?] <;> rfl

theorem Position.forM_check (ps : List Position) :
    forM ps check = if ∀ p ∈ ps, p.InRange then .ok ⟨⟩ else .error .add := by
  induction ps with
  | nil => simp [pure, Except.pure]
  | cons p ps ih =>
    rw [List.forM_cons, ih, check]
    by_cases hp : p.InRange
    · simp [hp, pure, Except.pure, bind, Except.bind]
    · simp [hp, throw, throwThe, MonadExceptOf.throw, bind, Except.bind]

theorem Run.noteAll_checkTarget (cs : List (Node × Run)) :
    noteAll Node.checkTarget cs = forM (targetsOf cs) Position.check := by
  induction cs with
  | nil => rfl
  | cons c cs ih =>
    rw [noteAll, List.forM_cons, ← noteAll, ih, Node.checkTarget]
    simp only [targetsOf, List.filterMap_cons]
    cases c.1.target? c.2 <;> rfl

/-! ## Reports -/

section

variable (nodes : List Node) (l : Level) (limits : Limits)

/-- A run breaks off if and only if a position that it computes has no room, and otherwise its
report is the exact one. -/
theorem runNodes?_eq :
    runNodes? nodes l limits =
      if ∀ p ∈ Run.targets limits nodes l, p.InRange then .ok (runNodes nodes l limits)
      else .error .add := by
  rw [runNodes?, Run.ofNodes?, Run.ofNodesM_eq Engine.notes_checked, Run.noteAll_checkTarget,
    Position.forM_check, Run.targets]
  split <;> rfl

end

variable {nodes : List Node} {l : Level} {limits : Limits}

/-- There is a report where there is a run to report on. -/
theorem runNodes?_eq_ok_iff_exists {report : Report} :
    runNodes? nodes l limits = .ok report ↔
      ∃ r, Run.ofNodes? limits nodes l = .ok r ∧ Report.ofTally l.grid r.tally = report := by
  rw [runNodes?, bind_eq_ok_iff]
  simp [pure, Except.pure]

theorem runNodes?_eq_ok {report : Report} :
    runNodes? nodes l limits = .ok report ↔
      (∀ p ∈ Run.targets limits nodes l, p.InRange) ∧ runNodes nodes l limits = report := by
  rw [runNodes?_eq]
  split <;> simp_all

theorem runNodes?_eq_error {o : Overflow} :
    runNodes? nodes l limits = .error o ↔ ∃ p ∈ Run.targets limits nodes l, ¬ p.InRange := by
  cases o
  rw [runNodes?_eq]
  split <;> simp_all

end BlockPuzzle
