import BlockPuzzle.Proofs.Program.Omitting
import BlockPuzzle.Proofs.Run.Budget
import BlockPuzzle.Proofs.Run.Sequence

/-!
# Runs without unknown blocks

An unknown block does nothing, but the steps are looked at before it as before every other block. It
can therefore stop a run, and only one that has made the step too many already and has nothing else
to do.

## Main definitions

* `Run.SameBut`: one run is another, or was stopped where the other had nothing left to do.

## Main statements

* `Node.sameBut_execAll`: a list does the same without its unknown blocks, but for being stopped.
* `runBlocks_filter_isKnown`: the report of a program without its unknown blocks.
-/

namespace BlockPuzzle

def Block.isKnown (b : Block) : Bool := b.kind != .unknown

namespace Run

variable {limits : Limits} {r r' : Run} {body body' : Run → Run} {depth : Nat}

/-- The first run is the second, or it was stopped for one step too many that the second has made,
too. -/
inductive SameBut (limits : Limits) : Run → Run → Prop where
  | same {r : Run} : SameBut limits r r
  | stopped {r : Run} : r.error = none → limits.maxSteps < r.steps →
      SameBut limits (r.fail .tooManySteps) r

theorem sameBut_enter (h : SameBut limits (body r) (body' r)) :
    SameBut limits (r.enter limits depth body) (r.enter limits depth body') := by
  rw [enter_eq, enter_eq]
  split
  · exact .same
  · exact h

end Run

namespace Node

open Run

variable {limits : Limits} {depth : Nat} {r r' : Run} {ns ns' : List Node}

/-- Where the steps have run out, the first block that there is stops the run. -/
theorem execAll_of_lt_steps (herror : r.error = none) (hsteps : limits.maxSteps < r.steps) :
    execAll limits ns depth r = if ns.isEmpty then r else r.fail .tooManySteps := by
  cases ns with
  | nil => simp [execAll_nil]
  | cons n ns => simp [execAll_cons, proceed_eq, herror, hsteps]

/-- A run that was stopped stands still, and the other one does nothing but stop, too. -/
theorem sameBut_execAll_of_sameBut (h : SameBut limits r r')
    (hall : ∀ r, SameBut limits (execAll limits ns depth r) (execAll limits ns' depth r)) :
    SameBut limits (execAll limits ns depth r) (execAll limits ns' depth r') := by
  cases h with
  | same => exact hall r
  | stopped herror hsteps =>
    rw [execAll_of_isSome_error (isSome_error_fail r' _), execAll_of_lt_steps herror hsteps]
    split
    · exact .stopped herror hsteps
    · exact .same

theorem sameBut_iterate_execAll (h : SameBut limits r r')
    (hall : ∀ r, SameBut limits (execAll limits ns depth r) (execAll limits ns' depth r))
    (n : Nat) :
    SameBut limits ((execAll limits ns depth)^[n] r) ((execAll limits ns' depth)^[n] r') := by
  induction n generalizing r r' with
  | zero => exact h
  | succ n ih =>
    rw [Function.iterate_succ_apply, Function.iterate_succ_apply]
    exact ih (sameBut_execAll_of_sameBut h hall)

section

variable {keep : Block → Bool}

mutual

theorem sameBut_exec (hkeep : ∀ b : Block, ¬ keep b → b.kind = .unknown) : (n : Node) →
    (depth : Nat) → (r : Run) →
    SameBut limits (n.exec limits depth r) ((n.filter keep).exec limits depth r)
  | ⟨b, body, alternative⟩, depth, r => by
    have hbody := sameBut_execAll hkeep body (depth + 1)
    rw [Node.filter]
    cases hk : b.kind with
    | loop =>
      by_cases hdepth : limits.maxDepth < depth + 1
      · simp only [exec_mk, hk, enter_eq_fail hdepth]
        exact .same
      · rw [exec_of_loop hk (by omega), exec_of_loop hk (by omega)]
        exact sameBut_iterate_execAll .same hbody b.count
    | branch p =>
      rw [exec_of_branch hk, exec_of_branch hk]
      split
      · exact sameBut_enter (hbody r)
      · exact sameBut_execOtherwise hkeep alternative (depth + 1) r
    | _ =>
      simp only [exec_mk, hk]
      exact .same

theorem sameBut_execOtherwise (hkeep : ∀ b : Block, ¬ keep b → b.kind = .unknown) :
    (alternative : Option (List Node)) → (depth : Nat) → (r : Run) →
    SameBut limits (execOtherwise limits alternative depth r)
      (execOtherwise limits (filterOtherwise keep alternative) depth r)
  | none, depth, r => .same
  | some nodes, depth, r => by
    rw [filterOtherwise, execOtherwise_some, execOtherwise_some]
    exact sameBut_enter (sameBut_execAll hkeep nodes depth r)

theorem sameBut_execAll (hkeep : ∀ b : Block, ¬ keep b → b.kind = .unknown) :
    (nodes : List Node) → (depth : Nat) → (r : Run) →
    SameBut limits (execAll limits nodes depth r) (execAll limits (filterAll keep nodes) depth r)
  | [], depth, r => .same
  | n :: ns, depth, r => by
    have hrest := sameBut_execAll hkeep ns depth
    by_cases herror : r.error.isSome
    · rw [execAll_of_isSome_error herror, execAll_of_isSome_error herror]
      exact .same
    rw [Option.not_isSome_iff_eq_none] at herror
    by_cases hsteps : limits.maxSteps < r.steps
    -- The unknown blocks of a list are what stops it where no others are left.
    · rw [execAll_of_lt_steps herror hsteps, execAll_of_lt_steps herror hsteps]
      split
      · next hempty => cases hempty
      · split
        · exact .stopped herror hsteps
        · exact .same
    have hgo (n : Node) (ns : List Node) :
        execAll limits (n :: ns) depth r = execAll limits ns depth (n.exec limits depth r) := by
      simp [execAll_cons, proceed_eq, herror, hsteps]
    by_cases hn : keep n.block
    · rw [filterAll_cons_of_keep hn, hgo, hgo]
      exact sameBut_execAll_of_sameBut (sameBut_exec hkeep n depth r) hrest
    · have hidle : n.exec limits depth r = r := by
        obtain ⟨b, body, alternative⟩ := n
        rw [exec_mk, hkeep b hn]
      rw [filterAll_cons_of_not_keep hn, hgo, hidle]
      exact hrest r

end

end

end Node

/-- Without its unknown blocks a program has the same report, or else it has made the step too many,
ends without an error, and has the same report but for the error that the steps ran out. -/
theorem runBlocks_filter_isKnown (bs : List Block) (l : Level) (limits : Limits) :
    let report := runBlocks (bs.filter Block.isKnown) l limits
    runBlocks bs l limits = report ∨
      (report.totalSteps = limits.maxSteps + 1 ∧ report.error = none ∧
        runBlocks bs l limits = { report with error := some .tooManySteps }) := by
  have hunknown (b : Block) (hb : ¬ b.isKnown) : b.kind = .unknown := by
    simpa [Block.isKnown] using hb
  have hleaf (b : Block) (hb : ¬ b.isKnown) : ¬ b.kind.isOpener ∧ ¬ b.kind.isMarker := by
    simp [hunknown b hb, Kind.isOpener, Kind.isMarker]
  have hruns : Run.SameBut limits (Run.ofNodes limits (Node.ofBlocks bs) l)
      (Run.ofNodes limits (Node.ofBlocks (bs.filter Block.isKnown)) l) := by
    rw [Node.ofBlocks_filter hleaf]
    exact Run.sameBut_enter (Node.sameBut_execAll hunknown _ 0 (Run.begin l))
  have hbudget := Run.budget_ofNodes limits (Node.ofBlocks (bs.filter Block.isKnown)) l
  intro report
  rw [runBlocks, runNodes]
  simp only [report, runBlocks, runNodes]
  generalize Run.ofNodes limits (Node.ofBlocks bs) l = r at hruns ⊢
  generalize Run.ofNodes limits (Node.ofBlocks (bs.filter Block.isKnown)) l = r' at hruns hbudget ⊢
  cases hruns with
  | same => exact .inl rfl
  | stopped herror hsteps =>
    refine .inr ⟨Nat.le_antisymm hbudget.steps_le hsteps, herror, ?_⟩
    simp [Report.ofTally, Run.tally, Run.fail, herror]

/-- A push too many, with an unknown block behind it. -/
example :
    (runBlocks [⟨"push", .move .left, none⟩, ⟨"jump", .unknown, none⟩] Level.corner
        { maxSteps := 0 }).error = some .tooManySteps ∧
      (runBlocks [⟨"push", .move .left, none⟩] Level.corner { maxSteps := 0 }).error = none := by
  decide

end BlockPuzzle
