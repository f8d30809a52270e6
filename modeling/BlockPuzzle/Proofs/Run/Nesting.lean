import BlockPuzzle.Proofs.Program.Nesting
import BlockPuzzle.Proofs.Run.Widening

/-!
# The limit on the nesting

The depth of a program is read off its tree, while a run counts the bodies that it is in. Where the
depth keeps to the limit, no run ever breaks it, whatever its branches and loops do. Where nothing
is left to a branch, a depth beyond the limit always stops the run, because a loop goes into its
body at least once.

## Main definitions

* `Run.Shallow`: a run that was not stopped for its nesting.
* `Node.unbranched`, `Node.unbranchedAll`: no part of the nesting depends on a branch.

## Main statements

* `Node.shallow_execAll`: a list whose nesting is allowed does not break the limit.
* `Node.isSome_error_execAll`: an unbranched list whose nesting is not allowed fails.
* `runNodes_nesting`: the same for the report of a program, by the depth of its nodes.
-/

namespace BlockPuzzle

/-- The run was not stopped for its nesting. -/
def Run.Shallow (r : Run) : Prop := r.error ≠ some .tooMuchNesting

mutual

/-- Nothing but loops opens a body, and no loop has an alternative, which would count and never run.
What lies below other blocks neither counts nor runs, so that anything may stand there. -/
def Node.unbranched : Node → Bool
  | ⟨b, body, alternative⟩ =>
    match b.kind with
    | .loop => alternative.isNone && Node.unbranchedAll body
    | .branch _ => false
    | _ => true

def Node.unbranchedAll : List Node → Bool
  | [] => true
  | n :: ns => n.unbranched && Node.unbranchedAll ns

end

/-! ## Within the limit -/

namespace Run

variable {r : Run}

theorem shallow_begin (l : Level) : (Run.begin l).Shallow := by
  intro h
  cases h

theorem Shallow.move (h : r.Shallow) (d : Direction) : (r.move d).Shallow := by
  rwa [Shallow, error_move]

theorem Shallow.fail_tooManySteps (h : r.Shallow) : (r.fail .tooManySteps).Shallow := by
  cases herror : r.error with
  | none => simp [Shallow, fail, herror]
  | some e => simpa [Shallow, fail, herror] using h

end Run

namespace Node

open Run

variable {limits : Limits}

mutual

theorem shallow_exec : (n : Node) → (depth : Nat) → depth + n.nesting ≤ limits.maxDepth →
    (r : Run) → r.Shallow → (n.exec limits depth r).Shallow
  | ⟨b, body, alternative⟩, depth, hdepth, r, hr => by
    have hnesting (hk : b.kind.isOpener) : nesting ⟨b, body, alternative⟩ =
        max (nestingAll body) (nestingAll (alternative.getD [])) + 1 :=
      nesting_of_isOpener hk
    have hbody := shallow_execAll body (depth + 1)
    rw [exec_mk]
    split
    · exact hr.move _
    · next hk =>
      have hmax := hnesting (by rw [hk]; rfl)
      refine iterate_induction (fun r hr => ?_) b.count r hr
      rw [enter_of_le (by omega)]
      exact hbody (by omega) r hr
    · next hk =>
      have hmax := hnesting (by rw [hk]; rfl)
      split
      · rw [enter_of_le (by omega)]
        exact hbody (by omega) r hr
      · exact shallow_execOtherwise alternative (depth + 1) (by omega) r hr
    all_goals exact hr

theorem shallow_execOtherwise : (alternative : Option (List Node)) → (depth : Nat) →
    depth + nestingAll (alternative.getD []) ≤ limits.maxDepth →
    (r : Run) → r.Shallow → (execOtherwise limits alternative depth r).Shallow
  | none, depth, _, r, hr => by rwa [execOtherwise_none]
  | some nodes, depth, hdepth, r, hr => by
    rw [Option.getD_some] at hdepth
    rw [execOtherwise_some, enter_of_le (by omega)]
    exact shallow_execAll nodes depth hdepth r hr

theorem shallow_execAll : (nodes : List Node) → (depth : Nat) →
    depth + nestingAll nodes ≤ limits.maxDepth →
    (r : Run) → r.Shallow → (execAll limits nodes depth r).Shallow
  | [], depth, _, r, hr => by rwa [execAll_nil]
  | n :: ns, depth, hdepth, r, hr => by
    rw [nestingAll] at hdepth
    rw [execAll_cons, proceed_eq]
    split
    · exact hr
    · split
      · exact hr.fail_tooManySteps
      · exact shallow_execAll ns depth (by omega) _ (shallow_exec n depth (by omega) r hr)

end

theorem shallow_ofNodes {nodes : List Node} (hdepth : nestingAll nodes ≤ limits.maxDepth)
    (l : Level) : (Run.ofNodes limits nodes l).Shallow := by
  rw [Run.ofNodes_eq, Run.enter_of_le (Nat.zero_le _)]
  exact shallow_execAll nodes 0 (by omega) (Run.begin l) (Run.shallow_begin l)

/-! ## Beyond the limit -/

variable {b : Block} {body : List Node} {alternative : Option (List Node)}

/-- Loops are the only unbranched nodes that add to the nesting. -/
theorem loop_of_unbranched (h : unbranched ⟨b, body, alternative⟩)
    (hnesting : 0 < nesting ⟨b, body, alternative⟩) :
    b.kind = .loop ∧ unbranchedAll body ∧
      nesting ⟨b, body, alternative⟩ = nestingAll body + 1 := by
  have hopener : b.kind.isOpener := by
    apply Classical.byContradiction
    intro hopener
    rw [nesting_of_not_isOpener (n := ⟨b, body, alternative⟩) hopener] at hnesting
    exact Nat.lt_irrefl 0 hnesting
  rw [unbranched] at h
  cases hk : b.kind with
  | loop =>
    rw [hk] at h
    simp only [Bool.and_eq_true, Option.isNone_iff_eq_none] at h
    obtain ⟨rfl, hbody⟩ := h
    have hmax : nesting ⟨b, body, none⟩ = max (nestingAll body) (nestingAll []) + 1 :=
      nesting_of_isOpener hopener
    exact ⟨rfl, hbody, by rw [hmax, nestingAll, Nat.max_zero]⟩
  | branch p =>
    rw [hk] at h
    cases h
  | _ => simp [hk, Kind.isOpener] at hopener

mutual

theorem isSome_error_exec : (n : Node) → (depth : Nat) → n.unbranched → depth ≤ limits.maxDepth →
    limits.maxDepth < depth + n.nesting → (r : Run) → (n.exec limits depth r).error.isSome
  | ⟨b, body, alternative⟩, depth, hn, hle, hdepth, r => by
    obtain ⟨hk, hbody, hnesting⟩ := loop_of_unbranched hn (by omega)
    have hfirst : (r.enter limits (depth + 1) (execAll limits body (depth + 1))).error.isSome := by
      by_cases hlimit : limits.maxDepth < depth + 1
      · rw [enter_of_lt hlimit, isSome_error_fail]
      · rw [enter_of_le (by omega)]
        exact isSome_error_execAll body (depth + 1) hbody (by omega) (by omega) r
    rw [exec_mk, hk]
    dsimp only
    rwa [iterate_of_isSome_error hfirst b.count_pos]

/-- The nodes before the one that is nested too deep may fail for their steps, and then that is the
error of the list. -/
theorem isSome_error_execAll : (nodes : List Node) → (depth : Nat) → unbranchedAll nodes →
    depth ≤ limits.maxDepth → limits.maxDepth < depth + nestingAll nodes →
    (r : Run) → (execAll limits nodes depth r).error.isSome
  | [], depth, _, hle, hdepth, r => by
    rw [nestingAll] at hdepth
    omega
  | n :: ns, depth, hnodes, hle, hdepth, r => by
    rw [nestingAll] at hdepth
    rw [unbranchedAll, Bool.and_eq_true] at hnodes
    rw [execAll_cons, proceed_eq]
    split
    · assumption
    · split
      · exact isSome_error_fail r _
      · by_cases hfirst : limits.maxDepth < depth + n.nesting
        · have herror := isSome_error_exec n depth hnodes.1 hle hfirst r
          rwa [execAll_of_isSome_error herror]
        · exact isSome_error_execAll ns depth hnodes.2 hle (by omega) _

end

end Node

/-! ## Reports -/

/-- A run of unbranched nodes, one of which is nested too deep, ends with an error. -/
theorem Run.isSome_error_ofNodes {nodes : List Node} {limits : Limits}
    (hnodes : Node.unbranchedAll nodes) (hdepth : ∃ n ∈ nodes, limits.maxDepth < n.depth)
    (l : Level) : (Run.ofNodes limits nodes l).error.isSome := by
  obtain ⟨n, hn, hdepth⟩ := hdepth
  rw [Run.ofNodes_eq, Run.enter_of_le (Nat.zero_le _)]
  refine Node.isSome_error_execAll nodes 0 hnodes (Nat.zero_le _) ?_ (Run.begin l)
  rw [Nat.zero_add]
  apply Nat.lt_of_not_le
  intro hle
  exact Nat.not_le_of_lt hdepth (Node.nestingAll_le_iff_depth.1 hle n hn)

/-- Where the depth of all nodes is allowed, no run ends for its nesting. Where the nodes leave
nothing to a branch and the depth of one of them is not allowed, every run that does not break off
ends with an error, and on a level that has room no run breaks off. -/
theorem runNodes_nesting (nodes : List Node) (l : Level) (limits : Limits) :
    ((∀ n ∈ nodes, n.depth ≤ limits.maxDepth) →
        (runNodes nodes l limits).error ≠ some .tooMuchNesting) ∧
      (Node.unbranchedAll nodes → (∃ n ∈ nodes, limits.maxDepth < n.depth) →
        (∀ report, runNodes? nodes l limits = .ok report → report.error.isSome) ∧
          (l.HasRoom → ∃ report, runNodes? nodes l limits = .ok report ∧ report.error.isSome)) := by
  constructor
  · intro hdepth
    exact Node.shallow_ofNodes (Node.nestingAll_le_iff_depth.2 hdepth) l
  · intro hnodes hdepth
    have herror : (runNodes nodes l limits).error.isSome :=
      Run.isSome_error_ofNodes hnodes hdepth l
    constructor
    · intro report hreport
      obtain ⟨-, rfl⟩ := runNodes?_eq_ok.1 hreport
      exact herror
    · exact fun hroom => ⟨_, runNodes?_of_hasRoom hroom nodes limits, herror⟩

/-- Two loops inside each other are within a limit of two and beyond a limit of one. -/
theorem runNodes_nesting_nestedPushes :
    (runNodes Node.nestedPushes Level.cell { maxDepth := 2 }).error ≠ some .tooMuchNesting ∧
      ∃ report, runNodes? Node.nestedPushes Level.cell { maxDepth := 1 } = .ok report ∧
        report.error.isSome := by
  have hwithin : ∀ n ∈ Node.nestedPushes, n.depth ≤ 2 :=
    Node.nestingAll_le_iff_depth.1 (by decide)
  have hbeyond : ∃ n ∈ Node.nestedPushes, 1 < n.depth := by
    simp only [Node.depth_eq_nesting]
    decide
  obtain ⟨hshallow, -⟩ := runNodes_nesting Node.nestedPushes Level.cell { maxDepth := 2 }
  obtain ⟨-, hends⟩ := runNodes_nesting Node.nestedPushes Level.cell { maxDepth := 1 }
  exact ⟨hshallow hwithin, (hends (by decide) hbeyond).2 Level.hasRoom_cell⟩

end BlockPuzzle
