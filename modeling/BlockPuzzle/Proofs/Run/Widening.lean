import BlockPuzzle.Proofs.Results
import BlockPuzzle.Proofs.Run.Moving
import BlockPuzzle.Proofs.Run.Sequence
import BlockPuzzle.Proofs.Run.Targets
import Mathlib.Data.List.Infix

/-!
# Wider limits

The limits decide only when a run is stopped. Under wider limits a run does the same, and goes on
where it was stopped before, so that the trace can only become longer. Where it goes on it may come
to a position without room and break off, but it does not break off where it was not stopped before.

## Main definitions

* `Run.Grows`: a part of a run that keeps the history and adds to it.
* `Run.PartOf`: an outcome that is another one, or comes from a stop on the way to it.

## Main statements

* `Node.partOf_execAllM`: a list under some limits does a part of what it does under wider ones.
* `runNodes?_widen`: the trace is a prefix of that under wider limits, and without an error the
  whole report is the same.
-/

namespace BlockPuzzle

namespace Run

variable {limits wide : Limits} {r r' : Run} {body body' : Run → Except Overflow Run} {depth : Nat}
  {x y : Except Overflow Run}

/-! ## Histories only grow -/

theorem Reaches.history_suffix (h : Reaches limits r r') : r.history <:+ r'.history := by
  induction h with
  | refl => exact List.suffix_rfl
  | @move r' d _ _ _ ih =>
    obtain ⟨s, hs⟩ := exists_history_move r' d
    rw [hs]
    exact ih.trans (List.suffix_cons s r'.history)
  | tooManySteps _ _ _ ih => exact ih
  | tooMuchNesting _ _ _ ih => exact ih

/-- Where the part of a run has an outcome, it has added to the history. -/
def Grows (body : Run → Except Overflow Run) : Prop :=
  ∀ r r', body r = .ok r' → r.history <:+ r'.history

theorem Grows.enter (h : Grows body) (limits : Limits) (depth : Nat) :
    Grows (enterM limits depth body) := by
  intro r r' hr
  rw [enterM] at hr
  split at hr
  · cases hr
    exact List.suffix_rfl
  · exact h r r' hr

theorem Grows.iterate (h : Grows body) (n : Nat) : Grows fun r => r.iterateM body n := by
  intro r r' hr
  induction n generalizing r with
  | zero =>
    cases hr
    exact List.suffix_rfl
  | succ n ih =>
    obtain ⟨next, hnext, hr⟩ := exists_of_bind_eq_ok hr
    have hfirst := h r next hnext
    split at hr
    · cases hr
      exact hfirst
    · exact hfirst.trans (ih next hr)

/-! ## Runs that were stopped earlier -/

/-- The two outcomes are the same, or an error has stopped the first one on the way to the second.
On the rest of this way the second one may have broken off. -/
inductive PartOf : Except Overflow Run → Except Overflow Run → Prop where
  | whole {x : Except Overflow Run} : PartOf x x
  | stopped {r : Run} {y : Except Overflow Run} : r.error.isSome →
      (∀ r', y = .ok r' → r.history <:+ r'.history) → PartOf (.ok r) y

theorem PartOf.exists_of_ok (h : PartOf x (.ok r')) :
    ∃ r, x = .ok r ∧ r.history <:+ r'.history := by
  cases h with
  | whole => exact ⟨r', rfl, List.suffix_rfl⟩
  | stopped _ hsuffix => exact ⟨_, rfl, hsuffix r' rfl⟩

theorem PartOf.eq_of_error (h : PartOf (.ok r) y) (herror : r.error = none) : y = .ok r := by
  cases h with
  | whole => rfl
  | stopped hstopped _ =>
    rw [herror] at hstopped
    cases hstopped

/-- What stands still after an error does nothing more to the run that was stopped, while the other
run goes on. -/
theorem PartOf.bind (h : PartOf x y) (hbody : ∀ r, PartOf (body r) (body' r))
    (hidle : ∀ r : Run, r.error.isSome → body r = .ok r) (hgrows : Grows body') :
    PartOf (x >>= body) (y >>= body') := by
  cases h with
  | whole =>
    cases x with
    | error o => exact .whole
    | ok r => exact hbody r
  | @stopped r _ herror hsuffix =>
    have hstays : (Except.ok r >>= body) = .ok r := hidle r herror
    rw [hstays]
    refine .stopped herror fun r' hr' => ?_
    obtain ⟨s, hs, hr'⟩ := exists_of_bind_eq_ok hr'
    exact (hsuffix s hs).trans (hgrows s r' hr')

theorem partOf_enterM (hdepth : limits.maxDepth ≤ wide.maxDepth)
    (hbody : ∀ r, PartOf (body r) (body' r)) (hgrows : Grows body') (depth : Nat) (r : Run) :
    PartOf (r.enterM limits depth body) (r.enterM wide depth body') := by
  by_cases h : limits.maxDepth < depth
  · rw [enterM, if_pos h]
    exact .stopped rfl fun r' hr' => hgrows.enter wide depth r r' hr'
  · rw [enterM, enterM, if_neg h, if_neg (by omega)]
    exact hbody r

theorem partOf_iterateM (hbody : ∀ r, PartOf (body r) (body' r)) (hgrows : Grows body') (n : Nat)
    (r : Run) : PartOf (r.iterateM body n) (r.iterateM body' n) := by
  induction n generalizing r with
  | zero => exact .whole
  | succ n ih =>
    rw [iterateM, iterateM]
    have hfirst := hbody r
    generalize body r = x, body' r = y at hfirst ⊢
    -- A first pass that was stopped ends the loop, while the other run may still go round.
    cases hfirst with
    | whole =>
      cases x with
      | error o => exact .whole
      | ok next =>
        simp only [bind, Except.bind]
        split
        · exact .whole
        · exact ih next
    | @stopped next _ herror hsuffix =>
      simp only [bind, Except.bind, if_pos herror]
      refine .stopped herror fun r' hr' => ?_
      obtain ⟨s, hs, hr'⟩ := exists_of_bind_eq_ok hr'
      split at hr'
      · cases hr'
        exact hsuffix _ hs
      · exact (hsuffix s hs).trans (hgrows.iterate n s r' hr')

end Run

namespace Node

open Run

variable {limits wide : Limits}

theorem grows_execAllM (limits : Limits) (nodes : List Node) (depth : Nat) :
    Grows (execAllM .checked limits nodes depth) := by
  intro r r' hr
  rw [follows_execAllM Engine.notes_checked nodes depth r] at hr
  obtain ⟨-, -, hr⟩ := exists_of_bind_eq_ok hr
  cases hr
  exact (reaches_execAll nodes depth r).history_suffix

mutual

theorem partOf_execM (hsteps : limits.maxSteps ≤ wide.maxSteps)
    (hdepth : limits.maxDepth ≤ wide.maxDepth) : (n : Node) → (depth : Nat) → (r : Run) →
    PartOf (n.execM .checked limits depth r) (n.execM .checked wide depth r)
  | ⟨b, body, alternative⟩, depth, r => by
    have hgrows := grows_execAllM wide body (depth + 1)
    have hbody := partOf_enterM hdepth (partOf_execAllM hsteps hdepth body (depth + 1)) hgrows
      (depth + 1)
    rw [execM, execM]
    cases hk : b.kind with
    | loop => exact partOf_iterateM hbody (hgrows.enter wide (depth + 1)) b.count r
    | branch p =>
      cases hholds : Engine.checked.holds r p with
      | error o => simp only [hholds]; exact .whole
      | ok answer =>
        simp only [hholds]
        cases answer with
        | true => exact hbody r
        | false => exact partOf_execOtherwiseM hsteps hdepth alternative (depth + 1) r
    | _ => exact .whole

theorem partOf_execOtherwiseM (hsteps : limits.maxSteps ≤ wide.maxSteps)
    (hdepth : limits.maxDepth ≤ wide.maxDepth) : (alternative : Option (List Node)) →
    (depth : Nat) → (r : Run) →
    PartOf (execOtherwiseM .checked limits alternative depth r)
      (execOtherwiseM .checked wide alternative depth r)
  | none, depth, r => by
    rw [execOtherwiseM, execOtherwiseM]
    exact .whole
  | some nodes, depth, r => by
    rw [execOtherwiseM, execOtherwiseM]
    exact partOf_enterM hdepth (partOf_execAllM hsteps hdepth nodes depth)
      (grows_execAllM wide nodes depth) depth r

theorem partOf_execAllM (hsteps : limits.maxSteps ≤ wide.maxSteps)
    (hdepth : limits.maxDepth ≤ wide.maxDepth) : (nodes : List Node) → (depth : Nat) → (r : Run) →
    PartOf (execAllM .checked limits nodes depth r) (execAllM .checked wide nodes depth r)
  | [], depth, r => by
    rw [execAllM, execAllM]
    exact .whole
  | n :: ns, depth, r => by
    by_cases herror : r.error.isSome
    · rw [execAllM_of_isSome_error herror, execAllM_of_isSome_error herror]
      exact .whole
    by_cases hover : limits.maxSteps < r.steps
    · have hgrows := grows_execAllM wide (n :: ns) depth r
      rw [execAllM, proceedM, if_neg herror, if_pos hover]
      exact .stopped rfl hgrows
    · rw [execAllM, execAllM, proceedM, proceedM, if_neg herror, if_neg hover, if_neg herror,
        if_neg (by omega)]
      exact (partOf_execM hsteps hdepth n depth r).bind (partOf_execAllM hsteps hdepth ns depth)
        (fun _ => execAllM_of_isSome_error) (grows_execAllM wide ns depth)

end

end Node

theorem Run.partOf_ofNodes? {limits wide : Limits} (hsteps : limits.maxSteps ≤ wide.maxSteps)
    (hdepth : limits.maxDepth ≤ wide.maxDepth) (nodes : List Node) (l : Level) :
    PartOf (Run.ofNodes? limits nodes l) (Run.ofNodes? wide nodes l) :=
  partOf_enterM hdepth (Node.partOf_execAllM hsteps hdepth nodes 0)
    (Node.grows_execAllM wide nodes 0) 0 (Run.begin l)

/-- Wider limits make the trace longer if anything, unless the run breaks off where it goes on. A
run that ended without an error ends in the same report under all wider limits. On a level that has
room there are always reports. -/
theorem runNodes?_widen (nodes : List Node) (l : Level) {limits wide : Limits}
    (hsteps : limits.maxSteps ≤ wide.maxSteps) (hdepth : limits.maxDepth ≤ wide.maxDepth) :
    (∀ report', runNodes? nodes l wide = .ok report' →
        ∃ report, runNodes? nodes l limits = .ok report ∧ report.trace <+: report'.trace) ∧
      (∀ report, runNodes? nodes l limits = .ok report → report.error = none →
        runNodes? nodes l wide = .ok report) ∧
      (l.HasRoom → ∀ limits', ∃ report, runNodes? nodes l limits' = .ok report) := by
  have h := Run.partOf_ofNodes? hsteps hdepth nodes l
  refine ⟨?_, ?_, fun hroom limits' => ⟨_, runNodes?_of_hasRoom hroom nodes limits'⟩⟩
  · intro report' hreport'
    obtain ⟨r', hr', rfl⟩ := runNodes?_eq_ok_iff_exists.1 hreport'
    rw [hr'] at h
    obtain ⟨r, hr, hsuffix⟩ := h.exists_of_ok
    exact ⟨_, runNodes?_eq_ok_iff_exists.2 ⟨r, hr, rfl⟩, List.reverse_prefix.2 hsuffix⟩
  · intro report hreport herror
    obtain ⟨r, hr, rfl⟩ := runNodes?_eq_ok_iff_exists.1 hreport
    rw [hr] at h
    exact runNodes?_eq_ok_iff_exists.2 ⟨r, h.eq_of_error herror, rfl⟩

/-- An agent between two walls. -/
def Level.cell : Level := { grid := ⟨[[.wall, .path, .wall]]⟩, start := ⟨⟨0, 1⟩, .right⟩ }

theorem Level.hasRoom_cell : Level.cell.HasRoom := ⟨by decide, by decide, by decide⟩

/-- A push to the right, and twice a push to the left and two more to the right. -/
def Node.nestedPushes : List Node :=
  let right : Node := .leaf ⟨"right", .move .right, none⟩
  let left : Node := .leaf ⟨"left", .move .left, none⟩
  [right, ⟨⟨"outer", .loop, none⟩, [left, ⟨⟨"inner", .loop, some 2⟩, [right], none⟩], none⟩]

/-- The inner loop is where a depth of one stops the run, and a depth of two lets it end. -/
theorem runNodes?_widen_nestedPushes :
    (∃ report, runNodes? Node.nestedPushes Level.cell { maxSteps := 6, maxDepth := 1 } =
        .ok report ∧ report.error = some .tooMuchNesting ∧
        report.trace <+:
          (runNodes Node.nestedPushes Level.cell { maxSteps := 6, maxDepth := 2 }).trace) ∧
      runNodes? Node.nestedPushes Level.cell =
        .ok (runNodes Node.nestedPushes Level.cell { maxSteps := 6, maxDepth := 2 }) := by
  have hwide := runNodes?_of_hasRoom Level.hasRoom_cell Node.nestedPushes
    { maxSteps := 6, maxDepth := 2 }
  constructor
  · obtain ⟨hextends, -, -⟩ := @runNodes?_widen Node.nestedPushes Level.cell
      { maxSteps := 6, maxDepth := 1 } { maxSteps := 6, maxDepth := 2 } (by decide) (by decide)
    obtain ⟨report, hreport, hle⟩ := hextends _ hwide
    refine ⟨report, hreport, ?_, hle⟩
    obtain ⟨-, rfl⟩ := runNodes?_eq_ok.1 hreport
    decide
  · have herror : (runNodes Node.nestedPushes Level.cell { maxSteps := 6, maxDepth := 2 }).error =
        none := by decide
    exact (runNodes?_widen _ _ (by decide) (by decide)).2.1 _ hwide herror

end BlockPuzzle
