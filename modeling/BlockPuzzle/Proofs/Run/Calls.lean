import BlockPuzzle.Proofs.Run.Trace

/-!
# What a run comes to

A run comes to a node in a certain state, and to a node in a loop in one state after the other.
These nodes, with the states, account for the run: its steps are those of the moves among them, in
their order, and all of the states come out of the first one.

## Main definitions

* `Node.calls`, `Run.calls`: the nodes that a run comes to, each with the state in which it does.
* `Node.step?`, `Run.stepsOf`: the step that a node makes, and the steps of some nodes.
* `Run.Records`: the nodes of a part of a run make the steps of that part.

## Main statements

* `Run.trace_eq_stepsOf`: the steps of a report are those of the nodes that its run comes to.
* `Run.reaches_of_mem_calls`: a run comes to a node in a state that comes out of the first one.
-/

namespace BlockPuzzle

/-! ## The nodes of a run -/

namespace Run

variable {α : Type}

/-- What happens in a body that lies at `depth`, unless that is too deep. -/
def enterCalls (limits : Limits) (depth : Nat) (calls : Run → List α) (r : Run) : List α :=
  if limits.maxDepth < depth then [] else calls r

/-- What happens in `n` passes through a body, or until it fails. -/
def iterateCalls (body : Run → Run) (calls : Run → List α) : Nat → Run → List α
  | 0, _ => []
  | n + 1, r =>
    calls r ++ if (body r).error.isSome then [] else iterateCalls body calls n (body r)

/-- What happens next, if the run has no error and steps to spare. -/
def proceedCalls (limits : Limits) (calls : Run → List α) (r : Run) : List α :=
  if r.error.isSome then [] else if limits.maxSteps < r.steps then [] else calls r

end Run

mutual

/-- The nodes that a node in a body at `depth` comes to, itself the first. -/
def Node.calls (limits : Limits) : Node → Nat → Run → List (Node × Run)
  | ⟨b, body, alternative⟩, depth, r =>
    (⟨b, body, alternative⟩, r) ::
      match b.kind with
      | .loop =>
        r.iterateCalls (Run.enter limits (depth + 1) (Node.execAll limits body (depth + 1)))
          (Run.enterCalls limits (depth + 1) (Node.callsAll limits body (depth + 1))) b.count
      | .branch p =>
        if r.holds p then r.enterCalls limits (depth + 1) (Node.callsAll limits body (depth + 1))
        else Node.callsOtherwise limits alternative (depth + 1) r
      | .move _ | .endLoop | .otherwise | .endBranch | .unknown => []

/-- The nodes of an alternative at `depth`. -/
def Node.callsOtherwise (limits : Limits) : Option (List Node) → Nat → Run → List (Node × Run)
  | none, _, _ => []
  | some nodes, depth, r => r.enterCalls limits depth (Node.callsAll limits nodes depth)

/-- The nodes that a list at `depth` comes to. -/
def Node.callsAll (limits : Limits) : List Node → Nat → Run → List (Node × Run)
  | [], _, _ => []
  | n :: ns, depth, r =>
    r.proceedCalls limits fun r =>
      Node.calls limits n depth r ++ Node.callsAll limits ns depth (Node.exec limits n depth r)

end

/-- The nodes that the run of a program tree on a level comes to. -/
def Run.calls (limits : Limits) (nodes : List Node) (l : Level) : List (Node × Run) :=
  (Run.begin l).enterCalls limits 0 (Node.callsAll limits nodes 0)

/-! ## Their steps -/

/-- The step that a node makes. -/
def Node.step? (n : Node) (r : Run) : Option Step :=
  match n.kind with
  | .move d => (r.move d).history.head?
  | _ => none

namespace Run

/-- The steps of some nodes, in their order. -/
def stepsOf (cs : List (Node × Run)) : List Step := cs.filterMap fun c => c.1.step? c.2

/-- The nodes in `calls` make the steps of `body`. -/
def Records (body : Run → Run) (calls : Run → List (Node × Run)) : Prop :=
  ∀ r, (body r).history = (stepsOf (calls r)).reverse ++ r.history

variable {limits : Limits} {depth : Nat} {body : Run → Run} {calls : Run → List (Node × Run)}

theorem stepsOf_append (cs ds : List (Node × Run)) :
    stepsOf (cs ++ ds) = stepsOf cs ++ stepsOf ds := List.filterMap_append

theorem Records.enter (h : Records body calls) (limits : Limits) (depth : Nat) :
    Records (Run.enter limits depth body) (enterCalls limits depth calls) := by
  intro r
  rw [Run.enter_eq, enterCalls]
  split
  · rfl
  · exact h r

theorem Records.iterate (h : Records body calls) (n : Nat) :
    Records (fun r => r.iterate body n) (fun r => r.iterateCalls body calls n) := by
  intro r
  induction n generalizing r with
  | zero => rfl
  | succ n ih =>
    simp only [Run.iterate_succ, iterateCalls]
    split
    · rw [List.append_nil, h r]
    · rw [ih (body r), h r, stepsOf_append, List.reverse_append, List.append_assoc]

theorem Records.proceed (h : Records body calls) (limits : Limits) :
    Records (Run.proceed limits body) (proceedCalls limits calls) := by
  intro r
  rw [Run.proceed_eq, proceedCalls]
  split
  · rfl
  · split
    · rfl
    · exact h r

theorem enterCalls_of_le (h : depth ≤ limits.maxDepth) (r : Run) :
    r.enterCalls limits depth calls = calls r := if_neg (Nat.not_lt.2 h)

/-- Every node that comes up in a loop comes up in one of its passes. -/
theorem exists_of_mem_iterateCalls {motive : Run → Prop} (h : ∀ r, motive r → motive (body r))
    {c : Node × Run} {n : Nat} {r : Run} (hr : motive r) (hc : c ∈ r.iterateCalls body calls n) :
    ∃ r', motive r' ∧ c ∈ calls r' := by
  induction n generalizing r with
  | zero => cases hc
  | succ n ih =>
    obtain hc | hc := List.mem_append.1 hc
    · exact ⟨r, hr, hc⟩
    · split at hc
      · cases hc
      · exact ih (h r hr) hc

theorem mem_enterCalls {c : Node × Run} {r : Run} :
    c ∈ r.enterCalls limits depth calls ↔ depth ≤ limits.maxDepth ∧ c ∈ calls r := by
  unfold enterCalls
  split
  · simp; omega
  · simp; omega

theorem mem_proceedCalls {c : Node × Run} {r : Run} :
    c ∈ r.proceedCalls limits calls ↔
      r.error = none ∧ r.steps ≤ limits.maxSteps ∧ c ∈ calls r := by
  unfold proceedCalls
  split
  · simp_all [Option.isSome_iff_ne_none]
  · split
    · simp; omega
    · simp_all

end Run

namespace Node

open Run

variable {limits : Limits}

/-- After an error a run comes to nothing. -/
theorem callsAll_of_isSome_error {ns : List Node} {depth : Nat} {r : Run} (h : r.error.isSome) :
    callsAll limits ns depth r = [] := by
  cases ns with
  | nil => rw [callsAll]
  | cons n ns => rw [callsAll, proceedCalls, if_pos h]

mutual

theorem records_exec : (n : Node) → (depth : Nat) →
    Records (n.exec limits depth) (n.calls limits depth)
  | ⟨b, body, alternative⟩, depth, r => by
    have hbody := (records_execAll body (depth + 1)).enter limits (depth + 1)
    rw [exec_mk, calls, stepsOf, List.filterMap_cons]
    cases hk : b.kind with
    | move d =>
      obtain ⟨s, hs⟩ := exists_history_move r d
      simp [step?, kind, hk, hs]
    | loop =>
      simp only [step?, kind, hk]
      exact hbody.iterate b.count r
    | branch p =>
      simp only [step?, kind, hk]
      split
      · exact hbody r
      · exact records_execOtherwise alternative (depth + 1) r
    | _ => simp [step?, kind, hk]

theorem records_execOtherwise : (alternative : Option (List Node)) → (depth : Nat) →
    Records (execOtherwise limits alternative depth) (callsOtherwise limits alternative depth)
  | none, depth, r => by
    rw [execOtherwise_none, callsOtherwise]
    rfl
  | some nodes, depth, r => by
    rw [execOtherwise_some, callsOtherwise]
    exact (records_execAll nodes depth).enter limits depth r

theorem records_execAll : (nodes : List Node) → (depth : Nat) →
    Records (execAll limits nodes depth) (callsAll limits nodes depth)
  | [], depth, r => by
    rw [execAll_nil, callsAll]
    rfl
  | n :: ns, depth, r => by
    rw [execAll_cons, callsAll]
    refine Records.proceed (fun r => ?_) limits r
    rw [records_execAll ns depth, records_exec n depth, stepsOf_append, List.reverse_append,
      List.append_assoc]

end

mutual

theorem reaches_of_mem_calls : (n : Node) → (depth : Nat) → (r : Run) → r.error = none →
    r.steps ≤ limits.maxSteps → ∀ c ∈ n.calls limits depth r, Reaches limits r c.2
  | ⟨b, body, alternative⟩, depth, r, herror, hsteps, c, hc => by
    have hbody := reaches_of_mem_callsAll body (depth + 1)
    rw [calls, List.mem_cons] at hc
    obtain rfl | hc := hc
    · exact .refl
    split at hc
    · by_cases hdepth : depth + 1 ≤ limits.maxDepth
      · obtain ⟨r', hr', hc⟩ := exists_of_mem_iterateCalls (motive := Reaches limits r)
          (fun r' hr' => by
            rw [enter_of_le hdepth]
            exact hr'.trans (reaches_execAll body (depth + 1) r')) .refl hc
        exact hr'.trans (hbody r' c (mem_enterCalls.1 hc).2)
      · -- A body that is too deep is not entered.
        obtain ⟨r', -, hc⟩ := exists_of_mem_iterateCalls (motive := fun _ => True)
          (fun _ _ => trivial) trivial hc
        exact absurd (mem_enterCalls.1 hc).1 hdepth
    · split at hc
      · exact hbody r c (mem_enterCalls.1 hc).2
      · exact reaches_of_mem_callsOtherwise alternative (depth + 1) r c hc
    all_goals cases hc

theorem reaches_of_mem_callsOtherwise : (alternative : Option (List Node)) → (depth : Nat) →
    (r : Run) → ∀ c ∈ callsOtherwise limits alternative depth r, Reaches limits r c.2
  | none, depth, r, c, hc => by
    rw [callsOtherwise] at hc
    cases hc
  | some nodes, depth, r, c, hc => by
    rw [callsOtherwise, mem_enterCalls] at hc
    exact reaches_of_mem_callsAll nodes depth r c hc.2

theorem reaches_of_mem_callsAll : (nodes : List Node) → (depth : Nat) → (r : Run) →
    ∀ c ∈ callsAll limits nodes depth r, Reaches limits r c.2
  | [], depth, r, c, hc => by
    rw [callsAll] at hc
    cases hc
  | n :: ns, depth, r, c, hc => by
    rw [callsAll, mem_proceedCalls, List.mem_append] at hc
    obtain ⟨herror, hsteps, hc | hc⟩ := hc
    · exact reaches_of_mem_calls n depth r herror hsteps c hc
    · exact (reaches_exec n depth r herror hsteps).trans
        (reaches_of_mem_callsAll ns depth (n.exec limits depth r) c hc)

end

end Node

namespace Run

variable (limits : Limits) (nodes : List Node) (l : Level)

/-- The steps of a report, after the first, are those of the nodes that its run comes to. -/
theorem trace_eq_stepsOf :
    (runNodes nodes l limits).trace = Step.first l :: stepsOf (calls limits nodes l) := by
  have hrecords : Records (enter limits 0 (Node.execAll limits nodes 0))
      (enterCalls limits 0 (Node.callsAll limits nodes 0)) :=
    (Node.records_execAll nodes 0).enter limits 0
  have htrace : (runNodes nodes l limits).trace = (ofNodes limits nodes l).history.reverse := rfl
  rw [htrace, ofNodes_eq, hrecords, List.reverse_append, List.reverse_reverse]
  rfl

variable {limits nodes l}

/-- A run comes to a node in a state that comes out of the first one. -/
theorem reaches_of_mem_calls {c : Node × Run} (hc : c ∈ calls limits nodes l) :
    Reaches limits (Run.begin l) c.2 :=
  Node.reaches_of_mem_callsAll nodes 0 _ c (mem_enterCalls.1 hc).2

end Run

end BlockPuzzle
