import BlockPuzzle.Proofs.Program.Openers
import BlockPuzzle.Proofs.Run.Budget
import BlockPuzzle.Proofs.Run.Fuel
import BlockPuzzle.Proofs.Run.Sequence
import Mathlib.Algebra.Group.Nat.Defs

/-!
# Steps and work

Only moves use up the step budget, so it caps the nodes that a run comes to only where enough of
them are moves. A loop that makes a step in each pass goes round at most once for every step. A loop
that may do without goes round as often as it says, and loops of that kind inside each other
multiply.

## Main definitions

* `Node.stepping`, `Node.steppingAll`: a node, or a list, that makes a step whatever the board.
* `Node.load`, `Node.loadAll`: how many nodes there are for each step.
* `Run.Pace`, `Run.Paced`: a part of a run comes to so many nodes for each of its steps.
* `Node.Driven`: a loop that does not go round without a step.

## Main statements

* `Node.paced_execAll`: the pace of every list of nodes.
* `Run.length_calls_le`: how many nodes the run of any program tree comes to.
* `Run.ofNodesFueled_of_driven`: where loops are driven, the budget caps the work.
* `Run.length_calls_idle`: where they make no step at all, the work is a power of their number.
-/

namespace BlockPuzzle

mutual

/-- The node makes a step in every run, unless a limit is broken. -/
def Node.stepping : Node → Bool
  | ⟨b, body, alternative⟩ =>
    match b.kind with
    | .move _ => true
    | .loop => steppingAll body
    | .branch _ => steppingAll body && steppingOtherwise alternative
    | .endLoop | .otherwise | .endBranch | .unknown => false

def Node.steppingOtherwise : Option (List Node) → Bool
  | none => false
  | some nodes => steppingAll nodes

def Node.steppingAll : List Node → Bool
  | [] => false
  | n :: ns => n.stepping || steppingAll ns

end

mutual

/-- How many nodes a run of the node comes to for each of its steps. -/
def Node.load : Node → Nat
  | ⟨b, body, alternative⟩ =>
    1 +
      match b.kind with
      | .loop => if steppingAll body then loadAll body else b.count * loadAll body
      | .branch _ => loadAll body + loadOtherwise alternative
      | .move _ | .endLoop | .otherwise | .endBranch | .unknown => 0

def Node.loadOtherwise : Option (List Node) → Nat
  | none => 0
  | some nodes => loadAll nodes

def Node.loadAll : List Node → Nat
  | [] => 0
  | n :: ns => n.load + loadAll ns

end

namespace Run

/-- From `r` to `r'` there are `t` steps, and at most `load` nodes for each of them. There may be as
many nodes more, but not in a part of a run that is `sure` to make a step and breaks no limit. -/
structure Pace (sure : Bool) (load : Nat) (r r' : Run) (calls t : Nat) : Prop where
  steps_eq : r'.steps = r.steps + t
  calls_le : calls ≤ (t + 1) * load
  of_sure : sure → r'.error = none → 0 < t ∧ calls ≤ t * load

variable {limits : Limits} {depth : Nat} {r r' r'' : Run} {body : Run → Run}
  {calls : Run → List (Node × Run)} {sure sure' : Bool} {load load' total c c' t t' : Nat}

theorem pace_fail (r : Run) (e : RunError) : Pace sure load r (r.fail e) 0 0 where
  steps_eq := rfl
  calls_le := Nat.zero_le _
  of_sure _ herror := by cases herror

theorem pace_refl (r : Run) : Pace false load r r 0 0 where
  steps_eq := rfl
  calls_le := Nat.zero_le _
  of_sure hsure := by cases hsure

theorem pace_move (r : Run) (d : Direction) : Pace true 0 r (r.move d) 0 1 where
  steps_eq := steps_move r d
  calls_le := Nat.zero_le _
  of_sure _ _ := ⟨Nat.one_pos, Nat.zero_le _⟩

theorem Pace.weaken (h : Pace sure load r r' c t) (hsure : sure' → sure) (hload : load ≤ total) :
    Pace sure' total r r' c t where
  steps_eq := h.steps_eq
  calls_le := h.calls_le.trans (Nat.mul_le_mul_left _ hload)
  of_sure hsure' herror := by
    obtain ⟨ht, hcalls⟩ := h.of_sure (hsure hsure') herror
    exact ⟨ht, hcalls.trans (Nat.mul_le_mul_left _ hload)⟩

/-- After a broken limit there is nothing to be sure of. -/
theorem Pace.of_isSome_error (h : Pace sure load r r' c t) (herror : r'.error.isSome) :
    Pace sure' load r r' c t where
  steps_eq := h.steps_eq
  calls_le := h.calls_le
  of_sure _ hnone := by rw [hnone] at herror; cases herror

/-- The node around a part is one more. -/
theorem Pace.succ (h : Pace sure load r r' c t) : Pace sure (1 + load) r r' (c + 1) t where
  steps_eq := h.steps_eq
  calls_le := by
    have hcalls := h.calls_le
    rw [Nat.mul_add]
    omega
  of_sure hsure herror := by
    obtain ⟨ht, hcalls⟩ := h.of_sure hsure herror
    refine ⟨ht, ?_⟩
    rw [Nat.mul_add]
    omega

/-- Two parts in a row, each with its own nodes for each step. -/
theorem Pace.append (h : Pace sure load r r' c t) (herror : r'.error = none)
    (h' : Pace sure' load' r' r'' c' t') :
    Pace (sure || sure') (load + load') r r'' (c + c') (t + t') where
  steps_eq := by rw [h'.steps_eq, h.steps_eq, Nat.add_assoc]
  calls_le := by
    have hcalls := h.calls_le.trans (Nat.mul_le_mul_right load (by omega : t + 1 ≤ t + t' + 1))
    have hcalls' :=
      h'.calls_le.trans (Nat.mul_le_mul_right load' (by omega : t' + 1 ≤ t + t' + 1))
    rw [Nat.mul_add]
    omega
  of_sure hsure herror' := by
    rw [Nat.mul_add]
    obtain hsure | hsure := (Bool.or_eq_true _ _).mp hsure
    · obtain ⟨ht, hcalls⟩ := h.of_sure hsure herror
      have hcalls := hcalls.trans (Nat.mul_le_mul_right load (Nat.le_add_right t t'))
      have hcalls' := h'.calls_le.trans (Nat.mul_le_mul_right load' (by omega : t' + 1 ≤ t + t'))
      omega
    · obtain ⟨ht, hcalls'⟩ := h'.of_sure hsure herror'
      have hcalls := h.calls_le.trans (Nat.mul_le_mul_right load (by omega : t + 1 ≤ t + t'))
      have hcalls' := hcalls'.trans (Nat.mul_le_mul_right load' (Nat.le_add_left t' t))
      omega

/-- Two parts in a row that are sure to make a step have the nodes for each step in common. -/
theorem Pace.trans (h : Pace true load r r' c t) (herror : r'.error = none)
    (h' : Pace true load r' r'' c' t') : Pace true load r r'' (c + c') (t + t') where
  steps_eq := by rw [h'.steps_eq, h.steps_eq, Nat.add_assoc]
  calls_le := by
    have hcalls := (h.of_sure rfl herror).2
    have hcalls' := h'.calls_le
    rw [Nat.add_assoc, Nat.add_mul]
    omega
  of_sure _ herror' := by
    obtain ⟨ht, hcalls⟩ := h.of_sure rfl herror
    obtain ⟨-, hcalls'⟩ := h'.of_sure rfl herror'
    rw [Nat.add_mul]
    omega

/-- A part of a run keeps the pace wherever it begins without an error. -/
def Paced (sure : Bool) (load : Nat) (body : Run → Run) (calls : Run → List (Node × Run)) : Prop :=
  ∀ r, r.error = none → ∃ t, Pace sure load r (body r) (calls r).length t

theorem Paced.enter (h : Paced sure load body calls) (limits : Limits) (depth : Nat) :
    Paced sure load (Run.enter limits depth body) (enterCalls limits depth calls) := by
  intro r herror
  rw [Run.enter_eq, enterCalls]
  split
  · exact ⟨0, pace_fail r _⟩
  · exact h r herror

theorem Paced.proceed (h : Paced sure load body calls) (limits : Limits) :
    Paced sure load (Run.proceed limits body) (proceedCalls limits calls) := by
  intro r herror
  rw [Run.proceed_eq, proceedCalls]
  simp only [herror, Option.isSome_none, Bool.false_eq_true, if_false]
  split
  · exact ⟨0, pace_fail r _⟩
  · exact h r herror

theorem Paced.iterate (h : Paced true load body calls) {n : Nat} (hn : 0 < n) :
    Paced true load (fun r => r.iterate body n) (fun r => r.iterateCalls body calls n) := by
  obtain ⟨n, rfl⟩ : ∃ m, n = m + 1 := ⟨n - 1, by omega⟩
  clear hn
  intro r herror
  induction n generalizing r with
  | zero => simpa [Run.iterate_succ, iterateCalls] using h r herror
  | succ n ih =>
    obtain ⟨t, ht⟩ := h r herror
    simp only [Run.iterate_succ, iterateCalls, List.length_append]
    split
    · exact ⟨t, ht⟩
    · next hnext =>
      rw [Option.not_isSome_iff_eq_none] at hnext
      obtain ⟨t', ht'⟩ := ih (body r) hnext
      exact ⟨t + t', ht.trans hnext ht'⟩

/-- Passes that may make no step add up. -/
theorem Paced.iterate_mul (h : Paced false load body calls) (n : Nat) :
    Paced false (n * load) (fun r => r.iterate body n) (fun r => r.iterateCalls body calls n) := by
  intro r herror
  induction n generalizing r with
  | zero => exact ⟨0, pace_refl r⟩
  | succ n ih =>
    obtain ⟨t, ht⟩ := h r herror
    simp only [Run.iterate_succ, iterateCalls, List.length_append, Nat.succ_mul,
      Nat.add_comm (n * load)]
    split
    · exact ⟨t, ht.weaken id (Nat.le_add_right _ _)⟩
    · next hnext =>
      rw [Option.not_isSome_iff_eq_none] at hnext
      obtain ⟨t', ht'⟩ := ih (body r) hnext
      exact ⟨t + t', ht.append hnext ht'⟩

end Run

namespace Node

open Run

variable {limits : Limits}

mutual

theorem paced_exec : (n : Node) → (depth : Nat) →
    Paced n.stepping n.load (n.exec limits depth) (n.calls limits depth)
  | ⟨b, body, alternative⟩, depth, r, herror => by
    have hbody := (paced_execAll body (depth + 1)).enter limits (depth + 1)
    have hotherwise := paced_execOtherwise alternative (depth + 1) r herror
    rw [exec_mk, calls, stepping, load, List.length_cons]
    suffices h : ∃ t, Pace _ _ r _ _ t from h.imp fun _ => Pace.succ
    cases hk : b.kind with
    | move d => exact ⟨1, pace_move r d⟩
    | loop =>
      simp only
      -- Only passes that are sure to make a step have their nodes in common.
      cases hsure : steppingAll body with
      | true => exact (hsure ▸ hbody).iterate b.count_pos r herror
      | false => exact (hsure ▸ hbody).iterate_mul b.count r herror
    | branch p =>
      simp only
      split
      · obtain ⟨t, ht⟩ := hbody r herror
        exact ⟨t, ht.weaken (by simp +contextual) (Nat.le_add_right _ _)⟩
      · obtain ⟨t, ht⟩ := hotherwise
        exact ⟨t, ht.weaken (by simp +contextual) (Nat.le_add_left _ _)⟩
    | _ => exact ⟨0, pace_refl r⟩

theorem paced_execOtherwise : (alternative : Option (List Node)) → (depth : Nat) →
    Paced (steppingOtherwise alternative) (loadOtherwise alternative)
      (execOtherwise limits alternative depth) (callsOtherwise limits alternative depth)
  | none, depth, r, _ => by
    rw [execOtherwise_none, callsOtherwise]
    exact ⟨0, pace_refl r⟩
  | some nodes, depth, r, herror => by
    rw [execOtherwise_some, callsOtherwise]
    exact (paced_execAll nodes depth).enter limits depth r herror

theorem paced_execAll : (nodes : List Node) → (depth : Nat) →
    Paced (steppingAll nodes) (loadAll nodes) (execAll limits nodes depth)
      (callsAll limits nodes depth)
  | [], depth, r, _ => by
    rw [execAll_nil, callsAll]
    exact ⟨0, pace_refl r⟩
  | n :: ns, depth, r, herror => by
    rw [execAll_cons, callsAll]
    refine Paced.proceed (fun r herror => ?_) limits r herror
    obtain ⟨t, ht⟩ := paced_exec n depth r herror
    rw [steppingAll, loadAll, List.length_append]
    -- A node that breaks a limit is the last one that the list comes to.
    by_cases hnext : (n.exec limits depth r).error.isSome
    · rw [execAll_of_isSome_error hnext, callsAll_of_isSome_error hnext]
      exact ⟨t, (ht.of_isSome_error hnext).weaken id (Nat.le_add_right _ _)⟩
    · rw [Option.not_isSome_iff_eq_none] at hnext
      obtain ⟨t', ht'⟩ := paced_execAll ns depth _ hnext
      exact ⟨t + t', ht.append hnext ht'⟩

end

/-! ## Loops that make steps -/

/-- A loop makes a step in each pass, unless there is only one pass or nothing to do in it. -/
def Driven (n : Node) : Prop :=
  n.kind = .loop → n.block.count = 1 ∨ n.body = [] ∨ steppingAll n.body

mutual

theorem load_le : (n : Node) → (∀ m ∈ n.parts, m.Driven) → n.load ≤ n.parts.length
  | ⟨b, body, alternative⟩, h => by
    obtain ⟨hdriven, hbody, halternative⟩ := forall_mem_parts.1 h
    have hloadBody := loadAll_le body hbody
    have hloadAlternative := loadOtherwise_le alternative halternative
    rw [load, parts, List.length_cons, List.length_append]
    split
    · next hk =>
      obtain hcount | rfl | hstepping := hdriven hk
      · have hcount : b.count = 1 := hcount
        rw [hcount, Nat.one_mul, ite_self]
        omega
      · simp [loadAll]
      · rw [if_pos hstepping]
        omega
    all_goals omega

theorem loadOtherwise_le : (alternative : Option (List Node)) →
    (∀ m ∈ partsOtherwise alternative, m.Driven) →
    loadOtherwise alternative ≤ (partsOtherwise alternative).length
  | none, _ => Nat.le_refl 0
  | some nodes, h => loadAll_le nodes h

theorem loadAll_le : (nodes : List Node) → (∀ m ∈ partsAll nodes, m.Driven) →
    loadAll nodes ≤ (partsAll nodes).length
  | [], _ => Nat.le_refl 0
  | n :: ns, h => by
    obtain ⟨hn, hns⟩ := forall_mem_partsAll_cons.1 h
    rw [loadAll, partsAll, List.length_append]
    exact Nat.add_le_add (load_le n hn) (loadAll_le ns hns)

end

end Node

namespace Run

/-- A run makes one step more than it is allowed at most, and each of them, like the end of the run,
has its load of nodes. -/
theorem length_calls_le (limits : Limits) (nodes : List Node) (l : Level) :
    (calls limits nodes l).length ≤ (limits.maxSteps + 2) * Node.loadAll nodes := by
  obtain ⟨t, ht⟩ := (Node.paced_execAll nodes 0).enter limits 0 (Run.begin l) rfl
  have hsteps : (ofNodes limits nodes l).steps = t := ht.steps_eq.trans (Nat.zero_add t)
  have hbudget := (budget_ofNodes limits nodes l).steps_le
  exact ht.calls_le.trans (Nat.mul_le_mul_right _ (by omega))

/-- Where all loops are driven, the step budget caps the nodes that a run comes to: a run on fuel
gets along with a unit for each step and each node of the tree. -/
theorem ofNodesFueled_of_driven (limits : Limits) (nodes : List Node) (l : Level)
    (hdriven : ∀ n ∈ Node.partsAll nodes, n.Driven) :
    (calls limits nodes l).length ≤ (limits.maxSteps + 2) * ((Node.partsAll nodes).length + 1) ∧
      ∃ left, ofNodesFueled limits nodes l
        ((limits.maxSteps + 2) * ((Node.partsAll nodes).length + 1)) =
          some (ofNodes limits nodes l, left) := by
  have hcalls : (calls limits nodes l).length ≤
      (limits.maxSteps + 2) * ((Node.partsAll nodes).length + 1) := by
    calc (calls limits nodes l).length
        ≤ (limits.maxSteps + 2) * Node.loadAll nodes := length_calls_le limits nodes l
      _ ≤ (limits.maxSteps + 2) * ((Node.partsAll nodes).length + 1) :=
        Nat.mul_le_mul_left _ (Nat.le_succ_of_le (Node.loadAll_le nodes hdriven))
  exact ⟨hcalls, _, (costs_ofNodesFueled limits nodes l _).trans (if_neg (Nat.not_lt.2 hcalls))⟩

end Run

/-- Three rounds, in each a push whatever lies ahead and a loop of nothing. -/
def Node.shoves : List Node :=
  let push (d : Direction) : Node := .leaf ⟨"push", .move d, none⟩
  [⟨⟨"rounds", .loop, some 3⟩,
    [⟨⟨"wall", .branch .wallAhead, none⟩, [push .left], some [push .up]⟩,
      ⟨⟨"rest", .loop, some 9⟩, [], none⟩], none⟩]

/-- The second push is the last one where one is allowed, and twelve of eighteen units are left. -/
theorem Run.ofNodesFueled_of_driven_shoves :
    (∀ n ∈ Node.partsAll Node.shoves, n.Driven) ∧
      (calls { maxSteps := 1 } Node.shoves Level.corner).length ≤ 18 ∧
      ∃ left, ofNodesFueled { maxSteps := 1 } Node.shoves Level.corner 18 =
        some (ofNodes { maxSteps := 1 } Node.shoves Level.corner, left) := by
  have hdriven : ∀ n ∈ Node.partsAll Node.shoves, n.Driven := by
    simp [Node.shoves, Node.partsAll, Node.parts, Node.partsOtherwise, Node.leaf, Node.Driven,
      Node.kind, Node.steppingAll, Node.stepping, Node.steppingOtherwise]
  exact ⟨hdriven, ofNodesFueled_of_driven { maxSteps := 1 } Node.shoves Level.corner hdriven⟩

/-! ## Loops that make none -/

/-- Loops of nine passes inside each other, with nothing in the last one. -/
def Node.idle : Nat → List Node
  | 0 => []
  | n + 1 => [⟨⟨"idle", .loop, some 9⟩, idle n, none⟩]

theorem Node.length_partsAll_idle (n : Nat) : (partsAll (idle n)).length = n := by
  induction n with
  | zero => rfl
  | succ n ih => simp [idle, partsAll, parts, partsOtherwise, ih]

namespace Run

variable {r : Run} {body : Run → Run} {calls : Run → List (Node × Run)}

/-- A loop that changes nothing comes to the same nodes in every pass. -/
theorem length_iterateCalls_of_fixed (herror : r.error = none) (hbody : body r = r) (n : Nat) :
    (r.iterateCalls body calls n).length = n * (calls r).length := by
  induction n with
  | zero => simp [iterateCalls]
  | succ n ih => simp [iterateCalls, hbody, herror, ih, Nat.succ_mul, Nat.add_comm]

end Run

namespace Node

open Run

variable {limits : Limits}

theorem execAll_idle (n : Nat) {depth : Nat} (hdepth : depth + n ≤ limits.maxDepth) {r : Run}
    (herror : r.error = none) (hsteps : r.steps ≤ limits.maxSteps) :
    execAll limits (idle n) depth r = r := by
  induction n generalizing depth with
  | zero => rfl
  | succ n ih =>
    rw [idle, execAll_singleton, proceed_eq, if_neg (by simp [herror]), if_neg (by omega),
      exec_of_loop rfl (by omega), Function.iterate_fixed (ih (by omega))]

theorem length_callsAll_idle (n : Nat) {depth : Nat} (hdepth : depth + n ≤ limits.maxDepth)
    {r : Run} (herror : r.error = none) (hsteps : r.steps ≤ limits.maxSteps) :
    8 * (callsAll limits (idle n) depth r).length + 1 = 9 ^ n := by
  induction n generalizing depth with
  | zero => rfl
  | succ n ih =>
    have hdepth' : depth + 1 ≤ limits.maxDepth := by omega
    have hbody : r.enter limits (depth + 1) (execAll limits (idle n) (depth + 1)) = r := by
      rw [enter_of_le hdepth', execAll_idle n (by omega) herror hsteps]
    have hpasses : (callsAll limits (idle (n + 1)) depth r).length =
        9 * (callsAll limits (idle n) (depth + 1) r).length + 1 := by
      rw [idle, callsAll, proceedCalls, if_neg (by simp [herror]), if_neg (by omega), callsAll,
        List.length_append, calls, List.length_cons]
      simp only [length_iterateCalls_of_fixed herror hbody, enterCalls_of_le hdepth']
      rfl
    have hinner := @ih (depth + 1) (by omega)
    rw [hpasses, pow_succ, ← hinner]
    omega

end Node

/-- Loops without a move multiply: the budget, of which they use nothing, does not stop them. -/
theorem Run.length_calls_idle {limits : Limits} {n : Nat} (hn : n ≤ limits.maxDepth) (l : Level) :
    8 * (calls limits (Node.idle n) l).length + 1 = 9 ^ n := by
  rw [calls, enterCalls_of_le (Nat.zero_le _)]
  exact Node.length_callsAll_idle n (by omega) rfl (Nat.zero_le _)

/-- Five loops come to 7381 nodes, where the budget is for 3012. -/
theorem Run.ofNodesFueled_idle :
    ¬ ((calls {} (Node.idle 5) Level.corner).length ≤
        (({} : Limits).maxSteps + 2) * ((Node.partsAll (Node.idle 5)).length + 1)) ∧
      ofNodesFueled {} (Node.idle 5) Level.corner
        ((({} : Limits).maxSteps + 2) * ((Node.partsAll (Node.idle 5)).length + 1)) = none := by
  have hcalls : 8 * (calls {} (Node.idle 5) Level.corner).length + 1 = 9 ^ 5 :=
    length_calls_idle (by decide) Level.corner
  have hlt : (({} : Limits).maxSteps + 2) * ((Node.partsAll (Node.idle 5)).length + 1) <
      (calls {} (Node.idle 5) Level.corner).length := by
    rw [Node.length_partsAll_idle]
    simp only
    omega
  exact ⟨Nat.not_le.2 hlt, (costs_ofNodesFueled _ _ _ _).trans (if_pos hlt)⟩

end BlockPuzzle
