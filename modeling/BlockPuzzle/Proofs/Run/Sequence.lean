import BlockPuzzle.Proofs.Run.Reaches
import Mathlib.Logic.Function.Iterate

/-!
# Running lists one after the other

A run with an error stands still, whatever is still to do. Running two lists one after the other is
therefore the same as running the one list that they make, wherever the first of them fails, and
repeating a list is the same as running its copies.

## Main statements

* `Node.execAllM_of_isSome_error`, `Node.execAllM_append`: after an error nothing happens, and lists
  one after the other, by any engine.
* `Node.execAll_flatten_replicate`: copies of one list.
* `Node.exec_of_loop`: a loop that may be entered runs its body as often as it says.
-/

namespace BlockPuzzle

/-! ## By any engine -/

section

variable {M : Type → Type} [Monad M] {e : Engine M} {limits : Limits} {depth : Nat} {r : Run}
  {ns : List Node}

theorem Run.proceedM_of_isSome_error {next : Run → M Run} (h : r.error.isSome) :
    r.proceedM limits next = pure r := by
  rw [proceedM, if_pos h]

namespace Node

open Run

/-- After an error nothing happens. -/
theorem execAllM_of_isSome_error (h : r.error.isSome) :
    execAllM e limits ns depth r = pure r := by
  cases ns with
  | nil => rw [execAllM]
  | cons n ns => rw [execAllM, proceedM_of_isSome_error h]

theorem execAllM_append [LawfulMonad M] (xs ys : List Node) (r : Run) :
    execAllM e limits (xs ++ ys) depth r =
      execAllM e limits xs depth r >>= execAllM e limits ys depth := by
  induction xs generalizing r with
  | nil => rw [execAllM, List.nil_append, pure_bind]
  | cons x xs ih =>
    rw [List.cons_append, execAllM, execAllM]
    simp only [ih, proceedM]
    split
    · next herror => rw [pure_bind, execAllM_of_isSome_error herror]
    · split
      · rw [pure_bind, execAllM_of_isSome_error (isSome_error_fail r _)]
      · rw [bind_assoc]

end Node

end

/-! ## By the exact one -/

namespace Run

variable {limits : Limits} {r : Run} {next body : Run → Run}

/-- Looking at the error and the steps twice is the same as once. -/
theorem proceed_proceed : r.proceed limits (proceed limits next) = r.proceed limits next := by
  rw [proceed_eq, proceed_eq]
  split
  · rfl
  · split <;> rfl

/-- Stopping at the first error makes no difference to a body that stands still after one. -/
theorem iterate_eq_iterate (h : ∀ r : Run, r.error.isSome → body r = r) (n : Nat) (r : Run) :
    r.iterate body n = body^[n] r := by
  induction n generalizing r with
  | zero => rfl
  | succ n ih =>
    rw [iterate_succ, Function.iterate_succ_apply]
    split
    · next herror => rw [Function.iterate_fixed (h _ herror)]
    · exact ih (body r)

end Run

namespace Node

open Run

variable {limits : Limits} {depth : Nat} {r : Run} {ns : List Node}

/-! ## Lists of nodes -/

/-- After an error nothing happens. -/
theorem execAll_of_isSome_error (h : r.error.isSome) : execAll limits ns depth r = r :=
  congrArg Id.run (execAllM_of_isSome_error (e := .exact) h)

theorem execAll_singleton (n : Node) :
    execAll limits [n] depth = proceed limits (n.exec limits depth) := by
  funext r
  simp only [execAll_cons, execAll_nil]

/-- A list that is not empty looks at the error and the steps before anything else. -/
theorem proceed_execAll (h : ns ≠ []) :
    proceed limits (execAll limits ns depth) = execAll limits ns depth := by
  obtain ⟨n, ns, rfl⟩ := List.exists_cons_of_ne_nil h
  funext r
  simp only [execAll_cons]
  exact proceed_proceed

theorem execAll_append (xs ys : List Node) (r : Run) :
    execAll limits (xs ++ ys) depth r = execAll limits ys depth (execAll limits xs depth r) :=
  congrArg Id.run (execAllM_append (e := .exact) xs ys r)

theorem execAll_flatten_replicate (n : Nat) :
    execAll limits (List.replicate n ns).flatten depth = (execAll limits ns depth)^[n] := by
  funext r
  induction n generalizing r with
  | zero => rw [List.replicate_zero, List.flatten_nil, execAll_nil, Function.iterate_zero_apply]
  | succ n ih =>
    rw [List.replicate_succ, List.flatten_cons, execAll_append, ih, Function.iterate_succ_apply]

/-! ## Single nodes -/

variable {b : Block} {body : List Node} {alternative : Option (List Node)}

theorem exec_of_loop (hk : b.kind = .loop) (hdepth : depth + 1 ≤ limits.maxDepth) :
    exec limits ⟨b, body, alternative⟩ depth = (execAll limits body (depth + 1))^[b.count] := by
  have henter : enter limits (depth + 1) (execAll limits body (depth + 1)) =
      execAll limits body (depth + 1) := funext fun _ => enter_of_le hdepth
  funext r
  rw [exec_mk, hk]
  dsimp only
  rw [henter, iterate_eq_iterate fun _ => execAll_of_isSome_error]

theorem exec_of_branch {p : Predicate} (hk : b.kind = .branch p) (r : Run) :
    exec limits ⟨b, body, alternative⟩ depth r =
      if r.holds p then r.enter limits (depth + 1) (execAll limits body (depth + 1))
      else execOtherwise limits alternative (depth + 1) r := by
  rw [exec_mk, hk]

/-- A node that enters no body does the same at every depth. -/
theorem exec_of_not_isOpener (hk : ¬ b.kind.isOpener) (depth depth' : Nat) :
    exec limits ⟨b, body, alternative⟩ depth = exec limits ⟨b, body, alternative⟩ depth' := by
  funext r
  rw [exec_mk, exec_mk]
  cases h : b.kind <;> simp_all [Kind.isOpener]

end Node

end BlockPuzzle
