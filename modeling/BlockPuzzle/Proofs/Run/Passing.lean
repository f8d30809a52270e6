import BlockPuzzle.Proofs.Run.Reaches

/-!
# The states that a run passes through

A run of a list looks at its state before every block and behind the last one, on every level of the
tree. All of these states come out of the first one in the same way as the last one does, so that
what every move and every broken limit keeps also holds in the middle of a run.

## Main definitions

* `Node.Enters`: the bodies that a node enters, with the state in which it does.
* `Node.Passes`: the states that a list passes through.

## Main statements

* `Node.Passes.reaches`: every state on the way comes out of the first one.
-/

namespace BlockPuzzle

namespace Node

open Run

/-- The node at `depth`, run from `r`, goes into a body in the given state. A loop goes into its
body again after every pass that has not failed. -/
inductive Enters (limits : Limits) (depth : Nat) (r : Run) : Node → List Node → Run → Prop where
  | loop {b : Block} {body : List Node} {alternative : Option (List Node)} {k : Nat} :
      b.kind = .loop → k < b.count →
      (r.iterate (enter limits (depth + 1) (execAll limits body (depth + 1))) k).error = none →
      Enters limits depth r ⟨b, body, alternative⟩ body
        (r.iterate (enter limits (depth + 1) (execAll limits body (depth + 1))) k)
  | body {b : Block} {p : Predicate} {body : List Node} {alternative : Option (List Node)} :
      b.kind = .branch p → r.holds p → Enters limits depth r ⟨b, body, alternative⟩ body r
  | alternative {b : Block} {p : Predicate} {body alternative : List Node} :
      b.kind = .branch p → ¬ r.holds p →
      Enters limits depth r ⟨b, body, some alternative⟩ alternative r

/-- The states that a list at `depth`, run from a state, passes through. A block is reached only
without an error and with steps to spare, and a body only where the depth allows it. -/
inductive Passes (limits : Limits) : List Node → Nat → Run → Run → Prop where
  | first {ns : List Node} {depth : Nat} {r : Run} : Passes limits ns depth r r
  | last {ns : List Node} {depth : Nat} {r : Run} :
      Passes limits ns depth r (execAll limits ns depth r)
  | next {n : Node} {ns : List Node} {depth : Nat} {r r' : Run} :
      r.error = none → r.steps ≤ limits.maxSteps →
      Passes limits ns depth (n.exec limits depth r) r' → Passes limits (n :: ns) depth r r'
  | inside {n : Node} {ns nodes : List Node} {depth : Nat} {r r' r'' : Run} :
      r.error = none → r.steps ≤ limits.maxSteps → n.Enters limits depth r nodes r' →
      depth + 1 ≤ limits.maxDepth → Passes limits nodes (depth + 1) r' r'' →
      Passes limits (n :: ns) depth r r''

variable {limits : Limits} {depth : Nat} {r r' : Run} {n : Node} {nodes : List Node}

theorem Enters.reaches (h : n.Enters limits depth r nodes r')
    (hdepth : depth + 1 ≤ limits.maxDepth) :
    Reaches limits r r' := by
  cases h with
  | loop _ _ _ =>
    refine reaches_iterate (fun s => ?_) _ r
    rw [enter_of_le hdepth]
    exact reaches_execAll nodes (depth + 1) s
  | body _ _ => exact .refl
  | alternative _ _ => exact .refl

/-- Every state on the way comes out of the first one by moves and broken limits. -/
theorem Passes.reaches (h : Passes limits nodes depth r r') : Reaches limits r r' := by
  induction h with
  | first => exact .refl
  | last => exact reaches_execAll _ _ _
  | next herror hsteps _ ih => exact (reaches_exec _ _ _ herror hsteps).trans ih
  | inside _ _ henters hdepth _ ih => exact (henters.reaches hdepth).trans ih

end Node

end BlockPuzzle
