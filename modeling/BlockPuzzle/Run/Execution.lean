import BlockPuzzle.Program.Assembly
import BlockPuzzle.Run.State

/-!
# Running a program

The limits are looked at in two places: the depth when a body is entered, the steps before each
block. How a move is made and a question is answered, and what it takes to come to a node, is left
to an engine and to the monad in which it works. The engine that all others are compared with has
exact integers for positions.

## Main definitions

* `Engine`: how the acts of a run are done.
* `Node.execM`, `Node.execAllM`: the effect of a node and of a list of nodes by an engine.
* `Run.ofNodesM`: the run of a program tree on a level by an engine.
* `Node.exec`, `Node.execAll`, `Run.ofNodes`: the same by the engine `Engine.exact`.
-/

namespace BlockPuzzle

/-- How the acts of a run are done in the monad `M`. -/
structure Engine (M : Type → Type) where
  /-- What is done for every node that a run comes to, before anything else. -/
  call : M PUnit
  move : Run → Direction → M Run
  holds : Run → Predicate → M Bool

/-! ## Control -/

namespace Run

variable {M : Type → Type} [Monad M]

/-- Runs a body that lies at `depth`, unless that is too deep. -/
def enterM (limits : Limits) (depth : Nat) (body : Run → M Run) (r : Run) : M Run :=
  if limits.maxDepth < depth then return r.fail .tooMuchNesting else body r

/-- Runs a body `n` times, or until it fails. -/
def iterateM (body : Run → M Run) : Nat → Run → M Run
  | 0, r => return r
  | n + 1, r => do
    let next ← body r
    if next.error.isSome then return next else iterateM body n next

/-- Goes on with the next block only while the run has no error and steps to spare. -/
def proceedM (limits : Limits) (next : Run → M Run) (r : Run) : M Run :=
  if r.error.isSome then return r
  else if limits.maxSteps < r.steps then return r.fail .tooManySteps
  else next r

end Run

/-! ## Nodes -/

section

variable {M : Type → Type} [Monad M] (e : Engine M) (limits : Limits)

mutual

/-- The effect of a node in a body at `depth`. -/
def Node.execM : Node → Nat → Run → M Run
  | ⟨b, body, alternative⟩, depth, r => do
    e.call
    match b.kind with
    | .move d => e.move r d
    | .loop => r.iterateM (Run.enterM limits (depth + 1) (Node.execAllM body (depth + 1))) b.count
    | .branch p =>
      if ← e.holds r p then r.enterM limits (depth + 1) (Node.execAllM body (depth + 1))
      else Node.execOtherwiseM alternative (depth + 1) r
    | .endLoop | .otherwise | .endBranch | .unknown => return r

/-- The effect of a branch whose predicate does not hold; its alternative lies at `depth`. -/
def Node.execOtherwiseM : Option (List Node) → Nat → Run → M Run
  | none, _, r => return r
  | some nodes, depth, r => r.enterM limits depth (Node.execAllM nodes depth)

/-- The effect of a list of nodes at `depth`, one after the other. -/
def Node.execAllM : List Node → Nat → Run → M Run
  | [], _, r => return r
  | n :: ns, depth, r =>
    r.proceedM limits fun r => do Node.execAllM ns depth (← Node.execM n depth r)

end

/-- The run of a program tree on a level. -/
def Run.ofNodesM (nodes : List Node) (l : Level) : M Run :=
  (Run.begin l).enterM limits 0 (Node.execAllM e limits nodes 0)

end

/-! ## Exact positions -/

/-- The engine for which every position has room. -/
def Engine.exact : Engine Id where
  call := ⟨⟩
  move r d := r.move d
  holds r p := r.holds p

namespace Run

def enter (limits : Limits) (depth : Nat) (body : Run → Run) (r : Run) : Run :=
  Id.run (r.enterM limits depth body)

def iterate (body : Run → Run) (n : Nat) (r : Run) : Run := Id.run (r.iterateM body n)

def proceed (limits : Limits) (next : Run → Run) (r : Run) : Run := Id.run (r.proceedM limits next)

variable (limits : Limits) (depth n : Nat) (body : Run → Run) (r : Run)

theorem enter_eq : r.enter limits depth body =
    if limits.maxDepth < depth then r.fail .tooMuchNesting else body r := rfl

@[simp] theorem iterate_zero : r.iterate body 0 = r := rfl

theorem iterate_succ : r.iterate body (n + 1) =
    if (body r).error.isSome then body r else (body r).iterate body n := rfl

theorem proceed_eq : r.proceed limits body =
    if r.error.isSome then r
    else if limits.maxSteps < r.steps then r.fail .tooManySteps else body r := rfl

end Run

namespace Node

variable (limits : Limits)

def exec (n : Node) (depth : Nat) (r : Run) : Run := Id.run (n.execM .exact limits depth r)

def execOtherwise (alternative : Option (List Node)) (depth : Nat) (r : Run) : Run :=
  Id.run (execOtherwiseM .exact limits alternative depth r)

def execAll (nodes : List Node) (depth : Nat) (r : Run) : Run :=
  Id.run (execAllM .exact limits nodes depth r)

variable (b : Block) (body nodes : List Node) (alternative : Option (List Node)) (depth : Nat)
  (r : Run)

theorem exec_mk : exec limits ⟨b, body, alternative⟩ depth r =
    match b.kind with
    | .move d => r.move d
    | .loop => r.iterate (Run.enter limits (depth + 1) (execAll limits body (depth + 1))) b.count
    | .branch p =>
      if r.holds p then r.enter limits (depth + 1) (execAll limits body (depth + 1))
      else execOtherwise limits alternative (depth + 1) r
    | .endLoop | .otherwise | .endBranch | .unknown => r := by
  rw [exec, execM]
  cases b.kind <;> rfl

theorem execOtherwise_none : execOtherwise limits none depth r = r := by
  rw [execOtherwise, execOtherwiseM]
  rfl

theorem execOtherwise_some : execOtherwise limits (some nodes) depth r =
    r.enter limits depth (execAll limits nodes depth) := by
  rw [execOtherwise, execOtherwiseM]
  rfl

theorem execAll_nil : execAll limits [] depth r = r := by
  rw [execAll, execAllM]
  rfl

theorem execAll_cons (n : Node) (ns : List Node) : execAll limits (n :: ns) depth r =
    r.proceed limits fun r => execAll limits ns depth (exec limits n depth r) := by
  rw [execAll, execAllM]
  rfl

end Node

def Run.ofNodes (limits : Limits) (nodes : List Node) (l : Level) : Run :=
  Id.run (Run.ofNodesM .exact limits nodes l)

theorem Run.ofNodes_eq (limits : Limits) (nodes : List Node) (l : Level) :
    Run.ofNodes limits nodes l = (Run.begin l).enter limits 0 (Node.execAll limits nodes 0) := rfl

end BlockPuzzle
