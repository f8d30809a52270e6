import BlockPuzzle.Proofs.Program.Nesting
import BlockPuzzle.Proofs.Run.Sequence
import BlockPuzzle.Run.Report

/-!
# Unrolled loops

A loop means its body, written as often as the loop says. Copies of the body stand one level further
out than the body did, so where the depth did not stop a run before, it does not stop it afterwards.
The steps are looked at before the loop and then before the first block of its body, with nothing
done in between.

## Main definitions

* `Node.unroll`, `Node.unrollAll`: a program tree without loops, but for those with an empty body.

## Main statements

* `Node.execAll_unrollAll`: a list whose bodies may all be entered does what its unrolling does.
* `runNodes_unrollAll`: both have the same report, whatever the limit on the steps.
-/

namespace BlockPuzzle

mutual

/-- What stands for a node once loops are written out. A loop with an empty body stays. -/
def Node.unroll : Node → List Node
  | ⟨b, body, alternative⟩ =>
    match b.kind with
    | .loop =>
      if body.isEmpty then [⟨b, body, alternative⟩]
      else (List.replicate b.count (unrollAll body)).flatten
    | .branch _ => [⟨b, unrollAll body, unrollOtherwise alternative⟩]
    | .move _ | .endLoop | .otherwise | .endBranch | .unknown => [⟨b, body, alternative⟩]

def Node.unrollOtherwise : Option (List Node) → Option (List Node)
  | none => none
  | some nodes => some (unrollAll nodes)

/-- A list of nodes with the loops on every level of it written out. -/
def Node.unrollAll : List Node → List Node
  | [] => []
  | n :: ns => n.unroll ++ unrollAll ns

end

namespace Node

open Run

variable {limits : Limits} {b : Block} {body : List Node} {alternative : Option (List Node)}
  {depth : Nat}

theorem unroll_of_loop (hk : b.kind = .loop) (hbody : body ≠ []) :
    unroll ⟨b, body, alternative⟩ = (List.replicate b.count (unrollAll body)).flatten := by
  rw [unroll, hk]
  exact if_neg (by simpa using hbody)

theorem unroll_of_loop_nil (hk : b.kind = .loop) :
    unroll ⟨b, [], alternative⟩ = [⟨b, [], alternative⟩] := by
  rw [unroll, hk]
  rfl

theorem unroll_of_branch {p : Predicate} (hk : b.kind = .branch p) :
    unroll ⟨b, body, alternative⟩ = [⟨b, unrollAll body, unrollOtherwise alternative⟩] := by
  rw [unroll, hk]

theorem unroll_of_not_isOpener (hk : ¬ b.kind.isOpener) :
    unroll ⟨b, body, alternative⟩ = [⟨b, body, alternative⟩] := by
  rw [unroll]
  cases h : b.kind <;> simp_all [Kind.isOpener]

/-- A loop does what copies of its body do: there is a first block, and it looks at the steps where
the loop has looked at them. -/
theorem execAll_loop (hk : b.kind = .loop) (hbody : body ≠ [])
    (hdepth : depth + 1 ≤ limits.maxDepth) :
    execAll limits [⟨b, body, alternative⟩] depth =
      (execAll limits body (depth + 1))^[b.count] := by
  have hcopies : (List.replicate b.count body).flatten ≠ [] := by
    have hpos := b.count_pos
    simp [hbody]
    omega
  rw [execAll_singleton, exec_of_loop hk hdepth, ← execAll_flatten_replicate,
    proceed_execAll hcopies]

/-- A loop with an empty body does nothing at any depth. -/
theorem execAll_loop_nil (hk : b.kind = .loop) {depth' : Nat} (hle : depth' ≤ depth)
    (hdepth : depth + 1 ≤ limits.maxDepth) :
    execAll limits [⟨b, [], alternative⟩] depth' = execAll limits [⟨b, [], alternative⟩] depth := by
  have hnil : execAll limits [] (depth' + 1) = execAll limits [] (depth + 1) := by
    funext r
    rw [execAll_nil, execAll_nil]
  rw [execAll_singleton, execAll_singleton, exec_of_loop hk (by omega), exec_of_loop hk hdepth,
    hnil]

mutual

theorem execAll_unroll : (n : Node) → (depth depth' : Nat) → depth' ≤ depth →
    depth + n.nesting ≤ limits.maxDepth →
    execAll limits n.unroll depth' = execAll limits [n] depth
  | ⟨b, body, alternative⟩, depth, depth', hle, hdepth => by
    by_cases hopener : b.kind.isOpener
    · have hnesting : nesting ⟨b, body, alternative⟩ =
          max (nestingAll body) (nestingAll (alternative.getD [])) + 1 :=
        nesting_of_isOpener hopener
      have hbody := execAll_unrollAll body (depth + 1)
      cases hk : b.kind with
      | loop =>
        by_cases hempty : body = []
        · subst hempty
          rw [unroll_of_loop_nil hk, execAll_loop_nil hk hle (by omega)]
        · rw [unroll_of_loop hk hempty, execAll_flatten_replicate,
            hbody depth' (by omega) (by omega), execAll_loop hk hempty (by omega)]
      | branch p =>
        have hexec : exec limits ⟨b, unrollAll body, unrollOtherwise alternative⟩ depth' =
            exec limits ⟨b, body, alternative⟩ depth := by
          funext r
          rw [exec_of_branch hk, exec_of_branch hk, enter_of_le (by omega), enter_of_le (by omega),
            hbody (depth' + 1) (by omega) (by omega), execOtherwise_unrollOtherwise alternative
              (depth + 1) (depth' + 1) (by omega) (by omega)]
        rw [unroll_of_branch hk, execAll_singleton, execAll_singleton, hexec]
      | _ => simp [hk, Kind.isOpener] at hopener
    · rw [unroll_of_not_isOpener hopener, execAll_singleton, execAll_singleton,
        exec_of_not_isOpener hopener]

theorem execOtherwise_unrollOtherwise : (alternative : Option (List Node)) →
    (depth depth' : Nat) → depth' ≤ depth →
    depth + nestingAll (alternative.getD []) ≤ limits.maxDepth →
    execOtherwise limits (unrollOtherwise alternative) depth' =
      execOtherwise limits alternative depth
  | none, depth, depth', _, _ => by
    funext r
    rw [unrollOtherwise, execOtherwise_none, execOtherwise_none]
  | some nodes, depth, depth', hle, hdepth => by
    rw [Option.getD_some] at hdepth
    funext r
    rw [unrollOtherwise, execOtherwise_some, execOtherwise_some, enter_of_le (by omega),
      enter_of_le (by omega), execAll_unrollAll nodes depth depth' hle hdepth]

/-- The unrolled list may stand further out than the list itself. -/
theorem execAll_unrollAll : (nodes : List Node) → (depth depth' : Nat) → depth' ≤ depth →
    depth + nestingAll nodes ≤ limits.maxDepth →
    execAll limits (unrollAll nodes) depth' = execAll limits nodes depth
  | [], depth, depth', _, _ => by
    funext r
    rw [unrollAll, execAll_nil, execAll_nil]
  | n :: ns, depth, depth', hle, hdepth => by
    rw [nestingAll] at hdepth
    funext r
    rw [unrollAll, ← List.singleton_append, execAll_append, execAll_append,
      execAll_unroll n depth depth' hle (by omega),
      execAll_unrollAll ns depth depth' hle (by omega)]

end

end Node

/-- A program whose bodies may all be entered has the report of its unrolling, also where the steps
run out in the middle of a loop. -/
theorem runNodes_unrollAll (nodes : List Node) (l : Level) (limits : Limits)
    (hdepth : ∀ n ∈ nodes, n.depth ≤ limits.maxDepth) :
    runNodes nodes l limits = runNodes (Node.unrollAll nodes) l limits := by
  have hnesting : 0 + Node.nestingAll nodes ≤ limits.maxDepth := by
    rw [Nat.zero_add, Node.nestingAll_le_iff]
    intro n hn
    rw [← Node.depth_eq_nesting]
    exact hdepth n hn
  have hexec := Node.execAll_unrollAll nodes 0 0 (Nat.le_refl 0) hnesting
  rw [runNodes, runNodes, Run.ofNodes_eq, Run.ofNodes_eq, hexec]

/-- An aisle that ends at a wall. -/
def Level.aisle : Level :=
  { grid := ⟨[[.path, .star, .path, .path, .wall]]⟩, start := ⟨⟨0, 0⟩, .right⟩ }

/-- Three rounds of two steps to the right, with a push upwards before a wall and a step back
otherwise. -/
def Node.rounds : List Node :=
  let step (d : Direction) : Node := .leaf ⟨"step", .move d, none⟩
  [⟨⟨"rounds", .loop, some 3⟩,
    [⟨⟨"twice", .loop, none⟩, [step .right], none⟩,
      ⟨⟨"wall", .branch .wallAhead, none⟩, [step .up], some [step .left]⟩], none⟩]

/-- The steps run out in the third round, within the loop inside. -/
theorem runNodes_unrollAll_rounds :
    (runNodes (Node.unrollAll Node.rounds) Level.aisle { maxSteps := 6, maxDepth := 2 }).error =
        some .tooManySteps ∧
      runNodes Node.rounds Level.aisle { maxSteps := 6, maxDepth := 2 } =
        runNodes (Node.unrollAll Node.rounds) Level.aisle { maxSteps := 6, maxDepth := 2 } := by
  have hdepth : ∀ n ∈ Node.rounds, n.depth ≤ 2 := by
    intro n hn
    rw [Node.depth_eq_nesting]
    revert n
    decide
  exact ⟨by decide, runNodes_unrollAll Node.rounds Level.aisle _ hdepth⟩

end BlockPuzzle
