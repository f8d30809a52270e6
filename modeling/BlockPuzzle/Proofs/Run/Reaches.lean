import BlockPuzzle.Run.Execution

/-!
# What a run consists of

Whatever the program tree, a run is a sequence of moves, each made without an error and with steps
to spare, and at most one broken limit at its end. What every move and every broken limit keeps is
therefore kept by every run.

## Main definitions

* `Run.Reaches`: one run comes out of another by moves and a broken limit.

## Main statements

* `Run.reaches_ofNodes`: the run of a program tree on a level comes out of the level's first state.
-/

namespace BlockPuzzle

namespace Run

variable {limits : Limits} {r r' r'' : Run} {depth : Nat} {body : Run → Run}

/-- The runs that come out of `r`. Where the nesting is too deep there are still steps to spare, for
a body that cannot be entered is never passed through before. -/
inductive Reaches (limits : Limits) (r : Run) : Run → Prop where
  | refl : Reaches limits r r
  | move {r' : Run} (d : Direction) : Reaches limits r r' → r'.error = none →
      r'.steps ≤ limits.maxSteps → Reaches limits r (r'.move d)
  | tooManySteps {r' : Run} : Reaches limits r r' → r'.error = none →
      limits.maxSteps < r'.steps → Reaches limits r (r'.fail .tooManySteps)
  | tooMuchNesting {r' : Run} : Reaches limits r r' → r'.error = none →
      r'.steps ≤ limits.maxSteps → Reaches limits r (r'.fail .tooMuchNesting)

theorem Reaches.trans (h : Reaches limits r r') (g : Reaches limits r' r'') :
    Reaches limits r r'' := by
  induction g with
  | refl => exact h
  | move d _ herror hsteps ih => exact ih.move d herror hsteps
  | tooManySteps _ herror hsteps ih => exact ih.tooManySteps herror hsteps
  | tooMuchNesting _ herror hsteps ih => exact ih.tooMuchNesting herror hsteps

/-! ## Control -/

theorem enter_of_lt (h : limits.maxDepth < depth) :
    r.enter limits depth body = r.fail .tooMuchNesting := by rw [enter_eq, if_pos h]

/-- Of a body that is too deep nothing else matters. -/
theorem enter_eq_fail (h : limits.maxDepth < depth) (body : Run → Run) :
    enter limits depth body = (·.fail .tooMuchNesting) := funext fun _ => enter_of_lt h

theorem enter_of_le (h : depth ≤ limits.maxDepth) : r.enter limits depth body = body r := by
  rw [enter_eq, if_neg (by omega)]

@[simp] theorem isSome_error_fail (r : Run) (e : RunError) : (r.fail e).error.isSome := rfl

/-- What every pass keeps, the whole loop keeps. -/
theorem iterate_induction {motive : Run → Prop} (h : ∀ r, motive r → motive (body r)) (n : Nat)
    (r : Run) (hr : motive r) : motive (r.iterate body n) := by
  induction n generalizing r with
  | zero => exact hr
  | succ n ih =>
    rw [iterate_succ]
    split
    · exact h r hr
    · exact ih (body r) (h r hr)

/-- A loop that fails in its first pass does not go round again. -/
theorem iterate_of_isSome_error (h : (body r).error.isSome) {n : Nat} (hn : 0 < n) :
    r.iterate body n = body r := by
  obtain ⟨n, rfl⟩ : ∃ m, n = m + 1 := ⟨n - 1, by omega⟩
  rw [iterate_succ, if_pos h]

theorem reaches_iterate (h : ∀ r, Reaches limits r (body r)) (n : Nat) (r : Run) :
    Reaches limits r (r.iterate body n) :=
  iterate_induction (motive := Reaches limits r) (fun r' hr' => hr'.trans (h r')) n r .refl

end Run

/-! ## Nodes -/

namespace Node

open Run

variable {limits : Limits}

theorem reaches_enter {nodes : List Node} {depth : Nat} {r : Run}
    (h : Reaches limits r (execAll limits nodes depth r)) (herror : r.error = none)
    (hsteps : r.steps ≤ limits.maxSteps) :
    Reaches limits r (r.enter limits depth (execAll limits nodes depth)) := by
  by_cases hdepth : limits.maxDepth < depth
  · rw [enter_of_lt hdepth]
    exact .tooMuchNesting .refl herror hsteps
  · rwa [enter_of_le (by omega)]

mutual

theorem reaches_exec : (n : Node) → (depth : Nat) → (r : Run) → r.error = none →
    r.steps ≤ limits.maxSteps → Reaches limits r (n.exec limits depth r)
  | ⟨b, body, alternative⟩, depth, r, herror, hsteps => by
    have hbody := reaches_execAll body (depth + 1)
    rw [exec_mk]
    split
    · exact .move _ .refl herror hsteps
    · by_cases hdepth : limits.maxDepth < depth + 1
      · -- Only the first pass looks at the nesting with steps to spare, and it is the last one.
        rw [enter_eq_fail hdepth, iterate_of_isSome_error rfl b.count_pos]
        exact .tooMuchNesting .refl herror hsteps
      · exact reaches_iterate (fun r => by rw [enter_of_le (by omega)]; exact hbody r) b.count r
    · split
      · exact reaches_enter (hbody r) herror hsteps
      · exact reaches_execOtherwise alternative (depth + 1) r herror hsteps
    all_goals exact .refl

theorem reaches_execOtherwise : (alternative : Option (List Node)) → (depth : Nat) →
    (r : Run) → r.error = none → r.steps ≤ limits.maxSteps →
    Reaches limits r (execOtherwise limits alternative depth r)
  | none, depth, r, _, _ => by rw [execOtherwise_none]; exact .refl
  | some nodes, depth, r, herror, hsteps => by
    rw [execOtherwise_some]
    exact reaches_enter (reaches_execAll nodes depth r) herror hsteps

theorem reaches_execAll : (nodes : List Node) → (depth : Nat) → (r : Run) →
    Reaches limits r (execAll limits nodes depth r)
  | [], depth, r => by rw [execAll_nil]; exact .refl
  | n :: ns, depth, r => by
    rw [execAll_cons, proceed_eq]
    split
    · exact .refl
    · next herror =>
      have herror : r.error = none := by simpa using herror
      split
      · next hsteps => exact .tooManySteps .refl herror hsteps
      · next hsteps =>
        exact (reaches_exec n depth r herror (by omega)).trans
          (reaches_execAll ns depth (n.exec limits depth r))

end

end Node

/-- Every run comes out of the board as the level shows it. -/
theorem Run.reaches_ofNodes (limits : Limits) (nodes : List Node) (l : Level) :
    Reaches limits (Run.begin l) (Run.ofNodes limits nodes l) :=
  Node.reaches_enter (Node.reaches_execAll nodes 0 (Run.begin l)) rfl (Nat.zero_le _)

end BlockPuzzle
