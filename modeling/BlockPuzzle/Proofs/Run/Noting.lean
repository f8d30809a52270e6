import BlockPuzzle.Proofs.Run.Calls

/-!
# Engines that take note of their nodes

An engine may do something of its own for every node that a run comes to, as to spend a unit or to
look at a position, and be like the exact engine in everything else. Whatever its monad is, it then
does what it does for the nodes, one after the other, and the outcome is that of the exact engine.

## Main definitions

* `Engine.Notes`: what an engine does for a node of its own.
* `Run.Follows`: a part of a run does what is noted for its nodes.

## Main statements

* `Node.follows_execAllM`: so does every list of nodes.
* `Run.ofNodesM_eq`: so does a whole run.
-/

namespace BlockPuzzle

variable {M : Type → Type} [Monad M] {e : Engine M} {note : Node → Run → M PUnit}

/-- For each node the engine does what `note` says and otherwise no more than the exact one. -/
structure Engine.Notes (e : Engine M) (note : Node → Run → M PUnit) : Prop where
  move : ∀ {n : Node} {d : Direction}, n.kind = .move d →
    ∀ r, (do e.call; e.move r d) = do note n r; return r.move d
  holds : ∀ {n : Node} {p : Predicate}, n.kind = .branch p →
    ∀ r, (do e.call; e.holds r p) = do note n r; return r.holds p
  rest : ∀ {n : Node}, n.kind.direction? = none → n.kind.predicate? = none →
    ∀ r, e.call = note n r

namespace Run

/-- What is done for some nodes, in their order. -/
def noteAll (note : Node → Run → M PUnit) (cs : List (Node × Run)) : M PUnit :=
  forM cs fun c => note c.1 c.2

/-- The part of a run does what is noted for its nodes and comes to what `body` comes to. -/
def Follows (note : Node → Run → M PUnit) (bodyM : Run → M Run) (body : Run → Run)
    (calls : Run → List (Node × Run)) : Prop :=
  ∀ r, bodyM r = do noteAll note (calls r); return body r

variable [LawfulMonad M] {bodyM : Run → M Run} {body : Run → Run}
  {calls : Run → List (Node × Run)}

theorem noteAll_append (cs ds : List (Node × Run)) :
    noteAll note (cs ++ ds) = (do noteAll note cs; noteAll note ds) := List.forM_append

/-- What stops before its first node does nothing. -/
theorem pure_eq_noteAll (r : Run) : (pure r : M Run) = (do noteAll note []; return r) := by
  rw [noteAll, List.forM_nil, pure_bind]

theorem Follows.enter (h : Follows note bodyM body calls) (limits : Limits) (depth : Nat) :
    Follows note (enterM limits depth bodyM) (Run.enter limits depth body)
      (enterCalls limits depth calls) := by
  intro r
  rw [enterM, Run.enter_eq, enterCalls]
  split
  · exact pure_eq_noteAll _
  · exact h r

theorem Follows.iterate (h : Follows note bodyM body calls) (n : Nat) :
    Follows note (fun r => r.iterateM bodyM n) (fun r => r.iterate body n)
      (fun r => r.iterateCalls body calls n) := by
  intro r
  induction n generalizing r with
  | zero => exact pure_eq_noteAll r
  | succ n ih =>
    simp only [iterateM, Run.iterate_succ, iterateCalls, noteAll_append, h r, bind_assoc, pure_bind]
    refine congrArg _ (funext fun _ => ?_)
    split
    · exact pure_eq_noteAll _
    · exact ih (body r)

theorem Follows.proceed (h : Follows note bodyM body calls) (limits : Limits) :
    Follows note (proceedM limits bodyM) (Run.proceed limits body) (proceedCalls limits calls) := by
  intro r
  rw [proceedM, Run.proceed_eq, proceedCalls]
  split
  · exact pure_eq_noteAll _
  · split
    · exact pure_eq_noteAll _
    · exact h r

end Run

namespace Node

open Run

variable [LawfulMonad M] {limits : Limits}

mutual

theorem follows_execM (he : e.Notes note) : (n : Node) → (depth : Nat) →
    Follows note (n.execM e limits depth) (n.exec limits depth) (n.calls limits depth)
  | ⟨b, body, alternative⟩, depth, r => by
    have hbody := (follows_execAllM he body (depth + 1)).enter limits (depth + 1)
    have hotherwise := follows_execOtherwiseM he alternative (depth + 1)
    rw [execM, exec_mk, calls, noteAll, List.forM_cons]
    cases hk : b.kind with
    | move d => simp [he.move (n := ⟨b, body, alternative⟩) hk r]
    | branch p =>
      -- The question is part of what is noted, and its answer tells the bodies apart.
      dsimp only
      rw [← bind_assoc, he.holds (n := ⟨b, body, alternative⟩) hk r, bind_assoc, bind_assoc]
      refine congrArg _ (funext fun _ => ?_)
      rw [pure_bind]
      split
      · exact hbody r
      · exact hotherwise r
    | loop =>
      dsimp only
      rw [he.rest (n := ⟨b, body, alternative⟩) (congrArg Kind.direction? hk)
        (congrArg Kind.predicate? hk) r, bind_assoc]
      exact congrArg _ (funext fun _ => hbody.iterate b.count r)
    | _ =>
      dsimp only
      rw [he.rest (n := ⟨b, body, alternative⟩) (congrArg Kind.direction? hk)
        (congrArg Kind.predicate? hk) r, bind_assoc]
      exact congrArg _ (funext fun _ => pure_eq_noteAll r)

theorem follows_execOtherwiseM (he : e.Notes note) :
    (alternative : Option (List Node)) → (depth : Nat) →
    Follows note (execOtherwiseM e limits alternative depth)
      (execOtherwise limits alternative depth) (callsOtherwise limits alternative depth)
  | none, depth, r => by
    rw [execOtherwiseM, execOtherwise_none, callsOtherwise]
    exact pure_eq_noteAll r
  | some nodes, depth, r => by
    rw [execOtherwiseM, execOtherwise_some, callsOtherwise]
    exact (follows_execAllM he nodes depth).enter limits depth r

theorem follows_execAllM (he : e.Notes note) : (nodes : List Node) → (depth : Nat) →
    Follows note (execAllM e limits nodes depth) (execAll limits nodes depth)
      (callsAll limits nodes depth)
  | [], depth, r => by
    rw [execAllM, execAll_nil, callsAll]
    exact pure_eq_noteAll r
  | n :: ns, depth, r => by
    rw [execAllM, execAll_cons, callsAll]
    refine Follows.proceed (fun r => ?_) limits r
    rw [follows_execM he n depth r, noteAll_append, bind_assoc, bind_assoc]
    refine congrArg _ (funext fun _ => ?_)
    rw [pure_bind, follows_execAllM he ns depth]

end

end Node

/-- A run does what is noted for the nodes that it comes to, and comes to what the exact engine
comes to. -/
theorem Run.ofNodesM_eq [LawfulMonad M] (he : e.Notes note) (limits : Limits) (nodes : List Node)
    (l : Level) :
    Run.ofNodesM e limits nodes l = do
      noteAll note (calls limits nodes l)
      return Run.ofNodes limits nodes l :=
  (Node.follows_execAllM he nodes 0).enter limits 0 (Run.begin l)

end BlockPuzzle
