import BlockPuzzle.Proofs.Grid.Walled
import BlockPuzzle.Proofs.Run.Collecting

/-!
# Where the agent stands

The agent only enters cells that can be walked on, and picking up neither opens nor closes a way. So
it stands where it started or on a cell of the level that can be walked on, and a wall around the
level keeps it inside.

## Main statements

* `Step.position_of_chain`: the positions of a walk, by the level alone.
* `Grid.Walled.inner_of_mem_trace`: an agent that starts inside of a wall stays there.
-/

namespace BlockPuzzle

namespace Step

variable {s s' : Step} {l : Level} {steps : List Step} {k : Nat}

theorem Follows.position_eq_or_walkable (h : s.Follows s') :
    s'.pose.position = s.pose.position ∨ s.grid.walkable s'.pose.position := by
  cases h with
  | move d hm => exact .inr hm.walkable
  | bump hb => exact .inl (congrArg Pose.position hb.pose)

/-- The agent stands where it started or where it can walk on the level. -/
theorem position_of_chain (hfirst : steps.head? = some (first l)) (hchain : steps.IsChain Follows)
    (hs : steps[k]? = some s) :
    s.pose.position = l.start.position ∨ l.grid.walkable s.pose.position := by
  induction k generalizing s with
  | zero =>
    obtain ⟨rest, rfl⟩ := List.head?_eq_some_iff.1 hfirst
    obtain rfl : first l = s := by simpa using hs
    exact .inl rfl
  | succ k ih =>
    obtain ⟨hk, rfl⟩ := List.getElem?_eq_some_iff.1 hs
    have hprev := List.getElem?_eq_getElem (l := steps) (i := k) (by omega)
    have hfollows := List.isChain_iff_getElem.1 hchain k hk
    obtain hstays | henters := hfollows.position_eq_or_walkable
    · rw [hstays]
      exact ih hprev
    · rw [(accounts_of_chain hfirst hchain hprev).grid, Grid.walkable_cleared] at henters
      exact .inr henters

end Step

/-- An agent that starts inside of a wall stays there, whatever the program. -/
theorem Grid.Walled.inner_of_mem_trace {l : Level} {m n : Nat} (h : l.grid.Walled m n)
    (hstart : l.start.position.Inner m n) {nodes : List Node} {limits : Limits} {s : Step}
    (hs : s ∈ (runNodes nodes l limits).trace) : s.pose.position.Inner m n := by
  have hplays := (Run.sound_ofNodes limits nodes l).plays l.grid
  obtain ⟨k, hk⟩ := List.mem_iff_getElem?.1 hs
  obtain hstands | hwalkable := Step.position_of_chain hplays.first hplays.chain hk
  · rwa [hstands]
  · exact h.inner_of_walkable hwalkable

end BlockPuzzle
