import BlockPuzzle.Proofs.Run.Noting

/-!
# Runs on fuel

A run on fuel does what the exact one does and spends a unit for each node that it comes to. It runs
out if and only if there are more of these than units, and otherwise the rest is left over.

## Main definitions

* `Fueled`: computations that spend fuel and may run out of it.
* `Engine.fueled`, `Run.ofNodesFueled`: the engine that spends fuel, and the run of a program tree
  on a level by it.
* `Fueled.Costs`: what a computation comes to, and how many units it takes.

## Main statements

* `Run.costs_ofNodesFueled`: a run takes as many units as there are nodes that it comes to.
-/

namespace BlockPuzzle

/-- What spends fuel and has no result where that runs out. -/
abbrev Fueled := StateT Nat Option

/-- Spends one unit. -/
def Fueled.spend : Fueled PUnit := fun
  | 0 => none
  | fuel + 1 => some (⟨⟩, fuel)

def Engine.fueled : Engine Fueled where
  call := Fueled.spend
  move r d := return r.move d
  holds r p := return r.holds p

def Run.ofNodesFueled (limits : Limits) (nodes : List Node) (l : Level) : Fueled Run :=
  Run.ofNodesM .fueled limits nodes l

/-! ## What it costs -/

namespace Fueled

variable {α β : Type}

/-- The computation takes `cost` units, and with them it comes to `a`. -/
def Costs (x : Fueled α) (a : α) (cost : Nat) : Prop :=
  ∀ fuel, x fuel = if fuel < cost then none else some (a, fuel - cost)

theorem costs_pure (a : α) : Costs (pure a) a 0 := fun _ => rfl

theorem costs_spend : Costs spend ⟨⟩ 1 := by
  intro fuel
  cases fuel <;> rfl

theorem Costs.bind {x : Fueled α} {f : α → Fueled β} {a : α} {b : β} {c d : Nat}
    (hx : Costs x a c) (hf : Costs (f a) b d) : Costs (x >>= f) b (c + d) := by
  intro fuel
  have hbind : (x >>= f) fuel = (x fuel).bind fun p => f p.1 p.2 := rfl
  rw [hbind, hx fuel]
  by_cases hc : fuel < c
  · rw [if_pos hc, if_pos (by omega), Option.bind_none]
  · have hlt : fuel - c < d ↔ fuel < c + d := by omega
    rw [if_neg hc, Option.bind_some, hf (fuel - c), Nat.sub_sub]
    simp only [hlt]

theorem costs_noteAll (cs : List (Node × Run)) :
    Costs (Run.noteAll (fun _ _ => spend) cs) ⟨⟩ cs.length := by
  induction cs with
  | nil => exact costs_pure _
  | cons c cs ih =>
    rw [Run.noteAll, List.forM_cons, List.length_cons, Nat.add_comm]
    exact costs_spend.bind ih

end Fueled

theorem Engine.notes_fueled : Engine.fueled.Notes fun _ _ => Fueled.spend :=
  ⟨fun _ _ => rfl, fun _ _ => rfl, fun _ _ _ => rfl⟩

/-- A run takes a unit for each node that it comes to, and with these it is the exact one. -/
theorem Run.costs_ofNodesFueled (limits : Limits) (nodes : List Node) (l : Level) :
    Fueled.Costs (ofNodesFueled limits nodes l) (ofNodes limits nodes l)
      (calls limits nodes l).length := by
  rw [ofNodesFueled, ofNodesM_eq Engine.notes_fueled]
  exact (Fueled.costs_noteAll _).bind (f := fun _ => pure (ofNodes limits nodes l))
    (Fueled.costs_pure _)

end BlockPuzzle
