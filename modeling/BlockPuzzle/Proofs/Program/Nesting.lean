import BlockPuzzle.Program.Node

/-!
# Nesting, by recursion

The depth of a node is counted with a stack of nodes still to visit. Here it is one number more than
the greatest among the bodies of the node.

## Main definitions

* `Node.nesting`, `Node.nestingAll`: how many bodies lie inside each other at most.

## Main statements

* `Node.deepest_le_iff`: what the visit to the nodes of a stack adds.
* `Node.depth_eq_nesting`: both ways to count agree.
* `Node.depth_eq_max?_bodies`: the depth of a node by the depths of the nodes in its bodies.
-/

namespace BlockPuzzle

mutual

/-- How many bodies lie inside each other at most. Only openers have bodies that count. -/
def Node.nesting : Node → Nat
  | ⟨b, body, alternative⟩ =>
    if b.kind.isOpener then max (nestingAll body) (nestingOtherwise alternative) + 1 else 0

def Node.nestingOtherwise : Option (List Node) → Nat
  | none => 0
  | some nodes => nestingAll nodes

def Node.nestingAll : List Node → Nat
  | [] => 0
  | n :: ns => max n.nesting (nestingAll ns)

end

namespace Node

variable {n : Node} {ns : List Node}

theorem nestingOtherwise_eq (alternative : Option (List Node)) :
    nestingOtherwise alternative = nestingAll (alternative.getD []) := by
  cases alternative <;> simp [nestingOtherwise, nestingAll]

theorem nestingAll_le_iff {k : Nat} : nestingAll ns ≤ k ↔ ∀ n ∈ ns, n.nesting ≤ k := by
  induction ns with
  | nil => simp [nestingAll]
  | cons n ns ih => rw [nestingAll, Nat.max_le, List.forall_mem_cons, ih]

theorem nestingAll_append (ms ns : List Node) :
    nestingAll (ms ++ ns) = max (nestingAll ms) (nestingAll ns) := by
  induction ms with
  | nil => simp [nestingAll]
  | cons m ms ih => rw [List.cons_append, nestingAll, ih, nestingAll, Nat.max_assoc]

theorem nestingAll_children (n : Node) :
    nestingAll n.children = max (nestingAll n.body) (nestingAll (n.alternative.getD [])) :=
  nestingAll_append _ _

theorem nesting_of_isOpener (h : n.kind.isOpener) :
    n.nesting = max (nestingAll n.body) (nestingAll (n.alternative.getD [])) + 1 := by
  obtain ⟨b, body, alternative⟩ := n
  rw [← nestingOtherwise_eq]
  exact if_pos h

theorem nesting_of_not_isOpener (h : ¬ n.kind.isOpener) : n.nesting = 0 := by
  obtain ⟨b, body, alternative⟩ := n
  exact if_neg h

/-- A node adds to the depth above it only if it is an opener. -/
theorem deepest_le_iff {best k : Nat} {pending : List (Node × Nat)} :
    deepest best pending ≤ k ↔
      best ≤ k ∧ ∀ p ∈ pending, p.1.nesting = 0 ∨ p.2 + p.1.nesting ≤ k := by
  induction best, pending using deepest.induct with
  | case1 best => simp [deepest]
  | case2 best n above pending h ih =>
    have hchildren : nestingAll n.children ≤ k - (above + 1) ↔
        ∀ c ∈ n.children, c.nesting ≤ k - (above + 1) := nestingAll_le_iff
    rw [deepest, if_pos h, ih]
    simp only [List.forall_mem_append, List.mem_reverse, List.forall_mem_map,
      List.forall_mem_cons, nesting_of_isOpener h, ← nestingAll_children]
    constructor
    · rintro ⟨hbest, hbelow, hpending⟩
      have hle := hchildren.2 fun c hc => by have := hbelow c hc; omega
      exact ⟨by omega, .inr (by omega), hpending⟩
    · rintro ⟨hbest, hn, hpending⟩
      refine ⟨by omega, fun c hc => ?_, hpending⟩
      have hle := hchildren.1 (by omega) c hc
      omega
  | case3 best n above pending h ih =>
    rw [deepest, if_neg h, ih]
    simp [nesting_of_not_isOpener h]

theorem depth_eq_nesting (n : Node) : n.depth = n.nesting := by
  have hle (k : Nat) : n.depth ≤ k ↔ n.nesting ≤ k := by
    rw [depth, deepest_le_iff]
    simp
    omega
  exact Nat.le_antisymm ((hle _).2 (Nat.le_refl _)) ((hle _).1 (Nat.le_refl _))

theorem nestingAll_le_iff_depth {k : Nat} : nestingAll ns ≤ k ↔ ∀ n ∈ ns, n.depth ≤ k := by
  simp only [nestingAll_le_iff, depth_eq_nesting]

theorem nestingAll_eq_max? (ns : List Node) : nestingAll ns = (ns.map depth).max?.getD 0 := by
  induction ns with
  | nil => rfl
  | cons n ns ih =>
    rw [nestingAll, ih, ← depth_eq_nesting, List.map_cons, List.max?_cons]
    cases (ns.map depth).max? <;> simp

/-- A loop or a branch is one deeper than the deepest node in its two bodies. Any other node has no
depth, whatever stands in its bodies. -/
theorem depth_eq_max?_bodies (n : Node) :
    n.depth = if n.kind.isOpener then
      1 + ((n.body ++ n.alternative.getD []).map depth).max?.getD 0 else 0 := by
  rw [← children, ← nestingAll_eq_max?, depth_eq_nesting]
  split
  · next h => rw [nesting_of_isOpener h, ← nestingAll_children, Nat.add_comm]
  · next h => rw [nesting_of_not_isOpener h]

/-- A loop inside a move does not count, and an empty loop in the alternative of a branch does. -/
example : (Node.mk ⟨"a", .branch .onStar, none⟩ [⟨⟨"b", .move .up, none⟩,
      [⟨⟨"c", .loop, none⟩, [], none⟩], none⟩]
    (some [⟨⟨"d", .loop, none⟩, [], none⟩])).depth = 2 := by decide +kernel

end Node

end BlockPuzzle
