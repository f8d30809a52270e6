import BlockPuzzle.Program.Block

/-!
# Program trees

## Main definitions

* `Node`: a block with the bodies that belong to it.
* `Node.depth`: how many bodies lie inside each other at most, counted with a stack of nodes still
  to visit, so that deep trees need no deep recursion.
-/

namespace BlockPuzzle

structure Node where
  block : Block
  /-- What a loop repeats, or what a branch does if its predicate holds. -/
  body : List Node
  /-- What a branch does otherwise, if it says so. -/
  alternative : Option (List Node)
  deriving Repr

namespace Node

def leaf (b : Block) : Node := ⟨b, [], none⟩

def kind (n : Node) : Kind := n.block.kind

/-- The nodes in both bodies, the alternative last. -/
def children (n : Node) : List Node := n.body ++ n.alternative.getD []

/-- The sizes of the nodes in `pending` together, which a visit makes smaller. -/
noncomputable def pendingSize (pending : List (Node × Nat)) : Nat :=
  pending.foldr (fun p size => sizeOf p.1 + size) 0

theorem pendingSize_append (ps qs : List (Node × Nat)) :
    pendingSize (ps ++ qs) = pendingSize ps + pendingSize qs := by
  induction ps with
  | nil => exact (Nat.zero_add _).symm
  | cons p ps ih =>
    have hcons (rs : List (Node × Nat)) : pendingSize (p :: rs) = sizeOf p.1 + pendingSize rs := rfl
    rw [List.cons_append, hcons, ih, hcons, Nat.add_assoc]

theorem pendingSize_reverse (ps : List (Node × Nat)) : pendingSize ps.reverse = pendingSize ps := by
  induction ps with
  | nil => rfl
  | cons p ps ih =>
    rw [List.reverse_cons, pendingSize_append, ih, Nat.add_comm]
    rfl

theorem pendingSize_lt_sizeOf (ns : List Node) (depth : Nat) :
    pendingSize (ns.map (·, depth)) < sizeOf ns := by
  induction ns with
  | nil => exact Nat.lt_add_one 0
  | cons n ns ih =>
    have hcons : pendingSize ((n :: ns).map (·, depth)) =
        sizeOf n + pendingSize (ns.map (·, depth)) := rfl
    rw [hcons, List.cons.sizeOf_spec]
    omega

theorem pendingSize_children_lt (n : Node) (depth : Nat) :
    pendingSize (n.children.map (·, depth)) < sizeOf n := by
  obtain ⟨b, body, alternative⟩ := n
  have hbody := pendingSize_lt_sizeOf body depth
  cases alternative with
  | none =>
    simp only [children, Option.getD_none, List.append_nil, Node.mk.sizeOf_spec]
    omega
  | some nodes =>
    have hnodes := pendingSize_lt_sizeOf nodes depth
    simp only [children, Option.getD_some, List.map_append, pendingSize_append,
      Node.mk.sizeOf_spec, Option.some.sizeOf_spec]
    omega

/-- The greatest depth below the nodes in `pending`, each with the depth above it, and `best`. The
nodes are taken from one end of a stack: what a visit puts there is visited next, and the last of it
first. Only openers add to the depth, and what lies below other nodes does not count. -/
def deepest (best : Nat) : List (Node × Nat) → Nat
  | [] => best
  | (n, above) :: pending =>
    if n.kind.isOpener then
      deepest (max best (above + 1)) ((n.children.map (·, above + 1)).reverse ++ pending)
    else deepest best pending
termination_by pending => pendingSize pending
decreasing_by
  · rw [pendingSize_append, pendingSize_reverse]
    exact Nat.add_lt_add_right (pendingSize_children_lt n (above + 1)) _
  · have hpos : 0 < sizeOf n := Nat.lt_of_le_of_lt (Nat.zero_le _) (pendingSize_children_lt n 0)
    exact Nat.lt_add_of_pos_left hpos

def depth (n : Node) : Nat := deepest 0 [(n, 0)]

end Node

end BlockPuzzle
