import BlockPuzzle.Proofs.Program.Filing
import BlockPuzzle.Proofs.Program.Nesting

/-!
# The depth of a program and its openers

Every body in the tree of a program belongs to an opener in the list, also where openers stay open
or cross. The regions of the bodies lie behind their openers, so that nothing nests deeper than
there are openers.

## Main definitions

* `Block.openers`: the number of openers in a list.
* `Node.parts`, `Node.partsAll`: all nodes of a tree, at every level.

## Main statements

* `Node.nesting_le_openers`: the bound for every node that is read off a region.
* `Node.depth_le_openers`: the bound for the depth of every node of a program.
-/

namespace BlockPuzzle

namespace Block

/-- How many loops and branches are opened. -/
def openers (bs : List Block) : Nat := bs.countP (·.kind.isOpener)

theorem openers_le_length (bs : List Block) : openers bs ≤ bs.length := List.countP_le_length

theorem openers_le_of_sublist {bs cs : List Block} (h : bs.Sublist cs) :
    openers bs ≤ openers cs := h.countP_le

theorem openers_cons_of_isOpener {b : Block} (hb : b.kind.isOpener) (bs : List Block) :
    openers (b :: bs) = openers bs + 1 := List.countP_cons_of_pos hb

end Block

theorem Family.region_sublist (f : Family) (bs : List Block) : (f.region bs).Sublist bs :=
  List.take_sublist _ bs

theorem Family.after_sublist (f : Family) (bs : List Block) : (f.after bs).Sublist bs :=
  List.drop_sublist _ bs

mutual

/-- The node and all nodes in its bodies. -/
def Node.parts : Node → List Node
  | ⟨b, body, alternative⟩ =>
    ⟨b, body, alternative⟩ :: (partsAll body ++ partsOtherwise alternative)

def Node.partsOtherwise : Option (List Node) → List Node
  | none => []
  | some nodes => partsAll nodes

def Node.partsAll : List Node → List Node
  | [] => []
  | n :: ns => n.parts ++ partsAll ns

end

namespace Node

variable {b : Block} {body : List Node} {alternative : Option (List Node)} {n : Node}
  {ns : List Node} {k : Nat}

theorem partsOtherwise_eq (alternative : Option (List Node)) :
    partsOtherwise alternative = partsAll (alternative.getD []) := by
  cases alternative <;> rfl

theorem partsAll_eq (ns : List Node) : partsAll ns = ns.flatMap parts := by
  induction ns with
  | nil => rfl
  | cons n ns ih => rw [partsAll, ih, List.flatMap_cons]

theorem self_mem_parts (n : Node) : n ∈ n.parts := by
  cases n
  simp [parts]

theorem mem_partsAll_of_mem (hn : n ∈ ns) : n ∈ partsAll ns := by
  rw [partsAll_eq]
  exact List.mem_flatMap.2 ⟨n, hn, self_mem_parts n⟩

/-- What holds of all parts of a node holds of the node and of the parts of its bodies. -/
theorem forall_mem_parts {P : Node → Prop} :
    (∀ m ∈ parts ⟨b, body, alternative⟩, P m) ↔
      P ⟨b, body, alternative⟩ ∧ (∀ m ∈ partsAll body, P m) ∧
        ∀ m ∈ partsOtherwise alternative, P m := by
  rw [parts, List.forall_mem_cons, List.forall_mem_append]

/-- Around its bodies a node is one more body. -/
theorem nesting_le_of_mem_parts (hbody : ∀ m ∈ partsAll body, m.nesting ≤ k)
    (halternative : ∀ m ∈ partsAll (alternative.getD []), m.nesting ≤ k) :
    ∀ m ∈ parts ⟨b, body, alternative⟩, m.nesting ≤ k + 1 := by
  rw [forall_mem_parts, partsOtherwise_eq]
  have hbodies := nestingAll_le_iff.2 fun m hm => hbody m (mem_partsAll_of_mem hm)
  have halternatives := nestingAll_le_iff.2 fun m hm => halternative m (mem_partsAll_of_mem hm)
  refine ⟨?_, fun m hm => Nat.le_succ_of_le (hbody m hm),
    fun m hm => Nat.le_succ_of_le (halternative m hm)⟩
  rw [nesting, nestingOtherwise_eq]
  split <;> omega

theorem forall_mem_partsAll_cons {P : Node → Prop} :
    (∀ m ∈ partsAll (n :: ns), P m) ↔ (∀ m ∈ n.parts, P m) ∧ ∀ m ∈ partsAll ns, P m := by
  rw [partsAll, List.forall_mem_append]

/-- Nothing in a tree is nested deeper than there are openers in the list that it was read off. -/
theorem nesting_le_openers (bs : List Block) :
    ∀ n ∈ partsAll (reading bs), n.nesting ≤ Block.openers bs := by
  induction bs using reading.induct with
  | case1 => simp [reading, partsAll]
  | case2 b bs hk ihBody ihRest =>
    have hregion := Block.openers_le_of_sublist (Family.loop.region_sublist bs)
    have hafter := Block.openers_le_of_sublist (Family.loop.after_sublist bs)
    rw [reading_cons_of_loop hk, forall_mem_partsAll_cons,
      Block.openers_cons_of_isOpener (by rw [hk]; rfl)]
    constructor
    · refine nesting_le_of_mem_parts (fun m hm => ?_) (by simp [partsAll])
      exact Nat.le_trans (ihBody m hm) hregion
    · intro m hm
      have hrest := ihRest m hm
      omega
  | case3 b bs p hk region elses ihBody ihAlternative ihRest =>
    have htake (i : Nat) := Block.openers_le_of_sublist
      ((List.take_sublist i _).trans (Family.branch.region_sublist bs))
    have hdrop (i : Nat) := Block.openers_le_of_sublist
      ((List.drop_sublist i _).trans (Family.branch.region_sublist bs))
    have hafter := Block.openers_le_of_sublist (Family.branch.after_sublist bs)
    rw [reading_cons_of_branch hk, forall_mem_partsAll_cons,
      Block.openers_cons_of_isOpener (by rw [hk]; rfl)]
    constructor
    · refine nesting_le_of_mem_parts (fun m hm => ?_) (fun m hm => ?_)
      · exact Nat.le_trans (ihBody m hm) (htake _)
      · cases he : (Block.ownElses 0 (Family.branch.region bs)).getLast? with
        | none => simp [he, partsAll] at hm
        | some e =>
          rw [he] at hm
          exact Nat.le_trans (ihAlternative e m hm) (hdrop _)
    · intro m hm
      have hrest := ihRest m hm
      omega
  | case4 b bs hk ih | case5 b bs hk ih | case6 b bs hk ih =>
    have hrest := Block.openers_le_of_sublist (List.sublist_cons_self b bs)
    rw [reading_cons_of_isMarker (by rw [hk]; rfl)]
    exact fun m hm => Nat.le_trans (ih m hm) hrest
  | case7 b bs d hk ih | case8 b bs hk ih =>
    have hopener : ¬ b.kind.isOpener := by simp [hk, Kind.isOpener]
    have hmarker : ¬ b.kind.isMarker := by simp [hk, Kind.isMarker]
    have hrest := Block.openers_le_of_sublist (List.sublist_cons_self b bs)
    rw [reading_cons_of_leaf hopener hmarker, forall_mem_partsAll_cons]
    constructor
    · intro m hm
      obtain rfl : m = leaf b := by simpa [leaf, parts, partsAll, partsOtherwise] using hm
      have hleaf : (leaf b).nesting = 0 := nesting_of_not_isOpener hopener
      rw [hleaf]
      exact Nat.zero_le _
    · exact fun m hm => Nat.le_trans (ih m hm) hrest

theorem depth_le_openers {bs : List Block} {n : Node} (hn : n ∈ partsAll (ofBlocks bs)) :
    n.depth ≤ Block.openers bs := by
  rw [ofBlocks_eq] at hn
  rw [depth_eq_nesting]
  exact nesting_le_openers bs n hn

end Node

end BlockPuzzle
