import BlockPuzzle.Game.Session
import BlockPuzzle.Proofs.Program.Flattening

/-!
# Indentation and nesting

An editor indents a block list with one counter for loops and branches. On a list that a tree is
written as, the counter is the level on which each block stands in the tree.

## Main definitions

* `Node.outline`, `Node.outlineAll`: the blocks that a tree is written as, with the level of each.
* `Block.Levelled`: blocks that are indented by their levels, whatever follows.

## Main statements

* `Node.map_fst_outlineAll`: an outline has the blocks of the tree.
* `Node.Canonical.levelled`: a canonical tree is indented by its outline.
* `Session.indent_eq_ok`: the indentation of one block is that in the whole list.
* `Session.indents_outline`: indentation in trees and in sessions.
-/

namespace BlockPuzzle

mutual

/-- The blocks that a node is written as, each with its level: the bodies stand one level below
their opener, and the markers that belong to it on its own level. -/
def Node.outline (level : Nat) : Node → List (Block × Nat)
  | ⟨b, body, alternative⟩ =>
    match b.kind with
    | .loop => (b, level) :: (outlineAll (level + 1) body ++ [(.marker .endLoop, level)])
    | .branch _ =>
      (b, level) :: (outlineAll (level + 1) body ++ outlineOtherwise level alternative ++
        [(.marker .endBranch, level)])
    | .move _ | .endLoop | .otherwise | .endBranch | .unknown => [(b, level)]

def Node.outlineOtherwise (level : Nat) : Option (List Node) → List (Block × Nat)
  | none => []
  | some nodes => (.marker .otherwise, level) :: outlineAll (level + 1) nodes

/-- The outline of nodes that stand on the same level. -/
def Node.outlineAll (level : Nat) : List Node → List (Block × Nat)
  | [] => []
  | n :: ns => n.outline level ++ outlineAll level ns

end

namespace Node

mutual

theorem map_fst_outline : (level : Nat) → (n : Node) → (n.outline level).map Prod.fst = n.flatten
  | level, ⟨b, body, alternative⟩ => by
    have hbody := map_fst_outlineAll (level + 1) body
    have halternative := map_fst_outlineOtherwise level alternative
    rw [outline, flatten]
    cases b.kind <;> simp [hbody, halternative]

theorem map_fst_outlineOtherwise : (level : Nat) → (alternative : Option (List Node)) →
    (outlineOtherwise level alternative).map Prod.fst = flattenOtherwise alternative
  | _, none => rfl
  | level, some nodes => by
    rw [outlineOtherwise, flattenOtherwise, List.map_cons, map_fst_outlineAll (level + 1) nodes]

theorem map_fst_outlineAll : (level : Nat) → (ns : List Node) →
    (outlineAll level ns).map Prod.fst = flattenAll ns
  | _, [] => rfl
  | level, n :: ns => by
    rw [outlineAll, flattenAll, List.map_append, map_fst_outline level n,
      map_fst_outlineAll level ns]

end

end Node

/-! ## Blocks indented by their levels -/

namespace Block

/-- From `depth` on the blocks are indented by the levels that stand beside them, and what follows
them begins at `depth` again. -/
def Levelled (depth : Nat) (os : List (Block × Nat)) : Prop :=
  ∀ rest, indentsFrom depth (os.map Prod.fst ++ rest) = os.map Prod.snd ++ indentsFrom depth rest

variable {depth : Nat} {os us : List (Block × Nat)} {b c : Block}

theorem levelled_nil (depth : Nat) : Levelled depth [] := fun _ => rfl

theorem Levelled.append (h : Levelled depth os) (g : Levelled depth us) :
    Levelled depth (os ++ us) := by
  intro rest
  rw [List.map_append, List.append_assoc, h, g, List.map_append, List.append_assoc]

theorem levelled_leaf (hopener : ¬ b.kind.isOpener) (hmarker : ¬ b.kind.isMarker) (depth : Nat) :
    Levelled depth [(b, depth)] := by
  intro rest
  cases hk : b.kind <;>
    simp_all [Kind.isOpener, Kind.isMarker, indentsFrom, shownAt, depthAfter]

theorem levelled_otherwise (depth : Nat) : Levelled (depth + 1) [(marker .otherwise, depth)] := by
  intro rest
  simp [indentsFrom, shownAt, depthAfter, marker, Kind.isMarker]

/-- The two ends of a body stand one level out from it. -/
theorem Levelled.enclose (h : Levelled (depth + 1) os) (hb : b.kind.isOpener) {f : Family}
    (hc : c.kind.closes f) : Levelled depth ((b, depth) :: (os ++ [(c, depth)])) := by
  intro rest
  have hopen : b.shownAt depth = depth ∧ b.depthAfter depth = depth + 1 := by
    cases hk : b.kind <;> simp_all [Kind.isOpener, Kind.isMarker, shownAt, depthAfter]
  have hclose : c.shownAt (depth + 1) = depth ∧ c.depthAfter (depth + 1) = depth := by
    cases f <;> cases hk : c.kind <;> simp_all [Kind.closes, Kind.isMarker, shownAt, depthAfter]
  have hinside := h (c :: rest)
  simp [indentsFrom, hopen, hclose, hinside]

end Block

namespace Node

variable {n : Node} {ns : List Node} {level : Nat}

theorem levelled_outlineAll (h : ∀ n ∈ ns, Block.Levelled level (n.outline level)) :
    Block.Levelled level (outlineAll level ns) := by
  induction ns with
  | nil => exact Block.levelled_nil level
  | cons n ns ih =>
    rw [List.forall_mem_cons] at h
    exact h.1.append (ih h.2)

theorem levelled_outlineOtherwise {alternative : Option (List Node)}
    (h : ∀ ns ∈ alternative, ∀ n ∈ ns, Block.Levelled (level + 1) (n.outline (level + 1))) :
    Block.Levelled (level + 1) (outlineOtherwise level alternative) := by
  cases alternative with
  | none => exact Block.levelled_nil (level + 1)
  | some ns => exact (Block.levelled_otherwise level).append (levelled_outlineAll (h ns rfl))

theorem Canonical.levelled (h : n.Canonical) (level : Nat) :
    Block.Levelled level (n.outline level) := by
  induction h generalizing level with
  | @mk b body alternative hmarker _ _ _ _ ihBody ihAlternative =>
    have hbody := levelled_outlineAll fun n hn => ihBody n hn (level + 1)
    rw [outline]
    cases hk : b.kind with
    | loop => exact hbody.enclose (f := .loop) (by simp [hk, Kind.isOpener]) rfl
    | branch p =>
      have halternative := levelled_outlineOtherwise fun ns hns n hn =>
        ihAlternative ns hns n hn (level + 1)
      exact (hbody.append halternative).enclose (f := .branch) (by simp [hk, Kind.isOpener]) rfl
    | move _ | unknown => exact Block.levelled_leaf (by simp [hk, Kind.isOpener]) hmarker level
    | endLoop | otherwise | endBranch => simp [hk, Kind.isMarker] at hmarker

theorem map_snd_outlineAll (h : ∀ n ∈ ns, n.Canonical) :
    (outlineAll 0 ns).map Prod.snd = Block.indents (flattenAll ns) := by
  have hlevelled := levelled_outlineAll fun n hn => (h n hn).levelled 0
  have hall := hlevelled []
  rw [map_fst_outlineAll, List.append_nil, Block.indentsFrom, List.append_nil] at hall
  exact hall.symm

end Node

/-! ## One block of a list -/

theorem Block.indentsFrom_take (depth k : Nat) (bs : List Block) :
    indentsFrom depth (bs.take k) = (indentsFrom depth bs).take k := by
  induction bs generalizing depth k with
  | nil => simp [indentsFrom]
  | cons b bs ih => cases k <;> simp [indentsFrom, ih]

/-- What follows a block does not change how it is indented. -/
theorem Session.indent_eq_ok {s : Session} {i level : Nat} :
    s.indent i = .ok level ↔ s.indents[i]? = some level := by
  rw [indent, blockAt, indents]
  cases hb : s.blocks[i]? with
  | none =>
    have hnone : (Block.indents s.blocks)[i]? = none := by simpa using hb
    simp [hnone, bind, Except.bind]
  | some b =>
    obtain ⟨hi, -⟩ := List.getElem?_eq_some_iff.1 hb
    simp [bind, Except.bind, pure, Except.pure, Block.indents, Block.indentsFrom_take, hi]

/-- A canonical tree is written as the blocks of its outline, and they are indented by their levels
in it. In every session each block is indented alone as it is in the whole list. -/
theorem Session.indents_outline :
    (∀ nodes : List Node, (∀ n ∈ nodes, n.Canonical) →
      (Node.outlineAll 0 nodes).map Prod.fst = Node.flattenAll nodes ∧
        (Node.outlineAll 0 nodes).map Prod.snd = Block.indents (Node.flattenAll nodes)) ∧
      ∀ (s : Session) (i : Nat), i < s.blocks.length →
        ∃ level, s.indent i = .ok level ∧ s.indents[i]? = some level := by
  refine ⟨fun nodes h => ⟨Node.map_fst_outlineAll 0 nodes, Node.map_snd_outlineAll h⟩, ?_⟩
  intro s i hi
  have hlt : i < s.indents.length := by simpa [indents] using hi
  exact ⟨s.indents[i], indent_eq_ok.2 (List.getElem?_eq_getElem hlt), List.getElem?_eq_getElem hlt⟩

/-- A loop in the alternative of a branch, behind a body without blocks. -/
def Node.loopOtherwise : List Node :=
  [⟨⟨"star", .branch .onStar, none⟩, [],
    some [⟨⟨"loop", .loop, some 3⟩, [.leaf ⟨"up", .move .up, none⟩], none⟩]⟩,
    .leaf ⟨"jump", .unknown, none⟩]

def Session.loopOtherwise : Session :=
  { level := Sandbox.level ⟨[]⟩, blocks := Node.flattenAll Node.loopOtherwise }

theorem Session.indents_outline_loopOtherwise :
    (∀ n ∈ Node.loopOtherwise, n.Canonical) ∧ loopOtherwise.indents = [0, 0, 1, 2, 1, 0, 0] ∧
      3 < loopOtherwise.blocks.length ∧ loopOtherwise.indent 3 = .ok 2 := by
  have hcanonical : ∀ n ∈ Node.loopOtherwise, n.Canonical := by
    simp [Node.loopOtherwise, Node.leaf, Node.canonical_iff, Kind.isMarker, Kind.isOpener]
  have hlt : 3 < loopOtherwise.blocks.length := by decide
  obtain ⟨htree, hsession⟩ := indents_outline
  obtain ⟨-, hlevels⟩ := htree Node.loopOtherwise hcanonical
  have hindents : loopOtherwise.indents = [0, 0, 1, 2, 1, 0, 0] := by
    rw [indents, loopOtherwise, ← hlevels]
    decide
  obtain ⟨level, hlevel, hat⟩ := hsession loopOtherwise 3 hlt
  rw [hindents] at hat
  obtain rfl : 2 = level := Option.some.inj hat
  exact ⟨hcanonical, hindents, hlt, hlevel⟩

end BlockPuzzle
