import BlockPuzzle.Proofs.Program.Filing

/-!
# Writing a tree as blocks

A program tree is written as a block list by ending every body with a marker of its own. Blocks that
are written so are balanced: whatever stands around them, counting goes through them as if they were
not there. So every opener finds the end of its own body, and reading gives the tree back.

## Main definitions

* `Node.flatten`, `Node.flattenAll`: the blocks of a tree.
* `Node.Canonical`: a tree as it is read.
* `Block.Balanced`: blocks that counting goes through.

## Main statements

* `Node.Canonical.balanced`: a canonical tree is written as balanced blocks.
* `Node.Canonical.reading_flatten_append`, `Node.canonical_reading`: it is read back, and what is
  read is canonical.
* `Node.ofBlocks_flattenAll`: the round trip, from trees and from block lists.
-/

namespace BlockPuzzle

/-- A block that only marks the end or the middle of a body. -/
def Block.marker (k : Kind) : Block := { id := "", kind := k }

mutual

/-- The blocks of a node, with the markers that end its bodies. -/
def Node.flatten : Node → List Block
  | ⟨b, body, alternative⟩ =>
    match b.kind with
    | .loop => b :: (flattenAll body ++ [.marker .endLoop])
    | .branch _ => b :: (flattenAll body ++ flattenOtherwise alternative ++ [.marker .endBranch])
    | .move _ | .endLoop | .otherwise | .endBranch | .unknown => [b]

def Node.flattenOtherwise : Option (List Node) → List Block
  | none => []
  | some nodes => .marker .otherwise :: flattenAll nodes

/-- The blocks of a list of nodes. -/
def Node.flattenAll : List Node → List Block
  | [] => []
  | n :: ns => n.flatten ++ flattenAll ns

end

/-- A tree in which no marker is a node, only loops and branches have a body, and only branches an
alternative. -/
inductive Node.Canonical : Node → Prop where
  | mk {b : Block} {body : List Node} {alternative : Option (List Node)} :
      ¬ b.kind.isMarker →
      (¬ b.kind.isOpener → body = [] ∧ alternative = none) →
      (b.kind = .loop → alternative = none) →
      (∀ n ∈ body, Canonical n) →
      (∀ ns ∈ alternative, ∀ n ∈ ns, Canonical n) →
      Canonical ⟨b, body, alternative⟩

theorem Node.canonical_iff {b : Block} {body : List Node} {alternative : Option (List Node)} :
    Node.Canonical ⟨b, body, alternative⟩ ↔
      ¬ b.kind.isMarker ∧ (¬ b.kind.isOpener → body = [] ∧ alternative = none) ∧
        (b.kind = .loop → alternative = none) ∧ (∀ n ∈ body, n.Canonical) ∧
        ∀ ns ∈ alternative, ∀ n ∈ ns, n.Canonical := by
  constructor
  · rintro ⟨hmarker, hleaf, hloop, hbody, halternative⟩
    exact ⟨hmarker, hleaf, hloop, hbody, halternative⟩
  · rintro ⟨hmarker, hleaf, hloop, hbody, halternative⟩
    exact .mk hmarker hleaf hloop hbody halternative

/-! ## Blocks that counting goes through -/

namespace Block

/-- Whatever follows, counting goes on behind `xs` with as many openers open as before, and no
`else` in `xs` belongs to a branch that has `least` others open inside it, or more. -/
structure Balanced (least : Nat) (xs : List Block) : Prop where
  closer? : ∀ (f : Family) (depth : Nat) (rest : List Block),
    f.closer? depth (xs ++ rest) = (f.closer? depth rest).map (· + xs.length)
  ownElses : ∀ (depth : Nat) (rest : List Block), least ≤ depth →
    ownElses depth (xs ++ rest) = (ownElses depth rest).map (· + xs.length)

variable {least : Nat} {xs ys : List Block} {b : Block}

theorem balanced_nil (least : Nat) : Balanced least [] where
  closer? f depth rest := by simp
  ownElses depth rest _ := by simp

theorem Balanced.mono (h : Balanced least xs) {more : Nat} (hle : least ≤ more) :
    Balanced more xs where
  closer? := h.closer?
  ownElses depth rest hdepth := h.ownElses depth rest (by omega)

theorem Balanced.append (h : Balanced least xs) (g : Balanced least ys) :
    Balanced least (xs ++ ys) where
  closer? f depth rest := by
    rw [List.append_assoc, h.closer?, g.closer?, Option.map_map]
    congr 1
    funext n
    simp; omega
  ownElses depth rest hdepth := by
    rw [List.append_assoc, h.ownElses _ _ hdepth, g.ownElses _ _ hdepth, List.map_map]
    congr 1
    funext n
    simp; omega

theorem balanced_leaf (hopener : ¬ b.kind.isOpener) (hmarker : ¬ b.kind.isMarker) :
    Balanced 0 [b] where
  closer? f depth rest := by
    cases f <;> cases h : b.kind <;>
      simp_all [Kind.isOpener, Kind.isMarker, Family.closer?, Kind.opens, Kind.closes]
  ownElses depth rest _ := by
    cases h : b.kind <;>
      simp_all [Kind.isOpener, Kind.isMarker, Block.ownElses, Kind.opens, Kind.closes]

theorem balanced_otherwise : Balanced 1 [marker .otherwise] where
  closer? f depth rest := by
    cases f <;> simp [marker, Family.closer?, Kind.opens, Kind.closes]
  ownElses depth rest hdepth := by
    have hne : depth ≠ 0 := by omega
    simp [marker, Block.ownElses, Kind.opens, Kind.closes, hne]

variable {f : Family} {c : Block}

/-- An opener and a closer of its family around a body. In the body of a branch an `else` may belong
to the branch. -/
theorem Balanced.enclose (h : Balanced (if f = .branch then 1 else 0) xs) (hb : b.kind.opens f)
    (hc : c.kind.closes f) : Balanced 0 (b :: (xs ++ [c])) where
  closer? g depth rest := by
    by_cases hg : g = f
    · subst hg
      simp [Family.closer?, hb, hc, Kind.not_opens_of_closes hc, h.closer?, Function.comp_def,
        Nat.add_right_comm, ← Nat.add_assoc]
    · have hbg : ¬ b.kind.opens g := fun hbg => hg (Kind.eq_of_opens hb hbg)
      have hcg : ¬ c.kind.closes g := fun hcg => hg (Kind.eq_of_closes hc hcg)
      simp [Family.closer?, hbg, hcg, Kind.not_closes_of_opens hb, Kind.not_opens_of_closes hc,
        h.closer?, Function.comp_def, Nat.add_right_comm, ← Nat.add_assoc]
  ownElses depth rest _ := by
    cases f with
    | branch =>
      simp [Block.ownElses, hb, hc, Kind.not_opens_of_closes hc, h.ownElses, Function.comp_def,
        Nat.add_right_comm, ← Nat.add_assoc]
    | loop =>
      have hbb : ¬ b.kind.opens .branch := fun hbb => by cases Kind.eq_of_opens hb hbb
      have hcb : ¬ c.kind.closes .branch := fun hcb => by cases Kind.eq_of_closes hc hcb
      simp [Block.ownElses, hbb, hcb, Kind.not_closes_of_opens hb, Kind.not_opens_of_closes hc,
        Kind.ne_otherwise_of_opens hb, Kind.ne_otherwise_of_closes hc, h.ownElses,
        Function.comp_def, Nat.add_right_comm, ← Nat.add_assoc]

/-- The first closer behind balanced blocks is the one that counting finds. -/
theorem Balanced.closer?_eq (h : Balanced least xs) (hc : c.kind.closes f) (rest : List Block) :
    f.closer? 0 (xs ++ c :: rest) = some xs.length := by
  rw [h.closer?, Family.closer?, if_neg (Kind.not_opens_of_closes hc), if_pos hc, if_pos rfl,
    Option.map_some, Nat.zero_add]

theorem Balanced.region_eq (h : Balanced least xs) (hc : c.kind.closes f) (rest : List Block) :
    f.region (xs ++ c :: rest) = xs := by
  rw [Family.region, h.closer?_eq hc, Option.getD_some, List.take_left]

theorem Balanced.after_eq (h : Balanced least xs) (hc : c.kind.closes f) (rest : List Block) :
    f.after (xs ++ c :: rest) = rest := by
  rw [Family.after, h.closer?_eq hc, Option.map_some, Option.getD_some, List.append_cons]
  exact List.drop_left' (by simp)

theorem Balanced.ownElses_eq_nil (h : Balanced 0 xs) : Block.ownElses 0 xs = [] := by
  have hrest := h.ownElses 0 [] (Nat.le_refl 0)
  rwa [List.append_nil, Block.ownElses, List.map_nil] at hrest

/-- The `else` between two balanced bodies is the only one that belongs to the branch around. -/
theorem Balanced.ownElses_eq_singleton (h : Balanced 0 xs) (g : Balanced 0 ys) :
    Block.ownElses 0 (xs ++ marker .otherwise :: ys) = [xs.length] := by
  rw [h.ownElses 0 _ (Nat.le_refl 0)]
  simp [Block.ownElses, marker, Kind.opens, Kind.closes, g.ownElses_eq_nil]

end Block

/-! ## Canonical trees -/

namespace Node

variable {ns : List Node} {n : Node}

theorem balanced_flattenAll (h : ∀ n ∈ ns, Block.Balanced 0 n.flatten) :
    Block.Balanced 0 (flattenAll ns) := by
  induction ns with
  | nil => exact Block.balanced_nil 0
  | cons n ns ih =>
    rw [flattenAll]
    exact (h n (by simp)).append (ih fun m hm => h m (by simp [hm]))

theorem balanced_flattenOtherwise {alternative : Option (List Node)}
    (h : ∀ ns ∈ alternative, ∀ n ∈ ns, Block.Balanced 0 n.flatten) :
    Block.Balanced 1 (flattenOtherwise alternative) := by
  cases alternative with
  | none => exact Block.balanced_nil 1
  | some ns =>
    have hns := balanced_flattenAll (h ns rfl)
    exact Block.balanced_otherwise.append (hns.mono (Nat.zero_le 1))

theorem Canonical.balanced (h : n.Canonical) : Block.Balanced 0 n.flatten := by
  induction h with
  | @mk b body alternative hmarker _ _ _ _ ihBody ihAlternative =>
    have hbody := balanced_flattenAll ihBody
    rw [flatten]
    cases hk : b.kind with
    | loop => exact Block.Balanced.enclose (f := .loop) hbody (by rw [hk]; rfl) rfl
    | branch p =>
      have halternative := balanced_flattenOtherwise ihAlternative
      have hboth := (hbody.mono (Nat.zero_le 1)).append halternative
      exact Block.Balanced.enclose (f := .branch) hboth (by rw [hk]; rfl) rfl
    | move _ | unknown => exact Block.balanced_leaf (by simp [hk, Kind.isOpener]) hmarker
    | endLoop | otherwise | endBranch => simp [hk, Kind.isMarker] at hmarker

theorem reading_flattenAll_append
    (h : ∀ n ∈ ns, ∀ rest, reading (n.flatten ++ rest) = n :: reading rest)
    (rest : List Block) : reading (flattenAll ns ++ rest) = ns ++ reading rest := by
  induction ns with
  | nil => rw [flattenAll, List.nil_append, List.nil_append]
  | cons n ns ih =>
    rw [flattenAll, List.append_assoc, h n (by simp), ih fun m hm => h m (by simp [hm]),
      List.cons_append]

theorem reading_flattenAll (h : ∀ n ∈ ns, ∀ rest, reading (n.flatten ++ rest) = n :: reading rest) :
    reading (flattenAll ns) = ns := by
  have hnil := reading_flattenAll_append h []
  rwa [List.append_nil, reading, List.append_nil] at hnil

theorem Canonical.reading_flatten_append (h : n.Canonical) (rest : List Block) :
    reading (n.flatten ++ rest) = n :: reading rest := by
  induction h generalizing rest with
  | @mk b body alternative hmarker hleaf hloop hbody halternative ihBody ihAlternative =>
    have balancedBody := balanced_flattenAll fun n hn => (hbody n hn).balanced
    have readBody := reading_flattenAll ihBody
    rw [flatten]
    cases hk : b.kind with
    | loop =>
      have hcloses : (Block.marker .endLoop).kind.closes .loop := rfl
      dsimp only
      rw [List.cons_append, List.append_assoc, List.singleton_append, reading_cons_of_loop hk,
        balancedBody.region_eq hcloses, balancedBody.after_eq hcloses, readBody, hloop hk]
    | branch p =>
      have hcloses : (Block.marker .endBranch).kind.closes .branch := rfl
      have balancedOtherwise := balanced_flattenOtherwise fun ns hns n hn =>
        (halternative ns hns n hn).balanced
      have balancedBoth := (balancedBody.mono (Nat.zero_le 1)).append balancedOtherwise
      dsimp only
      rw [List.cons_append, List.append_assoc, List.singleton_append, reading_cons_of_branch hk,
        balancedBoth.region_eq hcloses, balancedBoth.after_eq hcloses]
      cases alternative with
      | none =>
        rw [flattenOtherwise, List.append_nil, balancedBody.ownElses_eq_nil]
        simp [readBody]
      | some ns =>
        have balancedNodes := balanced_flattenAll fun n hn => (halternative ns rfl n hn).balanced
        rw [flattenOtherwise, balancedBody.ownElses_eq_singleton balancedNodes]
        simp [readBody, reading_flattenAll (ihAlternative ns rfl)]
    | move _ | unknown =>
      have hopener : ¬ b.kind.isOpener := by simp [hk, Kind.isOpener]
      obtain ⟨rfl, rfl⟩ := hleaf hopener
      exact reading_cons_of_leaf hopener hmarker
    | endLoop | otherwise | endBranch => simp [hk, Kind.isMarker] at hmarker

theorem canonical_leaf {b : Block} (hmarker : ¬ b.kind.isMarker) : (leaf b).Canonical := by
  refine .mk hmarker (fun _ => ⟨rfl, rfl⟩) (fun _ => rfl) ?_ ?_
  · intro n hn
    cases hn
  · intro ns hns
    cases hns

/-- Whatever is read is canonical. -/
theorem canonical_reading (bs : List Block) : ∀ n ∈ reading bs, n.Canonical := by
  induction bs using reading.induct with
  | case1 => simp [reading]
  | case2 b bs hk ihBody ihRest =>
    rw [reading_cons_of_loop hk, List.forall_mem_cons]
    refine ⟨.mk (by simp [hk, Kind.isMarker]) (by simp [hk, Kind.isOpener]) (fun _ => rfl) ihBody
      ?_, ihRest⟩
    intro ns hns
    cases hns
  | case3 b bs p hk region elses ihBody ihAlternative ihRest =>
    rw [reading_cons_of_branch hk, List.forall_mem_cons]
    refine ⟨.mk (by simp [hk, Kind.isMarker]) (by simp [hk, Kind.isOpener]) (by simp [hk]) ihBody
      ?_, ihRest⟩
    intro ns hns
    obtain ⟨e, -, rfl⟩ := Option.map_eq_some_iff.1 hns
    exact ihAlternative e
  | case4 b bs hk ih | case5 b bs hk ih | case6 b bs hk ih =>
    rwa [reading_cons_of_isMarker (by simp [hk, Kind.isMarker])]
  | case7 b bs d hk ih | case8 b bs hk ih =>
    have hopener : ¬ b.kind.isOpener := by simp [hk, Kind.isOpener]
    have hmarker : ¬ b.kind.isMarker := by simp [hk, Kind.isMarker]
    rw [reading_cons_of_leaf hopener hmarker, List.forall_mem_cons]
    exact ⟨canonical_leaf hmarker, ih⟩

end Node

/-- A canonical tree that is written as blocks is read back, with its identifiers and counts, its
empty bodies and its empty alternatives. What any block list is read as is canonical, and so it is
what its own blocks are read as. -/
theorem Node.ofBlocks_flattenAll :
    (∀ nodes : List Node, (∀ n ∈ nodes, n.Canonical) →
      Node.ofBlocks (Node.flattenAll nodes) = nodes) ∧
      ∀ bs : List Block, (∀ n ∈ Node.ofBlocks bs, n.Canonical) ∧
        Node.ofBlocks (Node.flattenAll (Node.ofBlocks bs)) = Node.ofBlocks bs := by
  have hback (nodes : List Node) (h : ∀ n ∈ nodes, n.Canonical) :
      Node.ofBlocks (Node.flattenAll nodes) = nodes := by
    rw [Node.ofBlocks_eq]
    exact Node.reading_flattenAll fun n hn => (h n hn).reading_flatten_append
  refine ⟨hback, ?_⟩
  intro bs
  have hcanonical : ∀ n ∈ Node.ofBlocks bs, n.Canonical := by
    rw [Node.ofBlocks_eq]
    exact Node.canonical_reading bs
  exact ⟨hcanonical, hback _ hcanonical⟩

/-- A loop around a branch with an empty alternative and one without any. -/
def Node.twoBranches : List Node :=
  [⟨⟨"loop", .loop, some 0⟩,
    [⟨⟨"star", .branch .onStar, none⟩, [.leaf ⟨"jump", .unknown, none⟩], some []⟩,
      ⟨⟨"wall", .branch .wallAhead, some 7⟩, [], none⟩], none⟩]

theorem Node.ofBlocks_flattenAll_twoBranches :
    (∀ n ∈ Node.twoBranches, n.Canonical) ∧
      Node.ofBlocks (Node.flattenAll Node.twoBranches) = Node.twoBranches := by
  have hcanonical : ∀ n ∈ Node.twoBranches, n.Canonical := by
    simp [Node.twoBranches, Node.leaf, Node.canonical_iff, Kind.isMarker, Kind.isOpener]
  exact ⟨hcanonical, Node.ofBlocks_flattenAll.1 Node.twoBranches hcanonical⟩

end BlockPuzzle
