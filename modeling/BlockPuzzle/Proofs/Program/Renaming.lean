import BlockPuzzle.Proofs.Program.Filing

/-!
# Programs with other blocks in place

Which blocks belong together depends only on what each of them opens, closes or parts. Blocks may
therefore be replaced one by one, and their moves turned, before or after the tree is made.

## Main definitions

* `Kind.turned`: the kind of a block whose moves go in other directions.
* `Node.map`, `Node.mapAll`: a tree with a function applied to every block of it.

## Main statements

* `Node.reading_map`, `Node.ofBlocks_map`: the tree of the new blocks is the old tree with the
  blocks replaced.
-/

namespace BlockPuzzle

/-- The kind with its move, if it is one, turned. -/
def Kind.turned (turn : Direction → Direction) : Kind → Kind
  | .move d => .move (turn d)
  | k => k

namespace Kind

variable {turn : Direction → Direction} {k : Kind} {f : Family}

@[simp] theorem isOpener_turned : (k.turned turn).isOpener = k.isOpener := by
  cases k <;> rfl

@[simp] theorem isMarker_turned : (k.turned turn).isMarker = k.isMarker := by
  cases k <;> rfl

@[simp] theorem opens_turned : (k.turned turn).opens f = k.opens f := by
  cases k <;> rfl

@[simp] theorem closes_turned : (k.turned turn).closes f = k.closes f := by
  cases k <;> rfl

@[simp] theorem turned_eq_otherwise : k.turned turn = .otherwise ↔ k = .otherwise := by
  cases k <;> simp [turned]

@[simp] theorem turned_id : k.turned id = k := by cases k <;> rfl

end Kind

mutual

/-- The node with `f` applied to its block and to every block inside. -/
def Node.map (f : Block → Block) : Node → Node
  | ⟨b, body, alternative⟩ => ⟨f b, mapAll f body, mapOtherwise f alternative⟩

def Node.mapOtherwise (f : Block → Block) : Option (List Node) → Option (List Node)
  | none => none
  | some nodes => some (mapAll f nodes)

def Node.mapAll (f : Block → Block) : List Node → List Node
  | [] => []
  | n :: ns => n.map f :: mapAll f ns

end

theorem Node.mapOtherwise_eq (f : Block → Block) (alternative : Option (List Node)) :
    mapOtherwise f alternative = alternative.map (mapAll f) := by
  cases alternative <;> rfl

theorem Node.mapAll_eq (f : Block → Block) (ns : List Node) : mapAll f ns = ns.map (map f) := by
  induction ns with
  | nil => rfl
  | cons n ns ih => simp [mapAll, ih]

section

variable {turn : Direction → Direction} {f : Block → Block}
  (hf : ∀ b, (f b).kind = b.kind.turned turn)

include hf

theorem Family.closer?_map (g : Family) (depth : Nat) (bs : List Block) :
    g.closer? depth (bs.map f) = g.closer? depth bs := by
  induction bs generalizing depth with
  | nil => rfl
  | cons b bs ih => simp [closer?, hf, ih]

theorem Block.ownElses_map (depth : Nat) (bs : List Block) :
    ownElses depth (bs.map f) = ownElses depth bs := by
  induction bs generalizing depth with
  | nil => rfl
  | cons b bs ih => simp [ownElses, hf, ih]

theorem Family.region_map (g : Family) (bs : List Block) :
    g.region (bs.map f) = (g.region bs).map f := by
  simp [region, closer?_map hf]

theorem Family.after_map (g : Family) (bs : List Block) :
    g.after (bs.map f) = (g.after bs).map f := by
  simp [after, closer?_map hf]

/-- Reading goes through the same regions, whatever the blocks in them are called. -/
theorem Node.reading_map (bs : List Block) : reading (bs.map f) = mapAll f (reading bs) := by
  induction bs using reading.induct with
  | case1 => simp [reading, mapAll]
  | case2 b bs hk ihBody ihRest =>
    have hk' : (f b).kind = .loop := by rw [hf, hk]; rfl
    rw [List.map_cons, reading_cons_of_loop hk, reading_cons_of_loop hk', Family.region_map hf,
      Family.after_map hf, ihBody, ihRest]
    rfl
  | case3 b bs p hk region elses ihBody ihAlternative ihRest =>
    have hk' : (f b).kind = .branch p := by rw [hf, hk]; rfl
    rw [List.map_cons, reading_cons_of_branch hk, reading_cons_of_branch hk',
      Family.region_map hf, Family.after_map hf, Block.ownElses_map hf, ihRest]
    simp only [← List.map_take, ← List.map_drop, List.length_map, mapAll, map, mapOtherwise_eq,
      Option.map_map, Function.comp_def]
    simp only [region, elses] at ihBody ihAlternative
    rw [ihBody]
    simp only [ihAlternative]
  | case4 b bs hk ih | case5 b bs hk ih | case6 b bs hk ih =>
    have hmarker : b.kind.isMarker := by rw [hk]; rfl
    rw [List.map_cons, reading_cons_of_isMarker hmarker, reading_cons_of_isMarker, ih]
    simpa [hf] using hmarker
  | case7 b bs d hk ih | case8 b bs hk ih =>
    have hopener : ¬ b.kind.isOpener := by simp [hk, Kind.isOpener]
    have hmarker : ¬ b.kind.isMarker := by simp [hk, Kind.isMarker]
    rw [List.map_cons, reading_cons_of_leaf hopener hmarker, reading_cons_of_leaf, ih, mapAll]
    · rfl
    · simpa [hf] using hopener
    · simpa [hf] using hmarker

/-- The tree of the new blocks is the tree of the old ones with every block replaced. -/
theorem Node.ofBlocks_map (bs : List Block) : ofBlocks (bs.map f) = mapAll f (ofBlocks bs) := by
  rw [ofBlocks_eq, ofBlocks_eq, reading_map hf]

end

end BlockPuzzle
