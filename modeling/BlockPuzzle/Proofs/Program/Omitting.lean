import BlockPuzzle.Proofs.Program.Filing

/-!
# Programs with blocks left out

A block that neither opens, parts nor closes anything may be left out of a program before or after
the tree is made. Leaving it out moves all blocks behind it, so that every position that a scan
comes to is counted anew in what is left.

## Main definitions

* `Block.rank`: a position, counted in the blocks that are kept.
* `Node.filter`, `Node.filterAll`: a tree with the leaves left out that are not kept.

## Main statements

* `Node.reading_filter`, `Node.ofBlocks_filter`: the tree of the blocks that are kept is the whole
  tree with the others left out.
-/

namespace BlockPuzzle

/-! ## Positions in what is kept -/

namespace Block

variable {keep : Block → Bool} {bs : List Block} {b : Block} {i : Nat}

/-- The position `i`, counted in the blocks that are kept. -/
def rank (keep : Block → Bool) (bs : List Block) (i : Nat) : Nat := (bs.take i).countP keep

@[simp] theorem rank_zero : rank keep bs 0 = 0 := rfl

theorem rank_cons_of_keep (h : keep b) : rank keep (b :: bs) (i + 1) = rank keep bs i + 1 := by
  simp [rank, h]

theorem rank_cons_of_not_keep (h : ¬ keep b) : rank keep (b :: bs) (i + 1) = rank keep bs i := by
  simp [rank, h]

@[simp] theorem rank_length (keep : Block → Bool) (bs : List Block) :
    rank keep bs bs.length = (bs.filter keep).length := by
  simp [rank, List.countP_eq_length_filter]

theorem rank_succ (hb : bs[i]? = some b) (h : keep b) :
    rank keep bs (i + 1) = rank keep bs i + 1 := by
  simp [rank, List.take_add_one, hb, h]

theorem take_rank (keep : Block → Bool) (bs : List Block) (i : Nat) :
    (bs.filter keep).take (rank keep bs i) = (bs.take i).filter keep := by
  have htake : ((bs.take i).filter keep ++ (bs.drop i).filter keep).take
      ((bs.take i).filter keep).length = (bs.take i).filter keep := List.take_left
  rwa [← List.filter_append, List.take_append_drop, ← List.countP_eq_length_filter] at htake

theorem drop_rank (keep : Block → Bool) (bs : List Block) (i : Nat) :
    (bs.filter keep).drop (rank keep bs i) = (bs.drop i).filter keep := by
  have hdrop : ((bs.take i).filter keep ++ (bs.drop i).filter keep).drop
      ((bs.take i).filter keep).length = (bs.drop i).filter keep := List.drop_left
  rwa [← List.filter_append, List.take_append_drop, ← List.countP_eq_length_filter] at hdrop

end Block

/-! ## Trees -/

mutual

/-- The node with the leaves inside left out that are not kept. -/
def Node.filter (keep : Block → Bool) : Node → Node
  | ⟨b, body, alternative⟩ => ⟨b, filterAll keep body, filterOtherwise keep alternative⟩

def Node.filterOtherwise (keep : Block → Bool) : Option (List Node) → Option (List Node)
  | none => none
  | some nodes => some (filterAll keep nodes)

def Node.filterAll (keep : Block → Bool) : List Node → List Node
  | [] => []
  | n :: ns => if keep n.block then n.filter keep :: filterAll keep ns else filterAll keep ns

end

theorem Node.filterOtherwise_eq (keep : Block → Bool) (alternative : Option (List Node)) :
    filterOtherwise keep alternative = alternative.map (filterAll keep) := by
  cases alternative <;> rfl

theorem Node.filterAll_cons_of_keep {keep : Block → Bool} {n : Node} {ns : List Node}
    (h : keep n.block) : filterAll keep (n :: ns) = n.filter keep :: filterAll keep ns := by
  rw [filterAll, if_pos h]

theorem Node.filterAll_cons_of_not_keep {keep : Block → Bool} {n : Node} {ns : List Node}
    (h : ¬ keep n.block) : filterAll keep (n :: ns) = filterAll keep ns := by
  rw [filterAll, if_neg h]

section

variable {keep : Block → Bool} {b : Block}
  (hkeep : ∀ b : Block, ¬ keep b → ¬ b.kind.isOpener ∧ ¬ b.kind.isMarker)

include hkeep

theorem Block.keep_of_isOpener (h : b.kind.isOpener) : keep b := by grind

theorem Block.keep_of_isMarker (h : b.kind.isMarker) : keep b := by grind

theorem Block.keep_of_opens {f : Family} (h : b.kind.opens f) : keep b := by
  refine keep_of_isOpener hkeep ?_
  cases f <;> cases hk : b.kind <;> simp_all [Kind.opens, Kind.isOpener]

theorem Block.keep_of_closes {f : Family} (h : b.kind.closes f) : keep b := by
  refine keep_of_isMarker hkeep ?_
  cases f <;> cases hk : b.kind <;> simp_all [Kind.closes, Kind.isMarker]

/-- What is left out neither opens nor closes, so that the same closer is found. -/
theorem Family.closer?_filter (f : Family) (depth : Nat) (bs : List Block) :
    f.closer? depth (bs.filter keep) = (f.closer? depth bs).map (Block.rank keep bs) := by
  induction bs generalizing depth with
  | nil => rfl
  | cons b bs ih =>
    by_cases hb : keep b
    · have hrank : Block.rank keep (b :: bs) ∘ (· + 1) = (· + 1) ∘ Block.rank keep bs :=
        funext fun _ => Block.rank_cons_of_keep hb
      simp only [List.filter_cons_of_pos hb, closer?, ih, Option.map_map, hrank, Option.map_some,
        Block.rank_zero, apply_ite (Option.map (Block.rank keep (b :: bs)))]
    · have hopens : ¬ b.kind.opens f := fun h => hb (Block.keep_of_opens hkeep h)
      have hcloses : ¬ b.kind.closes f := fun h => hb (Block.keep_of_closes hkeep h)
      have hrank : Block.rank keep (b :: bs) ∘ (· + 1) = Block.rank keep bs :=
        funext fun _ => Block.rank_cons_of_not_keep hb
      simp only [List.filter_cons_of_neg hb, closer?, if_neg hopens, if_neg hcloses, ih,
        Option.map_map, hrank]

theorem Block.ownElses_filter (depth : Nat) (bs : List Block) :
    ownElses depth (bs.filter keep) = (ownElses depth bs).map (rank keep bs) := by
  induction bs generalizing depth with
  | nil => rfl
  | cons b bs ih =>
    by_cases hb : keep b
    · have hrank : rank keep (b :: bs) ∘ (· + 1) = (· + 1) ∘ rank keep bs :=
        funext fun _ => rank_cons_of_keep hb
      simp only [List.filter_cons_of_pos hb, ownElses, ih, List.map_map, hrank, List.map_cons,
        List.map_nil, rank_zero, apply_ite (List.map (rank keep (b :: bs)))]
    · have hopens : ¬ b.kind.opens .branch := fun h => hb (keep_of_opens hkeep h)
      have hcloses : ¬ b.kind.closes .branch := fun h => hb (keep_of_closes hkeep h)
      have helse : b.kind ≠ .otherwise := fun h => hb (keep_of_isMarker hkeep (by rw [h]; rfl))
      have hrank : rank keep (b :: bs) ∘ (· + 1) = rank keep bs :=
        funext fun _ => rank_cons_of_not_keep hb
      simp only [List.filter_cons_of_neg hb, ownElses, if_neg hopens, if_neg hcloses, helse,
        false_and, if_false, ih, List.map_map, hrank]

theorem Family.region_filter (f : Family) (bs : List Block) :
    f.region (bs.filter keep) = (f.region bs).filter keep := by
  rw [region, closer?_filter hkeep, ← Block.rank_length, Option.getD_map, Block.take_rank, region]

theorem Family.after_filter (f : Family) (bs : List Block) :
    f.after (bs.filter keep) = (f.after bs).filter keep := by
  rw [after, after, closer?_filter hkeep, ← Block.drop_rank]
  cases h : f.closer? 0 bs with
  | none => simp
  | some j =>
    obtain ⟨c, hc, hcloses⟩ := closes_of_closer? h
    simp [Block.rank_succ hc (Block.keep_of_closes hkeep hcloses)]

theorem Block.body_filter (region : List Block) :
    (region.filter keep).take ((ownElses 0 (region.filter keep)).head?.getD
        (region.filter keep).length) =
      (region.take ((ownElses 0 region).head?.getD region.length)).filter keep := by
  rw [ownElses_filter hkeep, List.head?_map, ← rank_length, Option.getD_map, take_rank]

theorem Block.drop_else_filter {region : List Block} {e : Nat} (he : e ∈ ownElses 0 region) :
    (region.filter keep).drop (rank keep region e + 1) = (region.drop (e + 1)).filter keep := by
  obtain ⟨c, hc, helse⟩ := kind_of_mem_ownElses he
  rw [← drop_rank, rank_succ hc (keep_of_isMarker hkeep (by rw [helse]; rfl))]

/-- Reading goes through the same regions, with what is left out missing in each. -/
theorem Node.reading_filter (bs : List Block) :
    reading (bs.filter keep) = filterAll keep (reading bs) := by
  induction bs using reading.induct with
  | case1 => simp [reading, filterAll]
  | case2 b bs hk ihBody ihRest =>
    have hb : keep b := Block.keep_of_isOpener hkeep (by rw [hk]; rfl)
    rw [List.filter_cons_of_pos hb, reading_cons_of_loop hk, reading_cons_of_loop hk,
      Family.region_filter hkeep, Family.after_filter hkeep, ihBody, ihRest,
      filterAll_cons_of_keep hb]
    rfl
  | case3 b bs p hk region elses ihBody ihAlternative ihRest =>
    have hb : keep b := Block.keep_of_isOpener hkeep (by rw [hk]; rfl)
    rw [List.filter_cons_of_pos hb, reading_cons_of_branch hk, reading_cons_of_branch hk,
      Family.region_filter hkeep, Family.after_filter hkeep, Block.body_filter hkeep, ihBody,
      ihRest, filterAll_cons_of_keep hb, filter, filterOtherwise_eq, Block.ownElses_filter hkeep,
      List.getLast?_map, Option.map_map, Option.map_map]
    congr 2
    refine Option.map_congr fun e he => ?_
    have hmem : e ∈ Block.ownElses 0 (Family.branch.region bs) := List.mem_of_getLast? he
    simp only [Function.comp_apply, Block.drop_else_filter hkeep hmem]
    exact ihAlternative e
  | case4 b bs hk ih | case5 b bs hk ih | case6 b bs hk ih =>
    have hmarker : b.kind.isMarker := by rw [hk]; rfl
    rw [List.filter_cons_of_pos (Block.keep_of_isMarker hkeep hmarker),
      reading_cons_of_isMarker hmarker, reading_cons_of_isMarker hmarker, ih]
  | case7 b bs d hk ih | case8 b bs hk ih =>
    have hopener : ¬ b.kind.isOpener := by simp [hk, Kind.isOpener]
    have hmarker : ¬ b.kind.isMarker := by simp [hk, Kind.isMarker]
    rw [reading_cons_of_leaf hopener hmarker]
    by_cases hb : keep b
    · rw [List.filter_cons_of_pos hb, reading_cons_of_leaf hopener hmarker, ih]
      exact (filterAll_cons_of_keep (n := leaf b) hb).symm
    · rw [List.filter_cons_of_neg hb, ih]
      exact (filterAll_cons_of_not_keep (n := leaf b) hb).symm

/-- The tree of the blocks that are kept is the whole tree with the others left out. -/
theorem Node.ofBlocks_filter (bs : List Block) :
    ofBlocks (bs.filter keep) = filterAll keep (ofBlocks bs) := by
  rw [ofBlocks_eq, ofBlocks_eq, reading_filter hkeep]

end

end BlockPuzzle
