import BlockPuzzle.Proofs.Program.Reading

/-!
# The blocks that reading visits

Reading goes through a region from left to right and skips markers, and of a branch with several
`else` blocks of its own it skips what lies between the first and the last of them. What it does not
skip is written down here by its position, so that equal blocks at different places stay apart.

## Main definitions

* `Visit`, `Block.visits`: the blocks that are kept, each with the end of the region around it.
* `Block.kept`: their positions.
* `Visit.elses`, `Visit.Skips`: the own `else` blocks of a branch that is kept, and what lies
  between them.

## Main statements

* `Block.visits_congr`: the visits depend on the kinds of the blocks alone.
-/

namespace BlockPuzzle

/-- A block that reading keeps: its position, and the first one behind the region around it. -/
structure Visit where
  pos : Nat
  stop : Nat
  deriving DecidableEq, Repr

/-- What is kept of a region that begins at position `s`, in the order in which it is read. -/
def Block.visits : Nat → List Block → List Visit
  | _, [] => []
  | s, b :: bs =>
    let here : Visit := ⟨s, s + 1 + bs.length⟩
    match b.kind with
    | .loop =>
      here :: (visits (s + 1) (Family.loop.region bs) ++
        visits (s + 1 + (bs.length - (Family.loop.after bs).length)) (Family.loop.after bs))
    | .branch _ =>
      let region := Family.branch.region bs
      let elses := Block.ownElses 0 region
      here :: (visits (s + 1) (region.take (elses.head?.getD region.length)) ++
        ((elses.getLast?.map fun e => visits (s + 1 + (e + 1)) (region.drop (e + 1))).getD [] ++
          visits (s + 1 + (bs.length - (Family.branch.after bs).length)) (Family.branch.after bs)))
    | .endLoop | .otherwise | .endBranch => visits (s + 1) bs
    | .move _ | .unknown => here :: visits (s + 1) bs
termination_by _ bs => bs.length
decreasing_by
  all_goals
    have hregion := fun f => Family.length_region_le f bs
    have hafter := fun f => Family.length_after_le f bs
    simp only [List.length_cons, List.length_take, List.length_drop]
  · exact Nat.lt_succ_of_le (hregion .loop)
  · exact Nat.lt_succ_of_le (hafter .loop)
  · have := hregion .branch; omega
  · have := hregion .branch; omega
  · exact Nat.lt_succ_of_le (hafter .branch)
  all_goals omega

namespace Visit

/-- Where the own `else` blocks of a branch stand, up to the end of its region. No other block has
any. -/
def elses (bs : List Block) (v : Visit) : List Nat :=
  if (bs[v.pos]?).any (·.kind.opens .branch) then
    (Block.ownElses 0 (Family.branch.region (Block.between bs (v.pos + 1) v.stop))).map
      (· + (v.pos + 1))
  else []

/-- Position `i` stands strictly between the first own `else` and the last one. -/
def Skips (bs : List Block) (v : Visit) (i : Nat) : Prop :=
  ∃ first last, (v.elses bs).head? = some first ∧ (v.elses bs).getLast? = some last ∧
    first < i ∧ i < last

end Visit

/-- The positions that reading a program keeps. -/
def Block.kept (bs : List Block) : List Nat := (visits 0 bs).map Visit.pos

namespace Block

variable {bs : List Block} {b : Block} {s : Nat}

theorem visits_cons_of_loop (h : b.kind = .loop) : visits s (b :: bs) =
    ⟨s, s + 1 + bs.length⟩ :: (visits (s + 1) (Family.loop.region bs) ++
      visits (s + 1 + (bs.length - (Family.loop.after bs).length)) (Family.loop.after bs)) := by
  rw [visits, h]

theorem visits_cons_of_branch {p : Predicate} (h : b.kind = .branch p) : visits s (b :: bs) =
    ⟨s, s + 1 + bs.length⟩ ::
      (visits (s + 1) ((Family.branch.region bs).take
        ((ownElses 0 (Family.branch.region bs)).head?.getD (Family.branch.region bs).length)) ++
      (((ownElses 0 (Family.branch.region bs)).getLast?.map fun e =>
          visits (s + 1 + (e + 1)) ((Family.branch.region bs).drop (e + 1))).getD [] ++
        visits (s + 1 + (bs.length - (Family.branch.after bs).length))
          (Family.branch.after bs))) := by
  rw [visits, h]

theorem visits_cons_of_isMarker (h : b.kind.isMarker) : visits s (b :: bs) = visits (s + 1) bs := by
  rw [visits]
  cases hk : b.kind <;> simp_all [Kind.isMarker]

theorem visits_cons_of_leaf (hopener : ¬ b.kind.isOpener) (hmarker : ¬ b.kind.isMarker) :
    visits s (b :: bs) = ⟨s, s + 1 + bs.length⟩ :: visits (s + 1) bs := by
  rw [visits]
  cases hk : b.kind <;> simp_all [Kind.isMarker, Kind.isOpener]

end Block

/-! ## Blocks of the same kinds

The same positions are visited whatever the blocks are called. -/

section

variable {bs cs : List Block}

theorem exists_cons_of_kinds {b : Block} (h : (b :: bs).map Block.kind = cs.map Block.kind) :
    ∃ c cs', cs = c :: cs' ∧ b.kind = c.kind ∧ bs.map Block.kind = cs'.map Block.kind := by
  cases cs with
  | nil => cases h
  | cons c cs =>
    obtain ⟨hkind, hkinds⟩ := List.cons.inj h
    exact ⟨c, cs, rfl, hkind, hkinds⟩

theorem length_eq_of_kinds (h : bs.map Block.kind = cs.map Block.kind) : bs.length = cs.length := by
  simpa using congrArg List.length h

theorem Family.closer?_congr (f : Family) (depth : Nat)
    (h : bs.map Block.kind = cs.map Block.kind) : f.closer? depth bs = f.closer? depth cs := by
  induction bs generalizing depth cs with
  | nil =>
    obtain rfl : cs = [] := by simpa using h.symm
    rfl
  | cons b bs ih =>
    obtain ⟨c, cs, rfl, hkind, hkinds⟩ := exists_cons_of_kinds h
    simp only [closer?, hkind, ih _ hkinds]

theorem Block.ownElses_congr (depth : Nat) (h : bs.map Block.kind = cs.map Block.kind) :
    ownElses depth bs = ownElses depth cs := by
  induction bs generalizing depth cs with
  | nil =>
    obtain rfl : cs = [] := by simpa using h.symm
    rfl
  | cons b bs ih =>
    obtain ⟨c, cs, rfl, hkind, hkinds⟩ := exists_cons_of_kinds h
    simp only [ownElses, hkind, ih _ hkinds]

theorem Family.map_kind_region (f : Family) (h : bs.map Block.kind = cs.map Block.kind) :
    (f.region bs).map Block.kind = (f.region cs).map Block.kind := by
  rw [region, region, List.map_take, List.map_take, h, f.closer?_congr 0 h, length_eq_of_kinds h]

theorem Family.map_kind_after (f : Family) (h : bs.map Block.kind = cs.map Block.kind) :
    (f.after bs).map Block.kind = (f.after cs).map Block.kind := by
  rw [after, after, List.map_drop, List.map_drop, h, f.closer?_congr 0 h, length_eq_of_kinds h]

theorem Block.visits_congr (s : Nat) (bs : List Block) :
    ∀ cs, bs.map Block.kind = cs.map Block.kind → visits s bs = visits s cs := by
  induction s, bs using visits.induct with
  | case1 s =>
    intro cs h
    obtain rfl : cs = [] := by simpa using h.symm
    rfl
  | case2 s b bs hk ihBody ihRest =>
    intro cs h
    obtain ⟨c, cs, rfl, hkind, hkinds⟩ := exists_cons_of_kinds h
    have hrest := Family.loop.map_kind_after hkinds
    rw [visits_cons_of_loop hk, visits_cons_of_loop (hkind ▸ hk),
      ihBody _ (Family.loop.map_kind_region hkinds), ihRest _ hrest, length_eq_of_kinds hkinds,
      length_eq_of_kinds hrest]
  | case3 s b bs p hk region elses ihBody ihAlternative ihRest =>
    intro cs h
    obtain ⟨c, cs, rfl, hkind, hkinds⟩ := exists_cons_of_kinds h
    have hregion : region.map Block.kind = (Family.branch.region cs).map Block.kind :=
      Family.branch.map_kind_region hkinds
    have hrest := Family.branch.map_kind_after hkinds
    have hbody := ihBody ((Family.branch.region cs).take (elses.head?.getD region.length))
      (by rw [List.map_take, List.map_take, hregion])
    have halternative (e : Nat) := ihAlternative e ((Family.branch.region cs).drop (e + 1))
      (by rw [List.map_drop, List.map_drop, hregion])
    simp only [region, elses] at hregion hbody halternative
    rw [visits_cons_of_branch hk, visits_cons_of_branch (hkind ▸ hk),
      ← Block.ownElses_congr 0 hregion, ← length_eq_of_kinds hregion, hbody, ihRest _ hrest,
      length_eq_of_kinds hkinds, length_eq_of_kinds hrest]
    simp only [halternative]
  | case4 s b bs hk ih | case5 s b bs hk ih | case6 s b bs hk ih =>
    intro cs h
    obtain ⟨c, cs, rfl, hkind, hkinds⟩ := exists_cons_of_kinds h
    rw [visits_cons_of_isMarker (by simp [hk, Kind.isMarker]),
      visits_cons_of_isMarker (by simp [← hkind, hk, Kind.isMarker]), ih _ hkinds]
  | case7 s b bs d hk ih | case8 s b bs hk ih =>
    intro cs h
    obtain ⟨c, cs, rfl, hkind, hkinds⟩ := exists_cons_of_kinds h
    rw [visits_cons_of_leaf (by simp [hk, Kind.isOpener]) (by simp [hk, Kind.isMarker]),
      visits_cons_of_leaf (by simp [← hkind, hk, Kind.isOpener])
        (by simp [← hkind, hk, Kind.isMarker]),
      ih _ hkinds, length_eq_of_kinds hkinds]

theorem Block.kept_congr (h : bs.map Block.kind = cs.map Block.kind) : kept bs = kept cs := by
  rw [kept, kept, visits_congr 0 bs cs h]

end

namespace Visit

variable {bs : List Block} {v : Visit} {i : Nat} {b : Block}

/-- Own `else` blocks are markers behind the branch, within its region. -/
theorem mem_elses (h : i ∈ v.elses bs) :
    v.pos < i ∧ i < v.stop ∧ ∃ c, bs[i]? = some c ∧ c.kind.isMarker := by
  unfold elses at h
  split at h
  · obtain ⟨j, hj, rfl⟩ := List.mem_map.1 h
    have hlt := Block.ownElses_lt hj
    have hregion := Family.branch.length_region_le (Block.between bs (v.pos + 1) v.stop)
    have hle := Block.length_between_le bs (v.pos + 1) v.stop
    obtain ⟨c, hc, hkind⟩ := Block.kind_of_mem_ownElses hj
    rw [Family.region] at hc hlt
    rw [List.length_take] at hlt
    rw [List.getElem?_take_of_lt (by omega), Block.getElem?_between (by omega)] at hc
    refine ⟨by omega, by omega, c, ?_, by rw [hkind]; rfl⟩
    rw [← hc]
    congr 1
    omega
  · cases h

theorem Skips.within (h : v.Skips bs i) : v.pos < i ∧ i < v.stop := by
  obtain ⟨first, last, hfirst, hlast, hlt, hgt⟩ := h
  have hhead := mem_elses (List.mem_of_mem_head? hfirst)
  have hend := mem_elses (List.mem_of_getLast? hlast)
  omega

theorem elses_eq_nil (hb : bs[v.pos]? = some b) (h : ¬ b.kind.opens .branch) : v.elses bs = [] := by
  rw [elses, hb, Option.any_some, if_neg h]

theorem elses_eq (hb : bs[v.pos]? = some b) (h : b.kind.opens .branch) : v.elses bs =
    (Block.ownElses 0 (Family.branch.region (Block.between bs (v.pos + 1) v.stop))).map
      (· + (v.pos + 1)) := by
  rw [elses, hb, Option.any_some, if_pos h]

/-- A branch needs two own `else` blocks to skip anything. -/
theorem Skips.two_le_length_elses (h : v.Skips bs i) : 2 ≤ (v.elses bs).length := by
  obtain ⟨first, last, hfirst, hlast, hlt, hgt⟩ := h
  match hv : v.elses bs with
  | [] =>
    rw [hv] at hfirst
    cases hfirst
  | [j] =>
    rw [hv, List.head?_cons, Option.some_inj] at hfirst
    rw [hv, List.getLast?_singleton, Option.some_inj] at hlast
    omega
  | _ :: _ :: _ => exact Nat.le_add_left 2 _

theorem not_skips_of_elses_eq_nil (h : v.elses bs = []) (i : Nat) : ¬ v.Skips bs i := by
  intro hskips
  have := hskips.two_le_length_elses
  rw [h] at this
  cases this

end Visit

end BlockPuzzle
