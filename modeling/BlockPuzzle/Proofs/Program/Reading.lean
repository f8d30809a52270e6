import BlockPuzzle.Program.Node
import BlockPuzzle.Proofs.Program.Matching

/-!
# Reading a region

The tree of a program as one would read it off by hand: from left to right, scanning ahead for the
closer of every opener within the region at hand, and reading each body in the same way.

## Main definitions

* `Family.region`, `Family.after`: what lies behind an opener, up to its closer and from it on.
* `Node.reading`: the program tree of a region.
* `Block.between`: the region between two positions of a program.
-/

namespace BlockPuzzle

namespace Family

/-- The blocks behind an opener, up to its closer. Without a closer the region takes all of them. -/
def region (f : Family) (bs : List Block) : List Block :=
  bs.take ((f.closer? 0 bs).getD bs.length)

/-- Where reading goes on behind the closer. -/
def after (f : Family) (bs : List Block) : List Block :=
  bs.drop (((f.closer? 0 bs).map (· + 1)).getD bs.length)

theorem length_region_le (f : Family) (bs : List Block) : (f.region bs).length ≤ bs.length := by
  rw [region, List.length_take]; omega

theorem length_after_le (f : Family) (bs : List Block) : (f.after bs).length ≤ bs.length := by
  rw [after, List.length_drop]; omega

end Family

/-- The program tree of a region. The body of a branch ends at its first own `else` and its
alternative begins behind the last one. -/
def Node.reading : List Block → List Node
  | [] => []
  | b :: bs =>
    match b.kind with
    | .loop => ⟨b, reading (Family.loop.region bs), none⟩ :: reading (Family.loop.after bs)
    | .branch _ =>
      let region := Family.branch.region bs
      let elses := Block.ownElses 0 region
      ⟨b, reading (region.take (elses.head?.getD region.length)),
        elses.getLast?.map fun e => reading (region.drop (e + 1))⟩ ::
          reading (Family.branch.after bs)
    | .endLoop | .otherwise | .endBranch => reading bs
    | .move _ | .unknown => leaf b :: reading bs
termination_by bs => bs.length
decreasing_by
  all_goals
    have hregion := fun f => Family.length_region_le f bs
    have hafter := fun f => Family.length_after_le f bs
    simp only [List.length_cons, List.length_take, List.length_drop]
  · exact Nat.lt_succ_of_le (hregion .loop)
  · exact Nat.lt_succ_of_le (hafter .loop)
  · have := hregion .branch; omega
  · have := hregion .branch; omega
  · exact Nat.lt_succ_of_le (hafter .branch)
  all_goals omega

namespace Node

variable {b : Block} {bs : List Block}

theorem reading_cons_of_loop (h : b.kind = .loop) : reading (b :: bs) =
    ⟨b, reading (Family.loop.region bs), none⟩ :: reading (Family.loop.after bs) := by
  rw [reading, h]

theorem reading_cons_of_branch {p : Predicate} (h : b.kind = .branch p) : reading (b :: bs) =
    ⟨b, reading ((Family.branch.region bs).take
        ((Block.ownElses 0 (Family.branch.region bs)).head?.getD (Family.branch.region bs).length)),
      (Block.ownElses 0 (Family.branch.region bs)).getLast?.map fun e =>
        reading ((Family.branch.region bs).drop (e + 1))⟩ :: reading (Family.branch.after bs) := by
  rw [reading, h]

theorem reading_cons_of_isMarker (h : b.kind.isMarker) : reading (b :: bs) = reading bs := by
  rw [reading]
  cases hk : b.kind <;> simp_all [Kind.isMarker]

theorem reading_cons_of_leaf (hopener : ¬ b.kind.isOpener) (hmarker : ¬ b.kind.isMarker) :
    reading (b :: bs) = leaf b :: reading bs := by
  rw [reading]
  cases hk : b.kind <;> simp_all [Kind.isMarker, Kind.isOpener]

end Node

/-! ## Scanning a shorter region -/

theorem Family.closer?_lt {f : Family} {depth j : Nat} {bs : List Block}
    (h : f.closer? depth bs = some j) : j < bs.length := by
  induction bs generalizing depth j with
  | nil => simp [closer?] at h
  | cons b bs ih =>
    have next {d : Nat} (h : (f.closer? d bs).map (· + 1) = some j) : j < bs.length + 1 := by
      obtain ⟨j, hj, rfl⟩ := Option.map_eq_some_iff.1 h
      exact Nat.succ_lt_succ (ih hj)
    rw [closer?] at h
    rw [List.length_cons]
    split at h
    · exact next h
    · split at h
      · split at h
        · obtain rfl : 0 = j := by simpa using h
          omega
        · exact next h
      · exact next h

theorem Family.closes_of_closer? {f : Family} {depth j : Nat} {bs : List Block}
    (h : f.closer? depth bs = some j) : ∃ c, bs[j]? = some c ∧ c.kind.closes f := by
  induction bs generalizing depth j with
  | nil => simp [closer?] at h
  | cons b bs ih =>
    have next {d : Nat} (h : (f.closer? d bs).map (· + 1) = some j) :
        ∃ c, (b :: bs)[j]? = some c ∧ c.kind.closes f := by
      obtain ⟨j, hj, rfl⟩ := Option.map_eq_some_iff.1 h
      simpa using ih hj
    rw [closer?] at h
    split at h
    · exact next h
    · split at h
      · next hcloses =>
        split at h
        · obtain rfl : 0 = j := by simpa using h
          exact ⟨b, rfl, hcloses⟩
        · exact next h
      · exact next h

/-- A closer beyond the end of the region is not found. -/
theorem Family.closer?_take (f : Family) (depth n : Nat) (bs : List Block) :
    f.closer? depth (bs.take n) = (f.closer? depth bs).filter (· < n) := by
  induction bs generalizing depth n with
  | nil => simp [closer?]
  | cons b bs ih =>
    cases n with
    | zero => cases h : f.closer? depth (b :: bs) <;> simp [closer?, Option.filter]
    | succ n =>
      have next (d : Nat) : (f.closer? d (bs.take n)).map (· + 1) =
          ((f.closer? d bs).map (· + 1)).filter (· < n + 1) := by
        rw [ih]
        cases f.closer? d bs <;> simp [Option.filter]
      rw [List.take_succ_cons, closer?, closer?]
      simp only [next]
      split
      · rfl
      · split
        · split <;> rfl
        · rfl

/-- An `else` beyond the end of the region is not found. -/
theorem Block.ownElses_take (depth n : Nat) (bs : List Block) :
    ownElses depth (bs.take n) = (ownElses depth bs).takeWhile (· < n) := by
  induction bs generalizing depth n with
  | nil => simp [ownElses]
  | cons b bs ih =>
    cases n with
    | zero => cases h : ownElses depth (b :: bs) <;> simp [ownElses]
    | succ n =>
      have next (d : Nat) : (ownElses d (bs.take n)).map (· + 1) =
          ((ownElses d bs).map (· + 1)).takeWhile (· < n + 1) := by
        rw [ih, List.takeWhile_map]
        simp [Function.comp_def]
      rw [List.take_succ_cons, ownElses, ownElses]
      simp only [next]
      split
      · rfl
      · split
        · split <;> rfl
        · split <;> simp

theorem Block.ownElses_lt {depth e : Nat} {bs : List Block} (h : e ∈ ownElses depth bs) :
    e < bs.length := by
  induction bs generalizing depth e with
  | nil => simp [ownElses] at h
  | cons b bs ih =>
    rw [ownElses] at h
    rw [List.length_cons]
    grind

theorem Block.kind_of_mem_ownElses {depth j : Nat} {bs : List Block} (h : j ∈ ownElses depth bs) :
    ∃ c, bs[j]? = some c ∧ c.kind = .otherwise := by
  induction bs generalizing depth j with
  | nil => simp [ownElses] at h
  | cons b bs ih =>
    have next {d : Nat} (h : j ∈ (ownElses d bs).map (· + 1)) :
        ∃ c, (b :: bs)[j]? = some c ∧ c.kind = .otherwise := by
      obtain ⟨j, hj, rfl⟩ := List.mem_map.1 h
      simpa using ih hj
    rw [ownElses] at h
    split at h
    · exact next h
    · split at h
      · split at h
        · cases h
        · exact next h
      · split at h
        · next hotherwise =>
          rcases List.mem_cons.1 h with rfl | h
          · exact ⟨b, rfl, hotherwise.1⟩
          · exact next h
        · exact next h

theorem Block.pairwise_ownElses (depth : Nat) (bs : List Block) :
    (ownElses depth bs).Pairwise (· < ·) := by
  induction bs generalizing depth with
  | nil => simp [ownElses]
  | cons b bs ih =>
    have next (d : Nat) : ((ownElses d bs).map (· + 1)).Pairwise (· < ·) := by
      simpa [List.pairwise_map] using ih d
    rw [ownElses]
    split
    · exact next _
    · split
      · split
        · exact .nil
        · exact next _
      · split
        · exact List.pairwise_cons.2 ⟨by simp, next _⟩
        · exact next _

/-! ## Regions of a program -/

/-- The blocks of a program from position `s` up to position `e`. -/
def Block.between (bs : List Block) (s e : Nat) : List Block := (bs.drop s).take (e - s)

namespace Block

variable {bs : List Block} {s m e : Nat} {b : Block}

theorem between_zero (bs : List Block) : between bs 0 bs.length = bs := by simp [between]

theorem between_self (bs : List Block) (s : Nat) : between bs s s = [] := by simp [between]

theorem between_cons (hb : bs[s]? = some b) (h : s < e) :
    between bs s e = b :: between bs (s + 1) e := by
  obtain ⟨hs, rfl⟩ := List.getElem?_eq_some_iff.1 hb
  rw [between, between, List.drop_eq_getElem_cons hs, show e - s = e - (s + 1) + 1 by omega,
    List.take_succ_cons]

theorem length_between (h : e ≤ bs.length) : (between bs s e).length = e - s := by
  simp [between]; omega

theorem length_between_le (bs : List Block) (s e : Nat) : (between bs s e).length ≤ e - s := by
  rw [between, List.length_take]
  omega

theorem getElem?_between {i : Nat} (h : s + i < e) : (between bs s e)[i]? = bs[s + i]? := by
  rw [between, List.getElem?_take_of_lt (by omega), List.getElem?_drop]

theorem take_between {j : Nat} (h : s + j ≤ e) :
    (between bs s e).take j = between bs s (s + j) := by
  rw [between, between, List.take_take, Nat.min_eq_left (by omega), Nat.add_sub_cancel_left]

theorem drop_between (j : Nat) : (between bs s e).drop j = between bs (s + j) e := by
  rw [between, between, List.drop_take, List.drop_drop, Nat.sub_sub]

theorem between_append (hs : s ≤ m) (he : m ≤ e) :
    between bs s m ++ between bs m e = between bs s e := by
  obtain ⟨j, rfl⟩ := Nat.exists_eq_add_of_le hs
  rw [← take_between he, ← drop_between, List.take_append_drop]

end Block

end BlockPuzzle
