import BlockPuzzle.Proofs.Program.Reading
import Mathlib.Data.List.Sort
import Mathlib.Order.Bounds.Basic

/-!
# Markers by counting

What belongs to an opener can be said without a pass over the program and without a stack, by two
numbers: how many openers and how many closers of its family stand between it and another position.
This says everything about the markers of a program, and they are the only ones of which it is true.

## Main definitions

* `Family.surplus`: by how many closers of a family outnumber its openers.
* `Family.IsCloser`, `Block.IsElseOf`: the closer and the `else` blocks of the opener at a position.
* `Markers.Counted`: the markers that are found by counting, and no others.

## Main statements

* `Family.isCloser_iff`, `Block.isElseOf_iff`: scanning behind an opener finds what counting finds.
* `Markers.eq_resolve_iff`: the markers of a program are those that counting finds.
-/

namespace BlockPuzzle

namespace Family

/-- By how many the closers of the family outnumber its openers. -/
def surplus (f : Family) (bs : List Block) : Int :=
  bs.countP (·.kind.closes f) - bs.countP (·.kind.opens f)

/-- There is an opener of the family at position `i`. -/
def OpensAt (f : Family) (bs : List Block) (i : Nat) : Prop := ∃ b, bs[i]? = some b ∧ b.kind.opens f

/-- Of all positions behind `i`, `j` is the first one up to which one closer more than openers of
the family has come. -/
def IsCloser (f : Family) (bs : List Block) (i j : Nat) : Prop :=
  IsLeast {j | i < j ∧ j < bs.length ∧ f.surplus (Block.between bs (i + 1) (j + 1)) = 1} j

variable {f : Family} {b : Block} {bs : List Block} {depth d i j k : Nat}

/-! ## One block of a scan -/

/-- How many further openers are open behind a block; `none` where the scan has come to its end. -/
def next? (f : Family) (depth : Nat) (k : Kind) : Option Nat :=
  if k.opens f then some (depth + 1)
  else if k.closes f then (if depth = 0 then none else some (depth - 1))
  else some depth

theorem closer?_cons_of_none (h : f.next? depth b.kind = none) :
    f.closer? depth (b :: bs) = some 0 := by
  unfold next? at h
  rw [closer?]
  grind

theorem closer?_cons_of_some (h : f.next? depth b.kind = some d) :
    f.closer? depth (b :: bs) = (f.closer? d bs).map (· + 1) := by
  unfold next? at h
  rw [closer?]
  grind

@[simp] theorem surplus_nil : f.surplus [] = 0 := rfl

theorem surplus_cons : f.surplus (b :: bs) =
    f.surplus bs + (if b.kind.closes f then 1 else 0) - (if b.kind.opens f then 1 else 0) := by
  simp only [surplus, List.countP_cons]
  split <;> split <;> omega

theorem surplus_cons_of_none (h : f.next? depth b.kind = none) :
    depth = 0 ∧ f.surplus (b :: bs) = f.surplus bs + 1 := by
  unfold next? at h
  grind [surplus_cons]

theorem surplus_cons_of_some (h : f.next? depth b.kind = some d) :
    f.surplus (b :: bs) = f.surplus bs + depth - d := by
  have hkind : b.kind.opens f → ¬ b.kind.closes f := Kind.not_closes_of_opens
  unfold next? at h
  grind [surplus_cons]

/-! ## Closers -/

/-- Until the closer is read, what is closed has been open or is opened in between. -/
theorem surplus_take_le (h : ∀ j, f.closer? depth bs = some j → k ≤ j) :
    f.surplus (bs.take k) ≤ depth := by
  induction bs generalizing depth k with
  | nil => simp
  | cons b bs ih =>
    cases k with
    | zero => simp
    | succ k =>
      cases hnext : f.next? depth b.kind with
      | none => exact absurd (h 0 (closer?_cons_of_none hnext)) (Nat.not_succ_le_zero k)
      | some d =>
        rw [closer?_cons_of_some hnext] at h
        have hle : f.surplus (bs.take k) ≤ d := ih (by grind)
        rw [List.take_succ_cons, surplus_cons_of_some hnext]
        omega

/-- The closer is one too many. -/
theorem surplus_take_closer? (h : f.closer? depth bs = some j) :
    f.surplus (bs.take (j + 1)) = depth + 1 := by
  induction bs generalizing depth j with
  | nil => cases h
  | cons b bs ih =>
    rw [List.take_succ_cons]
    cases hnext : f.next? depth b.kind with
    | none =>
      obtain rfl : 0 = j := by simpa [closer?_cons_of_none hnext] using h
      obtain ⟨rfl, hsurplus⟩ : depth = 0 ∧ f.surplus [b] = f.surplus [] + 1 :=
        surplus_cons_of_none hnext
      simpa using hsurplus
    | some d =>
      rw [closer?_cons_of_some hnext] at h
      obtain ⟨j, hj, rfl⟩ := Option.map_eq_some_iff.1 h
      rw [surplus_cons_of_some hnext, ih hj]
      omega

theorem closer?_eq_some_iff : f.closer? depth bs = some j ↔
    IsLeast {j | j < bs.length ∧ f.surplus (bs.take (j + 1)) = depth + 1} j := by
  have hleast {j : Nat} (h : f.closer? depth bs = some j) :
      IsLeast {j | j < bs.length ∧ f.surplus (bs.take (j + 1)) = depth + 1} j := by
    refine ⟨⟨closer?_lt h, surplus_take_closer? h⟩, ?_⟩
    rintro k ⟨-, hk⟩
    apply Nat.le_of_not_lt
    intro hlt
    have hle : f.surplus (bs.take (k + 1)) ≤ depth := surplus_take_le (by grind)
    omega
  refine ⟨hleast, ?_⟩
  intro hj
  cases hfound : f.closer? depth bs with
  | none =>
    have hle : f.surplus (bs.take (j + 1)) ≤ depth := surplus_take_le (by simp [hfound])
    have hsurplus := hj.1.2
    omega
  | some k => rw [(hleast hfound).unique hj]

/-- Counting from an opener on finds the closer that the scan behind it finds. -/
theorem isCloser_iff :
    f.IsCloser bs i j ↔ (f.closer? 0 (bs.drop (i + 1))).map (· + (i + 1)) = some j := by
  have hmem (k : Nat) : (i < k + (i + 1) ∧ k + (i + 1) < bs.length ∧
      f.surplus (Block.between bs (i + 1) (k + (i + 1) + 1)) = 1) ↔
      k < (bs.drop (i + 1)).length ∧
        f.surplus ((bs.drop (i + 1)).take (k + 1)) = (0 : Nat) + 1 := by
    rw [Block.between, List.length_drop, show k + (i + 1) + 1 - (i + 1) = k + 1 by omega]
    grind
  rw [Option.map_eq_some_iff]
  constructor
  · rintro ⟨hj, hleast⟩
    obtain ⟨k, rfl⟩ := Nat.exists_eq_add_of_le' hj.1
    refine ⟨k, closer?_eq_some_iff.2 ⟨(hmem k).1 hj, ?_⟩, rfl⟩
    intro k' hk'
    exact Nat.le_of_add_le_add_right (hleast ((hmem k').2 hk'))
  · rintro ⟨k, hk, rfl⟩
    obtain ⟨hk, hleast⟩ := closer?_eq_some_iff.1 hk
    refine ⟨(hmem k).2 hk, ?_⟩
    intro j' hj'
    obtain ⟨k', rfl⟩ := Nat.exists_eq_add_of_le' hj'.1
    exact Nat.add_le_add_right (hleast ((hmem k').1 hj')) _

end Family

/-! ## The blocks between -/

namespace Block

/-- There is an `else` at position `j`, behind the branch at `i` and before its closer, and between
the two as many branches are closed as opened. -/
structure IsElseOf (bs : List Block) (i j : Nat) : Prop where
  behind : i < j
  before : ∀ e, Family.branch.IsCloser bs i e → j < e
  otherwise : ∃ b, bs[j]? = some b ∧ b.kind = .otherwise
  even : Family.branch.surplus (between bs (i + 1) j) = 0

variable {b : Block} {bs : List Block} {depth d i j : Nat}

theorem ownElses_cons_of_none (h : Family.branch.next? depth b.kind = none) :
    ownElses depth (b :: bs) = [] := by
  unfold Family.next? at h
  rw [ownElses]
  grind

theorem ownElses_cons_of_some (h : Family.branch.next? depth b.kind = some d) :
    ownElses depth (b :: bs) =
      (if b.kind = .otherwise ∧ depth = 0 then [0] else []) ++ (ownElses d bs).map (· + 1) := by
  have hopens := Kind.ne_otherwise_of_opens (k := b.kind) (f := .branch)
  have hcloses := Kind.ne_otherwise_of_closes (k := b.kind) (f := .branch)
  unfold Family.next? at h
  rw [ownElses]
  grind

/-- An `else` is a branch's own where all further branches are closed, and the branch itself is
not. -/
theorem mem_ownElses_iff : j ∈ ownElses depth bs ↔
    (∀ e, Family.branch.closer? depth bs = some e → j < e) ∧
      (∃ b, bs[j]? = some b ∧ b.kind = .otherwise) ∧ Family.branch.surplus (bs.take j) = depth := by
  induction bs generalizing depth j with
  | nil => simp [ownElses]
  | cons b bs ih =>
    cases hnext : Family.branch.next? depth b.kind with
    | none => simp [ownElses_cons_of_none hnext, Family.closer?_cons_of_none hnext]
    | some d =>
      rw [ownElses_cons_of_some hnext, Family.closer?_cons_of_some hnext]
      cases j with
      | zero =>
        have hpos : ∀ e, (Family.branch.closer? d bs).map (· + 1) = some e → 0 < e := by
          intro e he
          obtain ⟨k, -, rfl⟩ := Option.map_eq_some_iff.1 he
          exact Nat.succ_pos k
        rw [List.getElem?_cons_zero, List.take_zero, Family.surplus_nil, and_iff_right hpos]
        simp [eq_comm]
      | succ j =>
        have hdepth (x : Int) : x = d ↔ x + depth - d = depth := by omega
        rw [List.take_succ_cons, Family.surplus_cons_of_some hnext, ← hdepth,
          List.getElem?_cons_succ]
        simp [ih]

/-- Counting from a branch on finds the `else` blocks that the scan behind it finds. -/
theorem isElseOf_iff :
    IsElseOf bs i j ↔ j ∈ (ownElses 0 (bs.drop (i + 1))).map (· + (i + 1)) := by
  have hmem (k : Nat) : IsElseOf bs i (k + (i + 1)) ↔ k ∈ ownElses 0 (bs.drop (i + 1)) := by
    rw [mem_ownElses_iff, List.getElem?_drop, Nat.add_comm (i + 1) k]
    constructor
    · rintro ⟨-, hbefore, hotherwise, heven⟩
      refine ⟨?_, hotherwise, ?_⟩
      · intro e he
        have hlt := hbefore (e + (i + 1)) (Family.isCloser_iff.2 (by rw [he, Option.map_some]))
        omega
      · rwa [between, Nat.add_sub_cancel] at heven
    · rintro ⟨hbefore, hotherwise, heven⟩
      refine ⟨by omega, ?_, hotherwise, by rwa [between, Nat.add_sub_cancel]⟩
      intro e he
      obtain ⟨e, hcloser, rfl⟩ := Option.map_eq_some_iff.1 (Family.isCloser_iff.1 he)
      exact Nat.add_lt_add_right (hbefore e hcloser) _
  rw [List.mem_map]
  constructor
  · intro h
    obtain ⟨k, rfl⟩ := Nat.exists_eq_add_of_le' h.behind
    exact ⟨k, (hmem k).1 h, rfl⟩
  · rintro ⟨k, hk, rfl⟩
    exact (hmem k).2 hk

end Block

namespace Markers

variable {m : Markers} {f : Family} {bs : List Block} {i j : Nat}

/-- Every entry of the markers is the one that counting gives: openers have the closers and the
`else` blocks that belong to them, and all other entries are empty. -/
structure Counted (bs : List Block) (m : Markers) : Prop where
  size_loopEnds : m.loopEnds.size = bs.length
  size_branchEnds : m.branchEnds.size = bs.length
  size_elses : m.elses.size = bs.length
  closerOf?_eq_some_iff : ∀ f i j, m.closerOf? f i = some j ↔ f.OpensAt bs i ∧ f.IsCloser bs i j
  pairwise_elsesOf : ∀ i, (m.elsesOf i).Pairwise (· < ·)
  mem_elsesOf_iff : ∀ i j, j ∈ m.elsesOf i ↔ Family.branch.OpensAt bs i ∧ Block.IsElseOf bs i j

/-! ## Entries without an opener -/

theorem Track.size_ends_run (t : Track) (f : Family) (i : Nat) (bs : List Block) :
    (t.run f i bs).ends.size = t.ends.size := by
  induction bs generalizing t i with
  | nil => rfl
  | cons b bs ih =>
    rw [run, ih]
    unfold read
    grind

theorem size_ends_scan (bs : List Block) (f : Family) :
    ((scan bs).track f).ends.size = bs.length := by
  rw [scan, Scan.track_run, Track.size_ends_run]
  cases f <;> simp [Scan.track, empty]

theorem size_elses_resolve (bs : List Block) : (resolve bs).elses.size = bs.length := by
  have h : (scanTo bs bs.length).found.elses.size = bs.length := size_elses_scanTo
  rwa [scanTo, List.take_length] at h

theorem Track.openers_read_subset {t : Track} {k : Kind} (h : ¬ k.opens f) :
    (t.read f i k).openers ⊆ t.openers := by
  unfold read
  grind

/-- No block is open before the scan has come to it. -/
theorem notMem_openers_scanTo (hi : i < bs.length) (f : Family) :
    i ∉ ((scanTo bs i).track f).openers := fun hmem =>
  Nat.lt_irrefl i ((sound_scanTo (Nat.le_of_lt hi) f).before i hmem)

theorem closerOf?_resolve_of_not_opensAt (h : ¬ f.OpensAt bs i) :
    (resolve bs).closerOf? f i = none := by
  rw [resolve, Scan.closerOf?_found]
  cases hi : bs[i]? with
  | none =>
    have hsize := size_ends_scan bs f
    rw [List.getElem?_eq_none_iff] at hi
    simp [Track.closerOf?, hsize, hi]
  | some b =>
    have hb : ¬ b.kind.opens f := fun hb => h ⟨b, hi, hb⟩
    obtain ⟨hlt, -⟩ := List.getElem?_eq_some_iff.1 hi
    have hnot := notMem_openers_scanTo hlt f
    have hpending := (sound_scanTo (Nat.le_of_lt hlt) f).pending i (.inr (Nat.le_refl i))
    -- Not open before, the block is not opened when it is read either, and so it is never closed.
    rw [scan_eq hi, Scan.track_run, Scan.track_read,
      Track.closerOf?_run_of_notMem (fun hmem => hnot (Track.openers_read_subset hb hmem))
        (Nat.lt_succ_self i),
      Track.closerOf?_read_of_notMem hnot, hpending]

theorem elsesOf_resolve_of_not_opensAt (h : ¬ Family.branch.OpensAt bs i) :
    (resolve bs).elsesOf i = [] := by
  cases hi : bs[i]? with
  | none =>
    have hsize := size_elses_resolve bs
    rw [List.getElem?_eq_none_iff] at hi
    simp [elsesOf, hsize, hi]
  | some b =>
    have hb : ¬ b.kind.opens .branch := fun hb => h ⟨b, hi, hb⟩
    obtain ⟨hlt, -⟩ := List.getElem?_eq_some_iff.1 hi
    have hnot := notMem_openers_scanTo hlt .branch
    have hnot' : i ∉ ((scanTo bs i).read i b.kind).openBranches := by
      rw [Scan.openBranches_read]
      exact fun hmem => hnot (Track.openers_read_subset hb hmem)
    have hhead : (scanTo bs i).openBranches.head? ≠ some i := fun hhead =>
      hnot (List.mem_of_head? hhead)
    have hsize : i < (scanTo bs i).found.elses.size := by rwa [size_elses_scanTo]
    rw [resolve, scan_eq hi,
      Scan.elsesOf_run_of_notMem (by rwa [Scan.size_elses_read]) hnot' (.inl (Nat.lt_succ_self i)),
      Scan.elsesOf_read hsize, if_neg (fun h => hhead h.2), elsesOf_scanTo hlt, List.append_nil]

/-! ## All entries -/

theorem counted_resolve (bs : List Block) : (resolve bs).Counted bs where
  size_loopEnds := size_ends_scan bs .loop
  size_branchEnds := size_ends_scan bs .branch
  size_elses := size_elses_resolve bs
  closerOf?_eq_some_iff f i j := by
    by_cases hopens : f.OpensAt bs i
    · obtain ⟨b, hi, hb⟩ := hopens
      rw [closerOf?_resolve hi hb, ← Family.isCloser_iff]
      exact ⟨fun h => ⟨⟨b, hi, hb⟩, h⟩, And.right⟩
    · simp [closerOf?_resolve_of_not_opensAt hopens, hopens]
  pairwise_elsesOf i := by
    by_cases hopens : Family.branch.OpensAt bs i
    · obtain ⟨b, hi, hb⟩ := hopens
      rw [elsesOf_resolve hi hb, List.pairwise_map]
      simpa using Block.pairwise_ownElses 0 (bs.drop (i + 1))
    · simp [elsesOf_resolve_of_not_opensAt hopens]
  mem_elsesOf_iff i j := by
    by_cases hopens : Family.branch.OpensAt bs i
    · obtain ⟨b, hi, hb⟩ := hopens
      rw [elsesOf_resolve hi hb, ← Block.isElseOf_iff]
      exact ⟨fun h => ⟨⟨b, hi, hb⟩, h⟩, And.right⟩
    · simp [elsesOf_resolve_of_not_opensAt hopens, hopens]

theorem ext_closerOf? {m m' : Markers} (hloops : m.loopEnds.size = m'.loopEnds.size)
    (hbranches : m.branchEnds.size = m'.branchEnds.size) (helses : m.elses.size = m'.elses.size)
    (hcloser : ∀ f i, m.closerOf? f i = m'.closerOf? f i) (hown : ∀ i, m.elsesOf i = m'.elsesOf i) :
    m = m' := by
  obtain ⟨loopEnds, branchEnds, elses⟩ := m
  obtain ⟨loopEnds', branchEnds', elses'⟩ := m'
  congr
  · apply Array.ext hloops
    intro i hi hi'
    simpa [closerOf?, loopEnd?, hi, hi'] using hcloser .loop i
  · apply Array.ext hbranches
    intro i hi hi'
    simpa [closerOf?, branchEnd?, hi, hi'] using hcloser .branch i
  · apply Array.ext helses
    intro i hi hi'
    simpa [elsesOf, hi, hi'] using hown i

/-- The markers of a program are those that counting finds, and nothing else stands in them. -/
theorem eq_resolve_iff {m : Markers} : m = resolve bs ↔ m.Counted bs := by
  have hbs := counted_resolve bs
  refine ⟨fun h => h ▸ hbs, ?_⟩
  intro hm
  apply ext_closerOf?
  · rw [hm.size_loopEnds, hbs.size_loopEnds]
  · rw [hm.size_branchEnds, hbs.size_branchEnds]
  · rw [hm.size_elses, hbs.size_elses]
  · intro f i
    apply Option.ext
    intro j
    rw [hm.closerOf?_eq_some_iff, hbs.closerOf?_eq_some_iff]
  · intro i
    apply (hm.pairwise_elsesOf i).eq_of_mem_iff (hbs.pairwise_elsesOf i)
    intro j
    rw [hm.mem_elsesOf_iff, hbs.mem_elsesOf_iff]

/-- Of a branch inside a branch each has its own `else` blocks, and the last one is nobody's. -/
example : (resolve [⟨"a", .branch .wallAhead, none⟩, ⟨"b", .branch .onStar, none⟩,
      ⟨"c", .otherwise, none⟩, ⟨"d", .endBranch, none⟩, ⟨"e", .otherwise, none⟩,
      ⟨"f", .otherwise, none⟩, ⟨"g", .endBranch, none⟩, ⟨"h", .otherwise, none⟩]).elses =
    #[[4, 5], [2], [], [], [], [], [], []] := by
  decide

end Markers

end BlockPuzzle
