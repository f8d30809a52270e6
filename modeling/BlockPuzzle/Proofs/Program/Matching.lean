import BlockPuzzle.Program.Markers

/-!
# Matching by counting

The closer of an opener can be found without a stack: look at the blocks behind the opener and count
the openers of its family that are still open. The one pass over the whole program finds the same
closers and the same `else` blocks.

## Main definitions

* `Family`: loops or branches; each is matched as if the other were not there.
* `Family.closer?`: how many blocks stand between an opener and its closer.
* `Block.ownElses`: where the `else` blocks of a branch stand behind its opener.

## Main statements

* `Markers.closerOf?_resolve`, `Markers.elsesOf_resolve`: the markers of a program are those found
  by counting behind each opener.
-/

namespace BlockPuzzle

/-- Loops and branches are matched apart from each other. -/
inductive Family where
  | loop | branch
  deriving DecidableEq, Repr

namespace Kind

def opens : Kind → Family → Bool
  | .loop, .loop | .branch _, .branch => true
  | _, _ => false

def closes : Kind → Family → Bool
  | .endLoop, .loop | .endBranch, .branch => true
  | _, _ => false

variable {k : Kind} {f g : Family}

theorem eq_of_opens (hf : k.opens f) (hg : k.opens g) : g = f := by
  cases k <;> cases f <;> cases hf <;> cases g <;> first | rfl | cases hg

theorem eq_of_closes (hf : k.closes f) (hg : k.closes g) : g = f := by
  cases k <;> cases f <;> cases hf <;> cases g <;> first | rfl | cases hg

theorem not_closes_of_opens (h : k.opens f) : ¬ k.closes g := by
  cases k <;> cases f <;> cases h <;> cases g <;> nofun

theorem not_opens_of_closes (h : k.closes f) : ¬ k.opens g := by
  cases k <;> cases f <;> cases h <;> cases g <;> nofun

theorem ne_otherwise_of_opens (h : k.opens f) : k ≠ .otherwise := by
  rintro rfl
  cases f <;> cases h

theorem ne_otherwise_of_closes (h : k.closes f) : k ≠ .otherwise := by
  rintro rfl
  cases f <;> cases h

end Kind

/-- How many blocks stand before the closer of an opener, if `depth` further openers of the family
are open by now. Blocks of the other family do not count. -/
def Family.closer? (f : Family) : Nat → List Block → Option Nat
  | _, [] => none
  | depth, b :: bs =>
    if b.kind.opens f then (f.closer? (depth + 1) bs).map (· + 1)
    else if b.kind.closes f then
      if depth = 0 then some 0 else (f.closer? (depth - 1) bs).map (· + 1)
    else (f.closer? depth bs).map (· + 1)

/-- Where the `else` blocks of a branch stand, up to its closer, if `depth` further branches are
open by now. -/
def Block.ownElses : Nat → List Block → List Nat
  | _, [] => []
  | depth, b :: bs =>
    if b.kind.opens .branch then (ownElses (depth + 1) bs).map (· + 1)
    else if b.kind.closes .branch then
      if depth = 0 then [] else (ownElses (depth - 1) bs).map (· + 1)
    else if b.kind = .otherwise ∧ depth = 0 then 0 :: (ownElses depth bs).map (· + 1)
    else (ownElses depth bs).map (· + 1)

namespace Markers

def closerOf? (m : Markers) : Family → Nat → Option Nat
  | .loop => m.loopEnd?
  | .branch => m.branchEnd?

/-! ## One family of a scan -/

/-- What a scan knows about one family: the closers found, and the openers still open. -/
structure Track where
  ends : Array (Option Nat)
  openers : List Nat

namespace Track

def closerOf? (t : Track) (o : Nat) : Option Nat := t.ends[o]?.join

def read (t : Track) (f : Family) (i : Nat) (k : Kind) : Track :=
  if k.opens f then { t with openers := i :: t.openers }
  else if k.closes f then
    match t.openers with
    | [] => t
    | o :: os => ⟨t.ends.setIfInBounds o (some i), os⟩
  else t

def run (t : Track) (f : Family) (i : Nat) : List Block → Track
  | [] => t
  | b :: bs => (t.read f i b.kind).run f (i + 1) bs

variable {t : Track} {f : Family} {k : Kind} {i n o depth : Nat} {bs : List Block}

theorem read_of_opens (h : k.opens f) : t.read f i k = { t with openers := i :: t.openers } := by
  simp [read, h]

theorem read_of_closes (hopens : ¬ k.opens f) (h : k.closes f) {os : List Nat}
    (ho : t.openers = o :: os) : t.read f i k = ⟨t.ends.setIfInBounds o (some i), os⟩ := by
  simp [read, hopens, h, ho]

theorem read_of_other (hopens : ¬ k.opens f) (hcloses : ¬ k.closes f) : t.read f i k = t := by
  simp [read, hopens, hcloses]

theorem mem_openers_read (h : o ∈ (t.read f i k).openers) : o = i ∨ o ∈ t.openers := by
  unfold read at h
  grind

theorem closerOf?_setIfInBounds (ends : Array (Option Nat)) (os : List Nat) (o i p : Nat) :
    (Track.mk (ends.setIfInBounds o (some i)) os).closerOf? p =
      if p = o ∧ o < ends.size then some i else (Track.mk ends os).closerOf? p := by
  unfold closerOf?
  rw [Array.getElem?_setIfInBounds]
  split <;> split <;> grind

/-- Only the closer of an opener changes what is known about it. -/
theorem closerOf?_read_of_notMem (h : o ∉ t.openers) :
    (t.read f i k).closerOf? o = t.closerOf? o := by
  unfold read
  split
  · rfl
  · split
    · split
      · rfl
      · rw [closerOf?_setIfInBounds]
        grind [closerOf?]
    · rfl

theorem closerOf?_run_of_notMem (h : o ∉ t.openers) (hi : o < i) :
    (t.run f i bs).closerOf? o = t.closerOf? o := by
  induction bs generalizing t i with
  | nil => rfl
  | cons b bs ih =>
    have hnot : o ∉ (t.read f i b.kind).openers := by
      intro hm
      rcases mem_openers_read hm with rfl | hm
      · omega
      · exact h hm
    exact (ih hnot (by omega)).trans (closerOf?_read_of_notMem h)

/-- What holds before position `i` of a program of `n` blocks. -/
structure Sound (t : Track) (i n : Nat) : Prop where
  size : n ≤ t.ends.size
  nodup : t.openers.Nodup
  before : ∀ o ∈ t.openers, o < i
  pending : ∀ o, o ∈ t.openers ∨ i ≤ o → t.closerOf? o = none

theorem Sound.read (h : t.Sound i n) (f : Family) (k : Kind) : (t.read f i k).Sound (i + 1) n := by
  obtain ⟨size, nodup, before, pending⟩ := h
  unfold Track.read
  split
  · have hnot : i ∉ t.openers := by
      intro hm
      have := before i hm
      omega
    exact ⟨size, List.nodup_cons.2 ⟨hnot, nodup⟩, by grind, fun o ho => pending o (by grind)⟩
  · split
    · split
      · exact ⟨size, nodup, by grind, fun o ho => pending o (by grind)⟩
      · next o os ho =>
        refine ⟨by simpa using size, by grind, by grind, ?_⟩
        intro p hp
        have hne : p ≠ o := by grind
        rw [closerOf?_setIfInBounds, if_neg (fun h => hne h.1)]
        exact pending p (by grind)
    · exact ⟨size, nodup, by grind, fun o ho => pending o (by grind)⟩

theorem Sound.run (h : t.Sound i n) (f : Family) (bs : List Block) :
    (t.run f i bs).Sound (i + bs.length) n := by
  induction bs generalizing t i with
  | nil => exact h
  | cons b bs ih =>
    rw [List.length_cons, show i + (bs.length + 1) = i + 1 + bs.length by omega]
    exact ih (h.read f b.kind)

/-- The opener under `depth` others is closed where the count says so. -/
theorem closerOf?_run (h : t.Sound i n) (hn : i + bs.length ≤ n)
    (ho : t.openers[depth]? = some o) :
    (t.run f i bs).closerOf? o = (f.closer? depth bs).map (· + i) := by
  induction bs generalizing t i depth with
  | nil => exact h.pending o (.inl (List.mem_of_getElem? ho))
  | cons b bs ih =>
    rw [List.length_cons] at hn
    have next := h.read f b.kind
    have shift (x : Option Nat) : (x.map (· + 1)).map (· + i) = x.map (· + (i + 1)) := by
      cases x <;> simp; omega
    rw [run, Family.closer?]
    by_cases hopens : b.kind.opens f
    · rw [if_pos hopens, shift]
      exact ih next (by omega) (by simpa [read_of_opens hopens] using ho)
    by_cases hcloses : b.kind.closes f
    · obtain ⟨o', os, hos⟩ : ∃ o' os, t.openers = o' :: os := by
        cases hos : t.openers <;> simp_all
      have hread := read_of_closes (i := i) hopens hcloses hos
      rw [if_neg hopens, if_pos hcloses]
      cases depth with
      | zero =>
        obtain rfl : o' = o := by simpa [hos] using ho
        have hlt : o' < i := h.before o' (by simp [hos])
        have hnot : o' ∉ os := (List.nodup_cons.1 (hos ▸ h.nodup)).1
        have hsize := h.size
        rw [closerOf?_run_of_notMem (by simpa [hread] using hnot) (by omega), hread,
          closerOf?_setIfInBounds, if_pos ⟨rfl, by omega⟩]
        simp
      | succ depth =>
        rw [if_neg (by omega), shift]
        exact ih next (by omega) (by simpa [hread, hos] using ho)
    · rw [if_neg hopens, if_neg hcloses, shift]
      exact ih next (by omega) (by simpa [read_of_other hopens hcloses] using ho)

end Track

/-! ## A scan as two families -/

namespace Scan

def track (s : Scan) : Family → Track
  | .loop => ⟨s.found.loopEnds, s.openLoops⟩
  | .branch => ⟨s.found.branchEnds, s.openBranches⟩

@[simp] theorem openers_track_branch (s : Scan) : (s.track .branch).openers = s.openBranches := rfl

theorem track_read (s : Scan) (f : Family) (i : Nat) (k : Kind) :
    (s.read i k).track f = (s.track f).read f i k := by
  cases f <;> cases k <;>
    simp only [read, track, Track.read, Kind.opens, Kind.closes, if_true, if_false,
      Bool.false_eq_true] <;>
    split <;> simp_all

theorem track_run (s : Scan) (f : Family) (i : Nat) (bs : List Block) :
    (s.run i bs).track f = (s.track f).run f i bs := by
  induction bs generalizing s i with
  | nil => rfl
  | cons b bs ih => rw [run, ih, track_read, Track.run]

theorem closerOf?_found (s : Scan) (f : Family) (o : Nat) :
    s.found.closerOf? f o = (s.track f).closerOf? o := by
  cases f <;> rfl

theorem openBranches_read (s : Scan) (i : Nat) (k : Kind) :
    (s.read i k).openBranches = ((s.track .branch).read .branch i k).openers :=
  congrArg Track.openers (s.track_read .branch i k)

theorem size_elses_read (s : Scan) (i : Nat) (k : Kind) :
    (s.read i k).found.elses.size = s.found.elses.size := by
  unfold read
  split <;> try rfl
  all_goals split <;> simp

variable {s : Scan} {k : Kind} {i n o depth : Nat} {bs : List Block}

/-- An `else` goes to the innermost open branch. -/
theorem elsesOf_read (ho : o < s.found.elses.size) :
    (s.read i k).found.elsesOf o = s.found.elsesOf o ++
      if k = .otherwise ∧ s.openBranches.head? = some o then [i] else [] := by
  unfold read elsesOf
  split <;> try simp
  · split <;> simp
  · split <;> simp
  · split
    · simp_all
    · next o' os hos =>
      simp only [hos, List.head?_cons, Option.some.injEq, Array.getElem?_modify]
      split <;> simp_all

theorem elsesOf_read_of_ne (ho : o < s.found.elses.size) (hk : k ≠ .otherwise) :
    (s.read i k).found.elsesOf o = s.found.elsesOf o := by
  rw [elsesOf_read ho, if_neg (fun h => hk h.1), List.append_nil]

/-- Only the `else` blocks inside a branch change what is known about it. -/
theorem elsesOf_run_of_notMem (hs : o < s.found.elses.size) (h : o ∉ s.openBranches)
    (hi : o < i ∨ i + bs.length ≤ o) : (s.run i bs).found.elsesOf o = s.found.elsesOf o := by
  induction bs generalizing s i with
  | nil => rfl
  | cons b bs ih =>
    rw [List.length_cons] at hi
    have hnot : o ∉ (s.read i b.kind).openBranches := by
      intro hm
      rw [openBranches_read] at hm
      rcases Track.mem_openers_read hm with rfl | hm
      · omega
      · exact h hm
    have hhead : s.openBranches.head? ≠ some o := fun he => h (List.mem_of_head? he)
    rw [run, ih (by rwa [size_elses_read]) hnot (by omega), elsesOf_read hs,
      if_neg (fun hc => hhead hc.2), List.append_nil]

/-- The branch under `depth` others gets the `else` blocks that the count gives it. -/
theorem elsesOf_run (h : (s.track .branch).Sound i n) (hs : n ≤ s.found.elses.size)
    (hn : i + bs.length ≤ n) (ho : s.openBranches[depth]? = some o) :
    (s.run i bs).found.elsesOf o =
      s.found.elsesOf o ++ (Block.ownElses depth bs).map (· + i) := by
  induction bs generalizing s i depth with
  | nil => simp [run, Block.ownElses]
  | cons b bs ih =>
    rw [List.length_cons] at hn
    have next := s.track_read .branch i b.kind ▸ h.read .branch b.kind
    have hsize : n ≤ (s.read i b.kind).found.elses.size := by rwa [size_elses_read]
    have hlt : o < i := h.before o (List.mem_of_getElem? ho)
    have hsize' : o < s.found.elses.size := by omega
    have shift (xs : List Nat) : (xs.map (· + 1)).map (· + i) = xs.map (· + (i + 1)) := by
      simp only [List.map_map, List.map_inj_left, Function.comp_apply]; omega
    have hstep : (s.read i b.kind).openBranches = _ := openBranches_read s i b.kind
    have rest {d : Nat} (hd : (s.read i b.kind).openBranches[d]? = some o) :=
      ih next hsize (by omega) hd
    rw [run, Block.ownElses]
    by_cases hopens : b.kind.opens .branch
    · rw [Track.read_of_opens hopens] at hstep
      rw [if_pos hopens, shift, rest (d := depth + 1) (by simpa [hstep] using ho),
        elsesOf_read_of_ne hsize' (Kind.ne_otherwise_of_opens hopens)]
    by_cases hcloses : b.kind.closes .branch
    · obtain ⟨o', os, hos⟩ : ∃ o' os, s.openBranches = o' :: os := by
        cases hos : s.openBranches <;> simp_all
      rw [Track.read_of_closes hopens hcloses hos] at hstep
      have hread := elsesOf_read_of_ne (i := i) hsize' (Kind.ne_otherwise_of_closes hcloses)
      rw [if_neg hopens, if_pos hcloses]
      cases depth with
      | zero =>
        obtain rfl : o' = o := by simpa [hos] using ho
        have hnot : o' ∉ os := (List.nodup_cons.1 (hos ▸ h.nodup)).1
        rw [elsesOf_run_of_notMem (by omega) (by simpa [hstep] using hnot) (.inl (by omega)), hread]
        simp
      | succ depth =>
        rw [if_neg (by omega), shift, rest (d := depth) (by simpa [hstep, hos] using ho), hread,
          Nat.add_sub_cancel]
    · rw [Track.read_of_other hopens hcloses] at hstep
      -- An `else` is its own exactly if no other branch is open inside.
      have hhead : s.openBranches.head? = some o ↔ depth = 0 := by
        obtain ⟨hd, -⟩ := List.getElem?_eq_some_iff.1 ho
        rw [List.head?_eq_getElem?, ← ho, eq_comm, List.getElem?_inj hd h.nodup]
      rw [if_neg hopens, if_neg hcloses, rest (d := depth) (by simpa [hstep] using ho),
        elsesOf_read hsize']
      simp only [hhead]
      split
      · simp only [List.map_cons, shift, Nat.zero_add, List.append_assoc, List.singleton_append]
      · rw [shift, List.append_nil]

end Scan

/-! ## A whole program -/

theorem sound_empty (n : Nat) (f : Family) : (Scan.track { found := empty n } f).Sound 0 n := by
  cases f <;>
    exact ⟨by simp [Scan.track, empty], by simp [Scan.track], by simp [Scan.track],
      by simp [Scan.track, empty, Track.closerOf?, Array.getElem?_replicate]; grind⟩

/-- The scan of a program just before its block at `i`. -/
def scanTo (bs : List Block) (i : Nat) : Scan :=
  Scan.run { found := empty bs.length } 0 (bs.take i)

variable {bs : List Block} {i : Nat} {b : Block}

theorem scan_eq (hi : bs[i]? = some b) :
    scan bs = ((scanTo bs i).read i b.kind).run (i + 1) (bs.drop (i + 1)) := by
  obtain ⟨hlt, hb⟩ := List.getElem?_eq_some_iff.1 hi
  have hsplit : bs = bs.take i ++ b :: bs.drop (i + 1) := by
    rw [← hb, List.getElem_cons_drop, List.take_append_drop]
  have hlength : (bs.take i).length = i := by simp; omega
  calc scan bs = Scan.run { found := empty bs.length } 0 (bs.take i ++ b :: bs.drop (i + 1)) := by
        rw [← hsplit, scan]
    _ = _ := by rw [Scan.run_append, hlength, Nat.zero_add, Scan.run, scanTo]

theorem sound_scanTo (hi : i ≤ bs.length) (f : Family) :
    ((scanTo bs i).track f).Sound i bs.length := by
  have h := (sound_empty bs.length f).run f (bs.take i)
  rwa [List.length_take, Nat.min_eq_left hi, Nat.zero_add, ← Scan.track_run] at h

theorem size_elses_scanTo : (scanTo bs i).found.elses.size = bs.length := by
  have h (s : Scan) (j : Nat) (xs : List Block) :
      (s.run j xs).found.elses.size = s.found.elses.size := by
    induction xs generalizing s j with
    | nil => rfl
    | cons x xs ih => rw [Scan.run, ih, Scan.size_elses_read]
  rw [scanTo, h]
  simp [empty]

/-- Nothing is known about a position that the scan has not come to. -/
theorem elsesOf_scanTo (hi : i < bs.length) : (scanTo bs i).found.elsesOf i = [] := by
  have hbehind : 0 + (bs.take i).length ≤ i := by rw [List.length_take]; omega
  rw [scanTo, Scan.elsesOf_run_of_notMem (by simpa [empty] using hi) (by simp) (.inr hbehind)]
  simp [elsesOf, empty, hi]

/-- The markers know the closer of an opener that counting behind it finds. -/
theorem closerOf?_resolve {f : Family} (hi : bs[i]? = some b) (hb : b.kind.opens f) :
    (resolve bs).closerOf? f i = (f.closer? 0 (bs.drop (i + 1))).map (· + (i + 1)) := by
  obtain ⟨hlt, -⟩ := List.getElem?_eq_some_iff.1 hi
  have h := (sound_scanTo (Nat.le_of_lt hlt) f).read f b.kind
  rw [resolve, scan_eq hi, Scan.closerOf?_found, Scan.track_run, Scan.track_read]
  exact Track.closerOf?_run h (by simp; omega) (by simp [Track.read_of_opens hb])

/-- The markers know the `else` blocks of a branch that counting behind it finds. -/
theorem elsesOf_resolve (hi : bs[i]? = some b) (hb : b.kind.opens .branch) :
    (resolve bs).elsesOf i = (Block.ownElses 0 (bs.drop (i + 1))).map (· + (i + 1)) := by
  obtain ⟨hlt, -⟩ := List.getElem?_eq_some_iff.1 hi
  have h := (sound_scanTo (Nat.le_of_lt hlt) .branch).read .branch b.kind
  rw [← Scan.track_read] at h
  have hsize := Scan.size_elses_read (scanTo bs i) i b.kind
  rw [size_elses_scanTo] at hsize
  have hempty : ((scanTo bs i).read i b.kind).found.elsesOf i = [] := by
    rw [Scan.elsesOf_read_of_ne (by rwa [size_elses_scanTo]) (Kind.ne_otherwise_of_opens hb),
      elsesOf_scanTo hlt]
  have hopen : ((scanTo bs i).read i b.kind).openBranches[0]? = some i := by
    rw [Scan.openBranches_read, Track.read_of_opens hb]
    rfl
  rw [resolve, scan_eq hi, Scan.elsesOf_run h (by omega) (by simp; omega) hopen, hempty,
    List.nil_append]

end Markers

end BlockPuzzle
