import BlockPuzzle.Proofs.Program.Filing
import BlockPuzzle.Proofs.Run.Widening

/-!
# Programs one after the other

A program in which every opener finds its closer keeps to itself: what is written behind it becomes
no part of its bodies. Its tree is then followed by the tree of the rest, and its run by the run of
the rest, unless an error has ended it.

## Main definitions

* `Family.count`: how many openers are open behind a block.
* `Block.Closed`: a program that leaves no opener open.

## Main statements

* `Block.closed_iff`: a program is closed exactly if counting ends at zero in both families.
* `Node.reading_append`, `Run.ofNodesM_append`: reading and running one program after the other.
* `runBlocks?_append`: the trees, traces and reports of a closed program and a longer one.
-/

namespace BlockPuzzle

/-! ## Counting open openers -/

namespace Family

/-- How many openers of the family are open behind a block, if `depth` are open before it. -/
def count (f : Family) (depth : Nat) (k : Kind) : Nat :=
  if k.opens f then depth + 1 else if k.closes f then depth - 1 else depth

/-- How many are open behind a list of blocks. -/
def countAll (f : Family) (depth : Nat) (bs : List Block) : Nat :=
  bs.foldl (fun depth b => f.count depth b.kind) depth

variable {f : Family} {depth : Nat} {b : Block} {bs : List Block}

@[simp] theorem countAll_cons :
    f.countAll depth (b :: bs) = f.countAll (f.count depth b.kind) bs := rfl

theorem countAll_append (f : Family) (depth : Nat) (xs ys : List Block) :
    f.countAll depth (xs ++ ys) = f.countAll (f.countAll depth xs) ys := List.foldl_append

/-- Openers that are open before can only leave more of them open. -/
theorem countAll_mono {more : Nat} (h : depth ≤ more) (bs : List Block) :
    f.countAll depth bs ≤ f.countAll more bs := by
  induction bs generalizing depth more with
  | nil => exact h
  | cons b bs ih =>
    apply ih
    unfold count
    grind

/-- An opener without a closer is still open at the end. -/
theorem exists_closer?_of_countAll (h : f.countAll (depth + 1) bs = 0) :
    ∃ j, f.closer? depth bs = some j := by
  induction bs generalizing depth with
  | nil => cases h
  | cons b bs ih =>
    have next {d : Nat} (hd : f.countAll (d + 1) bs = 0) :
        ∃ j, (f.closer? d bs).map (· + 1) = some j := by
      obtain ⟨j, hj⟩ := ih hd
      exact ⟨j + 1, by rw [hj, Option.map_some]⟩
    rw [closer?]
    by_cases hopens : b.kind.opens f
    · rw [if_pos hopens]
      exact next (by simpa [count, hopens] using h)
    by_cases hcloses : b.kind.closes f
    · rw [if_neg hopens, if_pos hcloses]
      cases depth with
      | zero => exact ⟨0, rfl⟩
      | succ depth => exact next (by simpa [count, hopens, hcloses] using h)
    · rw [if_neg hopens, if_neg hcloses]
      exact next (by simpa [count, hopens, hcloses] using h)

end Family

/-! ## Closed programs -/

namespace Markers

variable {f : Family}

theorem Track.length_openers_read (t : Track) (f : Family) (i : Nat) (k : Kind) :
    (t.read f i k).openers.length = f.count t.openers.length k := by
  unfold read Family.count
  grind

theorem Track.length_openers_run (t : Track) (f : Family) (i : Nat) (bs : List Block) :
    (t.run f i bs).openers.length = f.countAll t.openers.length bs := by
  induction bs generalizing t i with
  | nil => rfl
  | cons b bs ih => rw [run, ih, length_openers_read, Family.countAll_cons]

theorem length_openers_scan (bs : List Block) (f : Family) :
    ((scan bs).track f).openers.length = f.countAll 0 bs := by
  rw [scan, Scan.track_run, Track.length_openers_run]
  cases f <;> rfl

end Markers

namespace Block

/-- A program whose scan ends with no opener open. Closers that close nothing may stand in it. -/
structure Closed (bs : List Block) : Prop where
  openLoops : (Markers.scan bs).openLoops = []
  openBranches : (Markers.scan bs).openBranches = []

theorem closed_iff {bs : List Block} : Closed bs ↔ ∀ f : Family, f.countAll 0 bs = 0 := by
  have hloop := Markers.length_openers_scan bs .loop
  have hbranch := Markers.length_openers_scan bs .branch
  constructor
  · rintro ⟨hl, hb⟩ f
    cases f
    · rw [← hloop]
      exact congrArg List.length hl
    · rw [← hbranch]
      exact congrArg List.length hb
  · intro h
    rw [h] at hloop hbranch
    exact ⟨List.length_eq_zero_iff.1 hloop, List.length_eq_zero_iff.1 hbranch⟩

/-- The end of a closed program is closed, for what is open before it does not help it. -/
theorem Closed.drop {bs : List Block} (h : Closed bs) (n : Nat) : Closed (bs.drop n) := by
  rw [closed_iff] at h ⊢
  intro f
  have hsplit := f.countAll_append 0 (bs.take n) (bs.drop n)
  rw [List.take_append_drop, h f] at hsplit
  have hle := f.countAll_mono (Nat.zero_le (f.countAll 0 (bs.take n))) (bs.drop n)
  omega

end Block

namespace Family

variable {f : Family} {b : Block} {bs : List Block}

/-- In a closed program the scan for a closer ends before the rest is looked at. -/
theorem closer?_append {depth j : Nat} (h : f.closer? depth bs = some j) (rest : List Block) :
    f.closer? depth (bs ++ rest) = some j := by
  have htake := f.closer?_take depth bs.length (bs ++ rest)
  rw [List.take_left, h] at htake
  exact (Option.filter_eq_some_iff.1 htake.symm).1

theorem exists_closer?_of_closed (h : Block.Closed (b :: bs)) (hb : b.kind.opens f) :
    ∃ j, f.closer? 0 bs = some j := by
  have hcount := Block.closed_iff.1 h f
  apply exists_closer?_of_countAll
  simpa [count, hb] using hcount

theorem region_append (h : Block.Closed (b :: bs)) (hb : b.kind.opens f) (rest : List Block) :
    f.region (bs ++ rest) = f.region bs := by
  obtain ⟨j, hj⟩ := exists_closer?_of_closed h hb
  have hlt := closer?_lt hj
  rw [region, region, closer?_append hj, hj]
  exact List.take_append_of_le_length (Nat.le_of_lt hlt)

theorem after_append (h : Block.Closed (b :: bs)) (hb : b.kind.opens f) (rest : List Block) :
    f.after (bs ++ rest) = f.after bs ++ rest := by
  obtain ⟨j, hj⟩ := exists_closer?_of_closed h hb
  have hlt := closer?_lt hj
  rw [after, after, closer?_append hj, hj]
  exact List.drop_append_of_le_length hlt

theorem closed_after (h : Block.Closed (b :: bs)) (f : Family) : Block.Closed (f.after bs) := by
  have htail : Block.Closed bs := h.drop 1
  exact htail.drop _

end Family

/-! ## Reading and running -/

/-- The tree of a closed program is followed by the tree of what stands behind it. -/
theorem Node.reading_append {p : List Block} (h : Block.Closed p) (q : List Block) :
    Node.reading (p ++ q) = Node.reading p ++ Node.reading q := by
  induction p using Node.reading.induct with
  | case1 => rw [List.nil_append, reading, List.nil_append]
  | case2 b bs hk _ ih =>
    have hopens : b.kind.opens .loop := by simp [hk, Kind.opens]
    rw [List.cons_append, reading_cons_of_loop hk, reading_cons_of_loop hk,
      Family.region_append h hopens, Family.after_append h hopens, ih (Family.closed_after h _),
      List.cons_append]
  | case3 b bs p hk _ _ _ _ ih =>
    have hopens : b.kind.opens .branch := by simp [hk, Kind.opens]
    rw [List.cons_append, reading_cons_of_branch hk, reading_cons_of_branch hk,
      Family.region_append h hopens, Family.after_append h hopens, ih (Family.closed_after h _),
      List.cons_append]
  | case4 b bs hk ih | case5 b bs hk ih | case6 b bs hk ih =>
    have hmarker : b.kind.isMarker := by simp [hk, Kind.isMarker]
    rw [List.cons_append, reading_cons_of_isMarker hmarker, reading_cons_of_isMarker hmarker]
    exact ih (h.drop 1)
  | case7 b bs d hk ih | case8 b bs hk ih =>
    have hopener : ¬ b.kind.isOpener := by simp [hk, Kind.isOpener]
    have hmarker : ¬ b.kind.isMarker := by simp [hk, Kind.isMarker]
    rw [List.cons_append, reading_cons_of_leaf hopener hmarker,
      reading_cons_of_leaf hopener hmarker, ih (h.drop 1), List.cons_append]

/-- The rest of a program runs on from where its beginning has come to. -/
theorem Run.ofNodesM_append {M : Type → Type} [Monad M] [LawfulMonad M] (e : Engine M)
    (limits : Limits) (xs ys : List Node) (l : Level) :
    Run.ofNodesM e limits (xs ++ ys) l =
      Run.ofNodesM e limits xs l >>= Node.execAllM e limits ys 0 := by
  rw [ofNodesM, ofNodesM, enterM, enterM, if_neg (Nat.not_lt_zero _), if_neg (Nat.not_lt_zero _)]
  exact Node.execAllM_append xs ys (Run.begin l)

/-- A run of the whole has come to an end of the beginning, which its history continues. -/
theorem Run.exists_of_ofNodes?_append {limits : Limits} {xs ys : List Node} {l : Level} {r' : Run}
    (h : Run.ofNodes? limits (xs ++ ys) l = .ok r') :
    ∃ r, Run.ofNodes? limits xs l = .ok r ∧ r.history <:+ r'.history := by
  rw [ofNodes?, ofNodesM_append] at h
  obtain ⟨r, hr, hrest⟩ := exists_of_bind_eq_ok h
  exact ⟨r, hr, Node.grows_execAllM limits ys 0 r r' hrest⟩

/-- Where an error has ended the beginning, the rest does nothing. -/
theorem Run.ofNodes?_append_of_isSome_error {limits : Limits} {xs : List Node} {l : Level} {r : Run}
    (h : Run.ofNodes? limits xs l = .ok r) (herror : r.error.isSome) (ys : List Node) :
    Run.ofNodes? limits (xs ++ ys) l = .ok r := by
  have hidle : Node.execAllM .checked limits ys 0 r = .ok r := Node.execAllM_of_isSome_error herror
  rw [ofNodes?] at h ⊢
  rw [ofNodesM_append, h]
  exact hidle

/-- Behind a closed program the tree goes on with the tree of the rest. On every level and under all
limits the trace can only become longer, unless the run breaks off, and a run that has ended with an
error stays as it is. On a level that has room there are always reports. -/
theorem runBlocks?_append {p : List Block} (h : Block.Closed p) (q : List Block) :
    Node.ofBlocks (p ++ q) = Node.ofBlocks p ++ Node.ofBlocks q ∧
      ∀ (l : Level) (limits : Limits),
        (∀ whole, runBlocks? (p ++ q) l limits = .ok whole →
          ∃ report, runBlocks? p l limits = .ok report ∧ report.trace <+: whole.trace) ∧
        (∀ report, runBlocks? p l limits = .ok report → report.error ≠ none →
          runBlocks? (p ++ q) l limits = .ok report) ∧
        (l.HasRoom → ∀ bs, ∃ report, runBlocks? bs l limits = .ok report) := by
  have htree : Node.ofBlocks (p ++ q) = Node.ofBlocks p ++ Node.ofBlocks q := by
    rw [Node.ofBlocks_eq, Node.ofBlocks_eq, Node.ofBlocks_eq]
    exact Node.reading_append h q
  refine ⟨htree, fun l limits =>
    ⟨?_, ?_, fun hroom bs => ⟨_, runNodes?_of_hasRoom hroom (Node.ofBlocks bs) limits⟩⟩⟩
  · intro whole hwhole
    rw [runBlocks?, htree] at hwhole
    obtain ⟨r', hr', rfl⟩ := runNodes?_eq_ok_iff_exists.1 hwhole
    obtain ⟨r, hr, hsuffix⟩ := Run.exists_of_ofNodes?_append hr'
    exact ⟨_, runNodes?_eq_ok_iff_exists.2 ⟨r, hr, rfl⟩, List.reverse_prefix.2 hsuffix⟩
  · intro report hreport herror
    obtain ⟨r, hr, rfl⟩ := runNodes?_eq_ok_iff_exists.1 hreport
    have hwhole := Run.ofNodes?_append_of_isSome_error hr (Option.isSome_iff_ne_none.2 herror)
      (Node.ofBlocks q)
    rw [runBlocks?, htree]
    exact runNodes?_eq_ok_iff_exists.2 ⟨r, hwhole, rfl⟩

/-- An agent that looks at a wall. -/
def Level.facingWall : Level := { grid := ⟨[[.wall, .path]]⟩, start := ⟨⟨0, 1⟩, .left⟩ }

/-- A loop and a branch, each closed behind the closer of the other, between two closers that close
nothing. -/
def Block.crossed : List Block :=
  [⟨"early", .endBranch, none⟩, ⟨"three", .loop, some 3⟩, ⟨"wall", .branch .wallAhead, none⟩,
    ⟨"push", .move .left, none⟩, ⟨"round", .endLoop, none⟩, ⟨"else", .otherwise, none⟩,
    ⟨"end", .endBranch, none⟩, ⟨"late", .endLoop, none⟩]

/-- Markers that would close what the program has opened, had it not done so itself. -/
def Block.closers : List Block :=
  [⟨"else", .otherwise, none⟩, ⟨"end", .endBranch, none⟩, ⟨"round", .endLoop, none⟩,
    ⟨"turn", .move .right, none⟩]

theorem Level.hasRoom_facingWall : Level.facingWall.HasRoom := ⟨by decide, by decide, by decide⟩

/-- The second push is one too many, and what is written behind does not change that. -/
theorem runBlocks?_append_crossed :
    Block.Closed Block.crossed ∧
      Node.ofBlocks (Block.crossed ++ Block.closers) =
        Node.ofBlocks Block.crossed ++ Node.ofBlocks Block.closers ∧
      ∃ report, report.error = some .tooManySteps ∧
        runBlocks? Block.crossed Level.facingWall { maxSteps := 1 } = .ok report ∧
        runBlocks? (Block.crossed ++ Block.closers) Level.facingWall { maxSteps := 1 } =
          .ok report := by
  have hclosed : Block.Closed Block.crossed := ⟨rfl, rfl⟩
  have hreport := runNodes?_of_hasRoom Level.hasRoom_facingWall (Node.ofBlocks Block.crossed)
    { maxSteps := 1 }
  have herror : (runBlocks Block.crossed Level.facingWall { maxSteps := 1 }).error =
      some .tooManySteps := by decide
  obtain ⟨htree, hruns⟩ := runBlocks?_append hclosed Block.closers
  obtain ⟨-, hstays, -⟩ := hruns Level.facingWall { maxSteps := 1 }
  refine ⟨hclosed, htree, _, herror, hreport, hstays _ hreport ?_⟩
  intro hnone
  rw [hnone] at herror
  cases herror

/-- An opener that is left open takes in what follows. -/
example : Node.ofBlocks ([⟨"a", .loop, none⟩] ++ [⟨"b", .unknown, none⟩]) ≠
    Node.ofBlocks [⟨"a", .loop, none⟩] ++ Node.ofBlocks [⟨"b", .unknown, none⟩] := by
  intro h
  have hlength : 1 = 2 := congrArg List.length h
  cases hlength

end BlockPuzzle
