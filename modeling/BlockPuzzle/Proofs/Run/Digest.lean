import BlockPuzzle.Proofs.Run.Collecting
import BlockPuzzle.Proofs.Wire.Reports
import BlockPuzzle.Run.Digest

/-!
# The bytes of a report tell its replay

Nothing in the bytes that stand for a report says how many steps or rows there are. They can be read
from the front all the same: the code of every part tells where it ends, a row by its length and a
name by a zero byte, and the bytes after the last step are too few for another one.

## Main definitions

* `Delimits`: values can be read off the front of their codes.
* `Step.Sized`, `Report.Sized`: boards with a given number of rows, and all numbers have room.
* `Report.Replays`: two reports that show the same replay.

## Main statements

* `Delimits.flatMap`, `Delimits.flatMap_append`: lists of codes, of a known length or before an end
  of a known length.
* `Step.delimits_bytes`: a step can be read off the front of the bytes of a report.
* `Report.bytes_eq_iff_replays`: reports with the same bytes show the same replay.
-/

namespace BlockPuzzle

/-! ## Codes that tell where they end -/

section Delimits

variable {α β : Type} {P : α → Prop} {code : α → List β}

/-- Where the codes of two values that satisfy `P` begin a text, they are one value, and the same is
left of the text. -/
def Delimits (P : α → Prop) (code : α → List β) : Prop :=
  ∀ a b, P a → P b → ∀ xs ys, code a ++ xs = code b ++ ys → a = b ∧ xs = ys

namespace Delimits

theorem of_length (hlength : ∀ a b, P a → P b → (code a).length = (code b).length)
    (hinj : ∀ a b, P a → P b → code a = code b → a = b) : Delimits P code := by
  intro a b ha hb xs ys heq
  obtain ⟨hcode, hrest⟩ := List.append_inj heq (hlength a b ha hb)
  exact ⟨hinj a b ha hb hcode, hrest⟩

/-- An end mark that occurs in no code tells where the code ends. -/
theorem terminated {z : β} (hinj : ∀ a b, P a → P b → code a = code b → a = b)
    (hz : ∀ a, P a → z ∉ code a) : Delimits P fun a => code a ++ [z] := by
  have hcut : ∀ us vs xs ys : List β, z ∉ us → z ∉ vs → us ++ z :: xs = vs ++ z :: ys →
      us = vs ∧ xs = ys := by
    intro us vs xs ys hus hvs heq
    induction us generalizing vs with
    | nil => cases vs <;> grind
    | cons u us ih => cases vs <;> grind
  intro a b ha hb xs ys heq
  simp only [List.append_assoc, List.singleton_append] at heq
  obtain ⟨hcode, hrest⟩ := hcut _ _ _ _ (hz a ha) (hz b hb) heq
  exact ⟨hinj a b ha hb hcode, hrest⟩

/-- Lists of a known length. -/
theorem flatMap (h : Delimits P code) (n : Nat) :
    Delimits (fun as : List α => as.length = n ∧ ∀ a ∈ as, P a) fun as => as.flatMap code := by
  intro as bs ⟨rfl, has⟩ ⟨hlength, hbs⟩ xs ys heq
  induction as generalizing bs with
  | nil =>
    obtain rfl : bs = [] := List.length_eq_zero_iff.1 hlength
    exact ⟨rfl, heq⟩
  | cons a as ih =>
    cases bs with
    | nil => simp at hlength
    | cons b bs =>
      simp only [List.flatMap_cons, List.append_assoc] at heq
      rw [List.forall_mem_cons] at has hbs
      obtain ⟨rfl, hrest⟩ := h a b has.1 hbs.1 _ _ heq
      obtain ⟨rfl, rfl⟩ := ih bs has.2 (by simpa using hlength) hbs.2 hrest
      exact ⟨rfl, rfl⟩

/-- Lists of any lengths, with ends of one length: where one list ends, what is left of the other
text would be too long. -/
theorem flatMap_append (h : Delimits P code) (hne : ∀ a, P a → code a ≠ []) {as bs : List α}
    (has : ∀ a ∈ as, P a) (hbs : ∀ b ∈ bs, P b) {xs ys : List β}
    (heq : as.flatMap code ++ xs = bs.flatMap code ++ ys) (hlength : xs.length = ys.length) :
    as = bs ∧ xs = ys := by
  have hlong : ∀ a (as : List α), P a → ∀ us vs : List β, us.length = vs.length →
      us ≠ (a :: as).flatMap code ++ vs := by
    rintro a as ha us vs hlength rfl
    have hpos := List.length_pos_iff.2 (hne a ha)
    simp only [List.flatMap_cons, List.length_append] at hlength
    omega
  induction as generalizing bs with
  | nil =>
    cases bs with
    | nil => exact ⟨rfl, heq⟩
    | cons b bs => exact absurd heq (hlong b bs (hbs b List.mem_cons_self) xs ys hlength)
  | cons a as ih =>
    cases bs with
    | nil => exact absurd heq.symm (hlong a as (has a List.mem_cons_self) ys xs hlength.symm)
    | cons b bs =>
      simp only [List.flatMap_cons, List.append_assoc] at heq
      rw [List.forall_mem_cons] at has hbs
      obtain ⟨rfl, hrest⟩ := h a b has.1 hbs.1 _ _ heq
      obtain ⟨rfl, rfl⟩ := ih has.2 hbs.2 hrest
      exact ⟨rfl, rfl⟩

end Delimits

end Delimits

/-! ## Numbers and names -/

theorem delimits_littleEndian : Delimits (· < Width.word.size) littleEndian := by
  refine .of_length (fun _ _ _ _ => rfl) fun m n hm hn heq => ?_
  simp only [littleEndian, List.cons.injEq, UInt8.ofNat_eq_iff_mod_eq_toNat,
    UInt8.toNat_ofNat'] at heq
  simp only [Width.size] at hm hn
  omega

theorem wordOfInt_lt (n : Int) : wordOfInt n < Width.word.size := by
  simp only [wordOfInt, Width.size]
  omega

theorem wordOfInt_inj {m n : Int} (hm : Width.word.HasRoom m) (hn : Width.word.HasRoom n)
    (h : wordOfInt m = wordOfInt n) : m = n := by
  simp only [Width.HasRoom, Width.intMin, Width.intMax, Width.size, wordOfInt] at hm hn h
  omega

theorem Action.mem_all (a : Action) : a ∈ all := by
  cases a with
  | move d => cases d <;> decide
  | _ => decide

theorem Action.delimits_name :
    Delimits (fun _ : Action => True) fun a => a.name.toUTF8.toList ++ [0] := by
  have hinj : ∀ a ∈ all, ∀ b ∈ all, a.name.toUTF8.toList = b.name.toUTF8.toList → a = b := by
    decide +kernel
  have hzero : ∀ a ∈ all, 0 ∉ a.name.toUTF8.toList := by decide +kernel
  exact .terminated (fun a b _ _ => hinj a a.mem_all b b.mem_all) fun a _ => hzero a a.mem_all

/-! ## Steps -/

theorem Pose.delimits_bytes : Delimits Pose.Fits Pose.bytes := by
  refine .of_length (fun _ _ _ _ => rfl) fun a b ha hb heq => ?_
  obtain ⟨⟨row, col⟩, facing⟩ := a
  obtain ⟨⟨row', col'⟩, facing'⟩ := b
  simp only [bytes, List.append_assoc] at heq
  obtain ⟨hrow, heq⟩ := delimits_littleEndian _ _ (wordOfInt_lt row) (wordOfInt_lt row') _ _ heq
  obtain ⟨hcol, heq⟩ := delimits_littleEndian _ _ (wordOfInt_lt col) (wordOfInt_lt col') _ _ heq
  obtain rfl := wordOfInt_inj ha.row hb.row hrow
  obtain rfl := wordOfInt_inj ha.col hb.col hcol
  obtain rfl : facing = facing' := by cases facing <;> cases facing' <;> first | rfl | cases heq
  rfl

namespace Grid

variable {rows : Nat} {g : Grid}

/-- There is a number of rows, and the length of every row has room. -/
structure Sized (rows : Nat) (g : Grid) : Prop where
  height : g.height = rows
  row : ∀ row ∈ g.rows, row.length < Width.word.size

theorem delimits_row : Delimits (fun row : List Cell => row.length < Width.word.size)
    fun row => littleEndian row.length ++ row.map Cell.code := by
  intro row row' h h' xs ys heq
  simp only [List.append_assoc] at heq
  obtain ⟨hlength, heq⟩ := delimits_littleEndian _ _ h h' _ _ heq
  obtain ⟨hcodes, hrest⟩ := List.append_inj heq (by simpa using hlength)
  exact ⟨(List.map_inj_right fun _ _ => Cell.code_injective).1 hcodes, hrest⟩

theorem delimits_bytes (rows : Nat) : Delimits (Sized rows) Grid.bytes := by
  intro g g' h h' xs ys heq
  obtain ⟨hrows, hrest⟩ :=
    delimits_row.flatMap rows g.rows g'.rows ⟨h.height, h.row⟩ ⟨h'.height, h'.row⟩ xs ys heq
  exact ⟨congrArg Grid.mk hrows, hrest⟩

theorem Sized.cleared (h : g.Sized rows) (ps : List Position) : (g.cleared ps).Sized rows where
  height := (height_cleared g ps).trans h.height
  row := by
    intro row hrow
    obtain ⟨i, hi, rfl⟩ := List.mem_mapIdx.1 hrow
    rw [List.length_mapIdx]
    exact h.row _ (List.getElem_mem hi)

end Grid

namespace Step

/-- The board has a number of rows, and all numbers have room. -/
structure Sized (rows : Nat) (s : Step) : Prop extends s.Fits where
  grid : s.grid.Sized rows

theorem delimits_bytes (rows : Nat) : Delimits (Sized rows) Step.bytes := by
  intro s s' h h' xs ys heq
  obtain ⟨pose, grid, stars, gems, action⟩ := s
  obtain ⟨pose', grid', stars', gems', action'⟩ := s'
  simp only [bytes, List.append_assoc] at heq
  obtain ⟨hpose, heq⟩ := Pose.delimits_bytes _ _ h.pose h'.pose _ _ heq
  obtain ⟨hgrid, heq⟩ := Grid.delimits_bytes rows _ _ h.grid h'.grid _ _ heq
  obtain ⟨hstars, heq⟩ := delimits_littleEndian _ _ h.stars h'.stars _ _ heq
  obtain ⟨hgems, heq⟩ := delimits_littleEndian _ _ h.gems h'.gems _ _ heq
  obtain ⟨haction, hrest⟩ := Action.delimits_name action action' trivial trivial xs ys
    (by simpa only [List.append_assoc] using heq)
  simp only at hpose hgrid hstars hgems
  subst hpose hgrid hstars hgems haction
  exact ⟨rfl, hrest⟩

theorem bytes_ne_nil (s : Step) : s.bytes ≠ [] := by simp [bytes]

end Step

/-! ## Reports -/

namespace Report

variable {rows : Nat} {r r' : Report}

/-- All boards have a number of rows, and all numbers have room. -/
structure Sized (rows : Nat) (r : Report) : Prop where
  trace : ∀ s ∈ r.trace, s.Sized rows
  totalSteps : r.totalSteps < Width.word.size

/-- The same happens in both reports, and it ends in the same way. Which limit was broken, and what
there was to collect, is not compared. -/
structure Replays (r r' : Report) : Prop where
  trace : r.trace = r'.trace
  reachedGoal : r.reachedGoal = r'.reachedGoal
  perfect : r.perfect = r'.perfect
  failed : r.error.isSome = r'.error.isSome
  totalSteps : r.totalSteps = r'.totalSteps

theorem Replays.bytes_eq (h : r.Replays r') : r.bytes = r'.bytes := by
  simp only [bytes, h.trace, h.reachedGoal, h.perfect, h.failed, h.totalSteps]

theorem Sized.replays (h : r.Sized rows) (h' : r'.Sized rows) (heq : r.bytes = r'.bytes) :
    r.Replays r' := by
  simp only [bytes, List.append_assoc] at heq
  obtain ⟨htrace, hend⟩ := (Step.delimits_bytes rows).flatMap_append (fun s _ => s.bytes_ne_nil)
    h.trace h'.trace heq rfl
  obtain ⟨hflags, hsteps⟩ := List.append_inj hend rfl
  have hbit : ∀ b b' : Bool, (if b then (1 : UInt8) else 0) = (if b' then 1 else 0) → b = b' := by
    decide
  simp only [List.map_cons, List.map_nil, List.cons.injEq] at hflags
  obtain ⟨hgoal, hperfect, hfailed, -⟩ := hflags
  obtain ⟨htotal, -⟩ := delimits_littleEndian _ _ h.totalSteps h'.totalSteps [] []
    (by simpa using hsteps)
  exact ⟨htrace, hbit _ _ hgoal, hbit _ _ hperfect, hbit _ _ hfailed, htotal⟩

end Report

/-- All boards of a run have the rows of the level. -/
theorem sized_runNodes {ns : List Node} {l : Level} {limits : Limits}
    (hrows : ∀ row ∈ l.grid.rows, row.length < Width.word.size)
    (hfits : (runNodes ns l limits).Fits) : (runNodes ns l limits).Sized l.grid.height := by
  refine ⟨fun s hs => ⟨hfits.trace s hs, ?_⟩, hfits.totalSteps⟩
  have hplays := runNodes_plays ns l limits
  obtain ⟨k, hk⟩ := List.getElem?_of_mem hs
  rw [(Step.accounts_of_chain hplays.first hplays.chain hk).grid]
  exact Grid.Sized.cleared ⟨rfl, hrows⟩ _

/-- Reports whose boards have one number of rows, such as those of two runs on one level, have the
same bytes if and only if they show the same replay. -/
theorem Report.bytes_eq_iff_replays :
    (∀ (rows : Nat) (r r' : Report), r.Sized rows → r'.Sized rows →
      (r.bytes = r'.bytes ↔ r.Replays r')) ∧
    ∀ (l : Level) (ns ns' : List Node) (limits limits' : Limits),
      (∀ row ∈ l.grid.rows, row.length < Width.word.size) →
      (runNodes ns l limits).Fits → (runNodes ns' l limits').Fits →
      ((runNodes ns l limits).bytes = (runNodes ns' l limits').bytes ↔
        (runNodes ns l limits).Replays (runNodes ns' l limits')) := by
  refine ⟨fun rows r r' h h' => ⟨h.replays h', Replays.bytes_eq⟩, ?_⟩
  intro l ns ns' limits limits' hrows hfits hfits'
  exact ⟨(sized_runNodes hrows hfits).replays (sized_runNodes hrows hfits'), Replays.bytes_eq⟩

/-- A push against the wall, and then a loop. -/
def Node.pushThenLoop : List Node :=
  [.leaf ⟨"push", .move .left, none⟩, ⟨⟨"loop", .loop, some 2⟩, [], none⟩]

/-- After one push one run breaks the limit on moves and the other the limit on nesting. -/
theorem Report.bytes_eq_iff_replays_corner :
    let r := runNodes Node.pushThenLoop Level.corner { maxSteps := 0 }
    let r' := runNodes Node.pushThenLoop Level.corner { maxDepth := 0 }
    r.error = some .tooManySteps ∧ r'.error = some .tooMuchNesting ∧ r.bytes = r'.bytes ∧
      (r.bytes = r'.bytes ↔ r.Replays r') := by
  have hl : Level.corner.FitsInto 3 :=
    ⟨⟨by decide, by decide, ⟨by decide, by decide⟩, by decide⟩, Nat.le_refl 3⟩
  exact ⟨by decide, by decide, by decide +kernel,
    Report.bytes_eq_iff_replays.2 Level.corner Node.pushThenLoop Node.pushThenLoop { maxSteps := 0 }
      { maxDepth := 0 } (by decide) (hl.fits_runNodes (by decide) (by decide))
      (hl.fits_runNodes (by decide) (by decide))⟩

end BlockPuzzle
