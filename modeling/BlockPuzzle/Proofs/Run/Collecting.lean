import BlockPuzzle.Proofs.Run.Trace
import BlockPuzzle.Width
import Mathlib.Data.Finset.Card

/-!
# What a run collects

The counters of a step, the board that it shows and the totals of the level fit together: a counter
is the number of different positions that were entered and held something of its kind on the level,
and what was not collected still lies on the board.

## Main definitions

* `Step.entered`: the positions that were entered in a walk.
* `Grid.among`: how many different positions of a list hold a cell of a kind.
* `Step.Accounts`: a step that shows what is left after some positions were entered.

## Main statements

* `Step.accounts_of_chain`: every step of a walk accounts for the positions entered up to it.
* `runNodes_accounts`: so does every step of a report, whose totals are those of the level.
-/

namespace BlockPuzzle

namespace Grid

/-- How many of the positions in `ps`, each counted once, hold `x`. -/
def among (g : Grid) (ps : List Position) (x : Cell) : Nat :=
  (ps.toFinset.filter fun p => g.get? p = some x).card

theorem among_append_singleton (g : Grid) (ps : List Position) (p : Position) (x : Cell) :
    g.among (ps ++ [p]) x = g.among ps x + if p ∉ ps ∧ g.get? p = some x then 1 else 0 := by
  have hinsert : (ps ++ [p]).toFinset = insert p ps.toFinset := by ext q; simp
  unfold among
  rw [hinsert, Finset.filter_insert]
  by_cases hx : g.get? p = some x
  · by_cases hp : p ∈ ps
    · simp [hx, hp]
    · simp [hx, hp]
  · simp [hx]

end Grid

namespace Step

/-- The position that a step has come to, if it was a move. -/
def entered? (s : Step) : Option Position :=
  match s.action with
  | .move _ => some s.pose.position
  | .start | .bump => none

/-- The positions that were entered, in order; one that was entered again is named again. -/
def entered (steps : List Step) : List Position := steps.filterMap entered?

/-- What was collected of a kind. -/
def collected (s : Step) : Cell → Nat
  | .star => s.stars
  | .gem => s.gems
  | _ => 0

/-- The step shows what is left of `g` once the positions in `ps` were entered. Of every kind but
path, what was collected and what is left are together what there was. -/
structure Accounts (g : Grid) (ps : List Position) (s : Step) : Prop where
  grid : s.grid = g.cleared ps
  collected : ∀ x, x.collectible → s.collected x = g.among ps x
  count : ∀ x, x ≠ .path → s.grid.count x + s.collected x = g.count x

variable {g : Grid} {l : Level} {ps : List Position} {s s' : Step} {d : Direction}
  {steps : List Step} {k : Nat}

theorem collected_of_not_collectible {x : Cell} (h : ¬ x.collectible) (s : Step) :
    s.collected x = 0 := by
  cases x <;> first | rfl | exact absurd rfl h

theorem Moves.collected (h : s.Moves d s') {x : Cell} (hx : x.collectible) :
    s'.collected x = s.collected x + if s.grid.cellAt s'.pose.position = x then 1 else 0 := by
  cases x with
  | star => exact h.stars
  | gem => exact h.gems
  | _ => cases hx

theorem accounts_first (l : Level) : (first l).Accounts l.grid [] where
  grid := (Grid.cleared_nil l.grid).symm
  collected x _ := by cases x <;> rfl
  count x _ := by cases x <;> rfl

theorem Accounts.bumps (h : s.Accounts g ps) (hb : s.Bumps s') : s'.Accounts g ps := by
  have hcollected : s'.collected = s.collected := by
    funext x
    cases x <;> simp [Step.collected, hb.stars, hb.gems]
  refine ⟨hb.grid.trans h.grid, ?_, ?_⟩
  · rw [hcollected]; exact h.collected
  · rw [hcollected, hb.grid]; exact h.count

/-- One more position is accounted for, and for a position entered before nothing changes. -/
theorem Accounts.moves (h : s.Accounts g ps) (hm : s.Moves d s') :
    s'.Accounts g (ps ++ [s'.pose.position]) := by
  have hy := Grid.get?_of_walkable hm.walkable
  have hgrid : s'.grid = s.grid.cleared [s'.pose.position] := by
    rw [hm.grid, Grid.cleared_singleton_eq_ite hy]
  refine ⟨?_, ?_, ?_⟩
  · rw [hgrid, h.grid, Grid.cleared_cleared]
  · intro x hx
    have hiff : s.grid.cellAt s'.pose.position = x ↔
        s'.pose.position ∉ ps ∧ g.get? s'.pose.position = some x := by
      rw [← Grid.get?_cleared_of_collectible hx, ← h.grid, hy, Option.some.injEq]
    rw [hm.collected hx, h.collected x hx, Grid.among_append_singleton]
    simp only [hiff]
  · intro x hx
    have hset := Grid.count_set hy (s.grid.cellAt s'.pose.position).taken x
    rw [← Grid.cleared_singleton hy, ← hgrid] at hset
    have hcount := h.count x hx
    by_cases hxc : x.collectible
    · rw [hm.collected hxc]
      simp [Cell.taken_eq_iff hx, hxc] at hset
      omega
    · rw [collected_of_not_collectible hxc] at hcount ⊢
      simp [Cell.taken_eq_iff hx, hxc] at hset
      omega

theorem entered_append (ss ts : List Step) : entered (ss ++ ts) = entered ss ++ entered ts :=
  List.filterMap_append

theorem Moves.entered (h : s.Moves d s') : Step.entered [s'] = [s'.pose.position] := by
  simp [Step.entered, entered?, h.action]

theorem Bumps.entered (h : s.Bumps s') : Step.entered [s'] = [] := by
  simp [Step.entered, entered?, h.action]

theorem Accounts.follows (h : s.Accounts g ps) (hf : s.Follows s') :
    s'.Accounts g (ps ++ entered [s']) := by
  cases hf with
  | move d hm => rw [hm.entered]; exact h.moves hm
  | bump hb => rw [hb.entered, List.append_nil]; exact h.bumps hb

/-- Every step of a walk accounts for the positions that were entered up to it. -/
theorem accounts_of_chain (hfirst : steps.head? = some (first l)) (hchain : steps.IsChain Follows)
    (hs : steps[k]? = some s) : s.Accounts l.grid (entered (steps.take (k + 1))) := by
  induction k generalizing s with
  | zero =>
    obtain ⟨rest, rfl⟩ := List.head?_eq_some_iff.1 hfirst
    obtain rfl : first l = s := by simpa using hs
    exact accounts_first l
  | succ k ih =>
    obtain ⟨hk, rfl⟩ := List.getElem?_eq_some_iff.1 hs
    have hprev := ih (List.getElem?_eq_getElem (by omega))
    rw [List.take_add_one, hs, entered_append]
    exact hprev.follows (List.isChain_iff_getElem.1 hchain k hk)

end Step

/-- The positions that the moves up to step `k` have entered. -/
def Report.enteredBy (r : Report) (k : Nat) : List Position := Step.entered (r.trace.take (k + 1))

/-- Every step of a report shows what is left of the level once the positions were entered that the
moves up to it have come to, the start not among them. Its counters are the numbers of different
positions there that hold a star or a gem on the level, and with what is left they make the totals,
which have room in words. -/
theorem runNodes_accounts (nodes : List Node) (l : Level) (limits : Limits)
    (hsize : l.grid.rows.flatten.length < Width.word.size) {k : Nat} {s : Step}
    (hs : (runNodes nodes l limits).trace[k]? = some s) :
    s.grid = l.grid.cleared ((runNodes nodes l limits).enteredBy k) ∧
      s.stars = l.grid.among ((runNodes nodes l limits).enteredBy k) .star ∧
      s.gems = l.grid.among ((runNodes nodes l limits).enteredBy k) .gem ∧
      s.grid.count .star + s.stars = (runNodes nodes l limits).totalStars ∧
      s.grid.count .gem + s.gems = (runNodes nodes l limits).totalGems ∧
      (∀ x ∈ [Cell.wall, .water, .lava, .goal, .start], s.grid.count x = l.grid.count x) ∧
      (runNodes nodes l limits).totalStars < Width.word.size ∧
      (runNodes nodes l limits).totalGems < Width.word.size := by
  have hplays := (Run.sound_ofNodes limits nodes l).plays l.grid
  have h := Step.accounts_of_chain hplays.first hplays.chain hs
  have hle (x : Cell) : l.grid.count x < Width.word.size :=
    Nat.lt_of_le_of_lt List.count_le_length hsize
  refine ⟨h.grid, h.collected .star rfl, h.collected .gem rfl, h.count .star nofun,
    h.count .gem nofun, ?_, hle .star, hle .gem⟩
  intro x hx
  have hpath : x ≠ .path := by rintro rfl; simp at hx
  have hnot : ¬ x.collectible := by
    intro hc
    cases x <;> simp_all [Cell.collectible]
  have hcount := h.count x hpath
  rwa [Step.collected_of_not_collectible hnot, Nat.add_zero] at hcount

/-- A star at the start with a gem beside it. -/
def Level.pair : Level := { grid := ⟨[[.star, .gem]]⟩, start := ⟨⟨0, 0⟩, .right⟩ }

/-- To the right, back, and to the right again. -/
def Node.toAndFro : List Node :=
  [.right, .left, .right].map fun d => Node.leaf ⟨"step", .move d, none⟩

/-- The gem that is entered twice counts once, and the star under the start counts on the way
back. -/
theorem runNodes_accounts_toAndFro :
    (runNodes Node.toAndFro Level.pair).enteredBy 3 = [⟨0, 1⟩, ⟨0, 0⟩, ⟨0, 1⟩] ∧
      Level.pair.grid.among ((runNodes Node.toAndFro Level.pair).enteredBy 3) .gem = 1 ∧
      Level.pair.grid.among ((runNodes Node.toAndFro Level.pair).enteredBy 3) .star = 1 := by
  have hs : (runNodes Node.toAndFro Level.pair).trace[3]? =
      some ⟨⟨⟨0, 1⟩, .right⟩, ⟨[[.path, .path]]⟩, 1, 1, .move .right⟩ := by decide
  obtain ⟨-, hstars, hgems, -⟩ := runNodes_accounts Node.toAndFro Level.pair {} (by decide) hs
  exact ⟨by decide, hgems.symm, hstars.symm⟩

end BlockPuzzle
