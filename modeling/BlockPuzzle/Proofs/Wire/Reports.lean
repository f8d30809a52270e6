import BlockPuzzle.Proofs.Run.Budget
import BlockPuzzle.Proofs.Run.Positions
import BlockPuzzle.Proofs.Wire.Decoding

/-!
# The numbers in a report

A run enters cells only, so that its positions are those of the grid, and what it collects was there
before. The numbers in its report are therefore bounded by the size of the level, and those of a
level by the length of the text that it was read from.

## Main statements

* `Level.FitsInto.fits_runNodes`: the numbers in a report have room in their words.
-/

namespace BlockPuzzle

/-! ## The size of a grid -/

namespace Grid

variable {n : Nat} {g : Grid} {p : Position}

theorem width_le (g : Grid) : g.width ≤ g.rows.flatten.length := by
  obtain ⟨rows⟩ := g
  cases rows with
  | nil => exact Nat.zero_le _
  | cons row rows => simp [width]

theorem FitsInto.count_le (h : g.FitsInto n) (x : Cell) : g.count x ≤ n := by
  have hcount : g.count x ≤ g.rows.flatten.length := List.count_le_length
  rw [FitsInto] at h
  omega

theorem FitsInto.hasRoom (h : g.FitsInto n) (hn : 2 * n ≤ Width.word.size) (hp : g.InBounds p) :
    Width.word.HasRoom p.row ∧ Width.word.HasRoom p.col := by
  obtain ⟨hrow, hcol, hheight, hwidth⟩ := hp
  have hle := g.width_le
  rw [FitsInto] at h
  simp only [Width.HasRoom, Width.intMin, Width.intMax]
  omega

end Grid

/-! ## Reports -/

theorem count_le_of_accounts {g : Grid} {ps : List Position} {s : Step} (h : s.Accounts g ps) :
    s.stars ≤ g.count .star ∧ s.gems ≤ g.count .gem := by
  have hstars := h.count .star nofun
  have hgems := h.count .gem nofun
  simp only [Step.collected] at hstars hgems
  omega

/-- The numbers in a report have room in their words, if the level has no more cells than a text of
2^31 characters has room for, and if the steps can be counted. -/
theorem Level.FitsInto.fits_runNodes {n : Nat} {l : Level} (hl : l.FitsInto n)
    (hn : 2 * n ≤ Width.word.size) {ns : List Node} {limits : Limits}
    (hsteps : (runNodes ns l limits).totalSteps < Width.word.size) :
    (runNodes ns l limits).Fits := by
  have hplays := (Run.sound_ofNodes limits ns l).plays l.grid
  have hstars := hl.grid.count_le .star
  have hgems := hl.grid.count_le .gem
  have hsize : n < Width.word.size := by
    simp only [Width.size] at hn ⊢
    omega
  have htrace : ∀ s ∈ (runNodes ns l limits).trace, s.Fits := by
    intro s hs
    obtain ⟨k, hk⟩ := List.getElem?_of_mem hs
    have hle := count_le_of_accounts (Step.accounts_of_chain hplays.first hplays.chain hk)
    have hroom : Width.word.HasRoom s.pose.position.row ∧
        Width.word.HasRoom s.pose.position.col := by
      obtain hstart | hcell := Step.position_of_chain hplays.first hplays.chain hk
      · rw [hstart]
        exact ⟨hl.start.row, hl.start.col⟩
      · exact hl.grid.hasRoom hn (Grid.inBounds_of_get? (Grid.get?_of_walkable hcell))
    exact ⟨⟨hroom.1, hroom.2⟩, by omega, by omega⟩
  obtain ⟨s, hlast, hs, hg⟩ := hplays.last
  have hfits := htrace s (List.mem_of_getLast? hlast)
  exact ⟨htrace, hs ▸ hfits.stars, hg ▸ hfits.gems, Nat.lt_of_le_of_lt hstars hsize,
    Nat.lt_of_le_of_lt hgems hsize, hsteps⟩

/-- Steps can be counted under any limit but the greatest. -/
theorem totalSteps_lt {l : Level} {ns : List Node} {limits : Limits}
    (hlimits : limits.maxSteps + 1 < Width.word.size) :
    (runNodes ns l limits).totalSteps < Width.word.size :=
  Nat.lt_of_le_of_lt (Run.budget_ofNodes limits ns l).steps_le hlimits

end BlockPuzzle
