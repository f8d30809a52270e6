import BlockPuzzle.Grid.Notation
import BlockPuzzle.Proofs.Grid.Rectangle
import BlockPuzzle.Proofs.Results
import BlockPuzzle.Proofs.Text.Lines
import Mathlib.Data.Set.List

/-!
# Reading and writing maps

## Main definitions

* `Grid.MapRows`: a text and the rows of the map in it.
* `Grid.Judged`: the rows of a map and what they are read as, with one rule for each outcome.
* `Grid.Proper`: a grid with a row, a column and equally long rows.

## Main statements

* `Grid.parse_of_judged`, `Grid.exists_judged`: reading follows the rules, and one of them always
  applies.
* `Grid.parse_iff_judged`: what a text is read as.
* `Grid.parse_render_iff`: which grids are read back from their map.
-/

namespace BlockPuzzle

theorem Cell.ofSymbol?_eq_none {c : Char} (h : c ∉ Set.range Cell.symbol) : ofSymbol? c = none := by
  cases hx : ofSymbol? c with
  | none => rfl
  | some x => exact absurd ⟨x, symbol_of_ofSymbol? hx⟩ h

theorem Cell.not_isBlank_symbol (x : Cell) : ¬ Text.isBlank x.symbol := by
  cases x <;> decide

theorem Cell.symbol_ne_newline (x : Cell) : x.symbol ≠ '\n' := by
  cases x <;> decide

namespace Grid

/-- The rows of the map in the text `s` are its lines without the blanks around them, as far as
anything is left of them. -/
def MapRows (s : List Char) (rows : List (List Char)) : Prop :=
  ∃ ls ts, Text.Lines s ls ∧ List.Forall₂ Text.Trimmed ls ts ∧ rows = ts.filter (· ≠ [])

/-- The length of the first row. -/
def rowWidth (rows : List (List Char)) : Nat := (rows.head?.map List.length).getD 0

/-- A row of symbols that has the right length. -/
def SoundRow (width : Nat) (row : List Char) : Prop :=
  (∀ c ∈ row, c ∈ Set.range Cell.symbol) ∧ row.length = width

/-- What the rows of a map are read as. The first row that is not sound decides, and in it a
character that is no symbol comes before the length. -/
inductive Judged (rows : List (List Char)) : Except GridError Grid → Prop where
  | empty : rows = [] → Judged rows (.error .empty)
  | unknownSymbol {before after : List (List Char)} {front back : List Char} {c : Char} :
      rows = before ++ (front ++ c :: back) :: after →
      (∀ row ∈ before, SoundRow (rowWidth rows) row) →
      (∀ d ∈ front, d ∈ Set.range Cell.symbol) → c ∉ Set.range Cell.symbol →
      Judged rows (.error (.unknownSymbol c before.length front.length))
  | ragged {before after : List (List Char)} {row : List Char} :
      rows = before ++ row :: after → (∀ row ∈ before, SoundRow (rowWidth rows) row) →
      (∀ c ∈ row, c ∈ Set.range Cell.symbol) → row.length ≠ rowWidth rows →
      Judged rows (.error (.ragged before.length (rowWidth rows) row.length))
  | grid {g : Grid} : rows ≠ [] → (∀ row ∈ rows, SoundRow (rowWidth rows) row) →
      g.rows.map (·.map Cell.symbol) = rows → Judged rows (.ok g)

/-- The grid has a row and a column, and its rows are equally long. -/
def Proper (g : Grid) : Prop := 0 < g.height ∧ 0 < g.width ∧ g.Rectangle g.height g.width

/-! ## The rows of a text -/

variable {s : List Char} {rows : List (List Char)} {w : Nat}

theorem mapRows_iff : MapRows s rows ↔ mapRows s = rows := by
  have htrim : Text.Trimmed = fun l t => Text.trim l = t := by
    funext l t
    exact propext Text.trimmed_iff
  have hforall (ls ts : List (List Char)) :
      List.Forall₂ Text.Trimmed ls ts ↔ ls.map Text.trim = ts := by
    rw [htrim, ← List.forall₂_map_left_iff, List.forall₂_eq_eq_eq]
  constructor
  · rintro ⟨ls, ts, hlines, htrimmed, rfl⟩
    rw [mapRows, hlines.trimmed_eq, (hforall ls ts).1 htrimmed]
  · rintro rfl
    obtain ⟨ls, hlines⟩ := Text.exists_lines s
    exact ⟨ls, _, hlines, (hforall ls _).2 rfl, hlines.trimmed_eq⟩

theorem ne_nil_of_mem_mapRows {row : List Char} (h : row ∈ mapRows s) : row ≠ [] := by
  simpa using (List.mem_filter.1 h).2

/-! ## Reading the rows -/

section

variable {row col i : Nat} {l : List Char} {c : Char} {cells : List Cell}

theorem exists_cells (h : ∀ c ∈ l, c ∈ Set.range Cell.symbol) :
    ∃ cells : List Cell, cells.map Cell.symbol = l := by
  rwa [← Set.mem_range, Set.range_list_map]

theorem parseRow_map_symbol (row col : Nat) (cells : List Cell) :
    parseRow row col (cells.map Cell.symbol) = .ok cells := by
  induction cells generalizing col with
  | nil => rfl
  | cons x cells ih => simp [parseRow, ih, Except.map]

theorem parseRow_of_unknown (hc : c ∉ Set.range Cell.symbol) (row col : Nat) (cells : List Cell)
    (back : List Char) : parseRow row col (cells.map Cell.symbol ++ c :: back) =
      .error (.unknownSymbol c row (col + cells.length)) := by
  induction cells generalizing col with
  | nil => simp [parseRow, Cell.ofSymbol?_eq_none hc]
  | cons x cells ih => simp [parseRow, ih, Except.map]; omega

theorem length_of_parseRow (h : parseRow row col l = .ok cells) : cells.length = l.length := by
  induction l generalizing col cells with
  | nil => cases h; rfl
  | cons c l ih =>
    rw [parseRow] at h
    split at h
    · cases h
    · obtain ⟨rest, hrest, rfl⟩ := exists_of_map_eq_ok h
      simp [ih hrest]

/-- The first row is as long as it has to be. -/
theorem parseRows_none (i : Nat) (rows : List (List Char)) :
    parseRows none i rows = parseRows (some (rowWidth rows)) i rows := by
  cases rows with
  | nil => rfl
  | cons l ls =>
    simp only [parseRows]
    cases h : parseRow i 0 l with
    | error e => rfl
    | ok cells => simp [bind, Except.bind, rowWidth, length_of_parseRow h]

theorem parseRows_cons (h : cells.length = w) (i : Nat) (ls : List (List Char)) :
    parseRows (some w) i (cells.map Cell.symbol :: ls) =
      (parseRows (some w) (i + 1) ls).map (cells :: ·) := by
  simp only [parseRows, parseRow_map_symbol, bind, Except.bind, Option.getD_some, if_pos h]
  cases parseRows (some w) (i + 1) ls <;> rfl

theorem parseRows_cons_of_length_ne (h : cells.length ≠ w) (i : Nat) (ls : List (List Char)) :
    parseRows (some w) i (cells.map Cell.symbol :: ls) = .error (.ragged i w cells.length) := by
  simp only [parseRows, parseRow_map_symbol, bind, Except.bind, Option.getD_some, if_neg h]
  rfl

theorem parseRows_cons_of_unknown (hc : c ∉ Set.range Cell.symbol) (i : Nat) (cells : List Cell)
    (back : List Char) (ls : List (List Char)) :
    parseRows (some w) i ((cells.map Cell.symbol ++ c :: back) :: ls) =
      .error (.unknownSymbol c i cells.length) := by
  simp [parseRows, parseRow_of_unknown hc, bind, Except.bind]

/-- Rows of cells that are long enough are read one by one. -/
theorem parseRows_append {before : List (List Cell)} (h : ∀ cells ∈ before, cells.length = w)
    (i : Nat) (ls : List (List Char)) :
    parseRows (some w) i (before.map (·.map Cell.symbol) ++ ls) =
      (parseRows (some w) (i + before.length) ls).map (before ++ ·) := by
  induction before generalizing i with
  | nil => cases h : parseRows (some w) i ls <;> simp [Except.map, h]
  | cons cells before ih =>
    rw [List.forall_mem_cons] at h
    rw [List.map_cons, List.cons_append, parseRows_cons h.1, ih h.2, List.length_cons,
      Nat.add_right_comm, ← Nat.add_assoc]
    cases parseRows (some w) (i + before.length + 1) ls <;> rfl

end

/-! ## The rules -/

theorem soundRow_map {row : List Cell} : SoundRow w (row.map Cell.symbol) ↔ row.length = w := by
  simp [SoundRow]

/-- Sound rows are the symbols of cells. -/
theorem exists_rows (h : ∀ row ∈ rows, SoundRow w row) :
    ∃ cells : List (List Cell), cells.map (·.map Cell.symbol) = rows ∧
      ∀ row ∈ cells, row.length = w := by
  have hrows : rows ∈ Set.range (List.map (List.map Cell.symbol)) := by
    rw [Set.range_list_map]
    intro row hrow
    exact exists_cells (h row hrow).1
  obtain ⟨cells, rfl⟩ := hrows
  simp only [List.forall_mem_map, soundRow_map] at h
  exact ⟨cells, rfl, h⟩

theorem parseRows_of_judged {r : Except GridError Grid} (h : Judged rows r) (hne : rows ≠ []) :
    (parseRows (some (rowWidth rows)) 0 rows).map .mk = r := by
  cases h with
  | empty hrows => exact absurd hrows hne
  | unknownSymbol hrows hbefore hfront hc =>
    obtain ⟨cells, rfl, hlength⟩ := exists_rows hbefore
    obtain ⟨xs, rfl⟩ := exists_cells hfront
    generalize rowWidth rows = w at *
    rw [hrows, parseRows_append hlength, parseRows_cons_of_unknown hc]
    simp [Except.map]
  | ragged hrows hbefore hrow hlast =>
    obtain ⟨cells, rfl, hlength⟩ := exists_rows hbefore
    obtain ⟨xs, rfl⟩ := exists_cells hrow
    generalize rowWidth rows = w at *
    rw [hrows, parseRows_append hlength, parseRows_cons_of_length_ne (by simpa using hlast)]
    simp [Except.map]
  | @grid g _ hsound hg =>
    generalize rowWidth rows = w at *
    subst hg
    simp only [List.forall_mem_map, soundRow_map] at hsound
    rw [← List.append_nil (g.rows.map _), parseRows_append hsound]
    simp [parseRows, Except.map]

theorem parse_of_judged {map : String} {r : Except GridError Grid}
    (h : Judged (mapRows map.toList) r) : parse map = r := by
  rw [parse]
  cases hrows : mapRows map.toList with
  | nil =>
    rw [hrows] at h
    cases h with
    | empty => rfl
    | unknownSymbol hsplit | ragged hsplit => simp at hsplit
    | grid hne => exact absurd rfl hne
  | cons row rows =>
    have hr := parseRows_of_judged h (by simp [hrows])
    rw [← parseRows_none, hrows] at hr
    subst hr
    dsimp only
    cases parseRows none 0 (row :: rows) <;> rfl

/-- Either all members of a list have a property, or there is a first one that has not. -/
theorem forall_or_exists_first {α : Type} (p : α → Prop) (xs : List α) :
    (∀ x ∈ xs, p x) ∨ ∃ front x back, xs = front ++ x :: back ∧ (∀ y ∈ front, p y) ∧ ¬ p x := by
  induction xs with
  | nil => exact .inl (by simp)
  | cons x xs ih =>
    by_cases hx : p x
    · rcases ih with hall | ⟨front, y, back, rfl, hfront, hy⟩
      · exact .inl (List.forall_mem_cons.2 ⟨hx, hall⟩)
      · exact .inr ⟨x :: front, y, back, rfl, List.forall_mem_cons.2 ⟨hx, hfront⟩, hy⟩
    · exact .inr ⟨[], x, xs, rfl, by simp, hx⟩

theorem exists_judged (rows : List (List Char)) : ∃ r, Judged rows r := by
  by_cases hne : rows = []
  · exact ⟨_, .empty hne⟩
  rcases forall_or_exists_first (SoundRow (rowWidth rows)) rows with
    hsound | ⟨before, row, after, hrows, hbefore, hrow⟩
  · obtain ⟨cells, hcells, -⟩ := exists_rows hsound
    exact ⟨_, .grid (g := ⟨cells⟩) hne hsound hcells⟩
  · rcases forall_or_exists_first (· ∈ Set.range Cell.symbol) row with
      hsymbols | ⟨front, c, back, rfl, hfront, hc⟩
    · exact ⟨_, .ragged hrows hbefore hsymbols fun hlength => hrow ⟨hsymbols, hlength⟩⟩
    · exact ⟨_, .unknownSymbol hrows hbefore hfront hc⟩

theorem judged_parse (map : String) : Judged (mapRows map.toList) (parse map) := by
  obtain ⟨r, hr⟩ := exists_judged (mapRows map.toList)
  rwa [parse_of_judged hr]

/-- A text is read as what the rules say about its rows, and one of them always applies: there is
no row; or there are rows, and the first that is not sound has an unknown symbol, or else another
length than the first row; or all rows are sound, and the grid has the cell of every symbol in its
place. -/
theorem parse_iff_judged (map : String) (r : Except GridError Grid) :
    parse map = r ↔ ∃ rows, MapRows map.toList rows ∧ Judged rows r := by
  constructor
  · rintro rfl
    exact ⟨_, mapRows_iff.2 rfl, judged_parse map⟩
  · rintro ⟨rows, hrows, hr⟩
    rw [← mapRows_iff.1 hrows] at hr
    exact parse_of_judged hr

/-- An unknown symbol comes before the length of its row, and after that of the row above it. -/
example : parse ".\n ..x" = .error (.unknownSymbol 'x' 1 2) ∧
    parse ".\n..\n x" = .error (.ragged 1 1 2) := ⟨rfl, rfl⟩

/-! ## Maps of grids -/

variable {g : Grid}

theorem rowWidth_map (rows : List (List Cell)) :
    rowWidth (rows.map (·.map Cell.symbol)) = (⟨rows⟩ : Grid).width := by
  cases rows <;> simp [rowWidth, width]

theorem proper_of_judged (hrows : ∀ row ∈ rows, row ≠ []) (h : Judged rows (.ok g)) : g.Proper := by
  cases h with
  | grid hne hsound hg =>
    subst hg
    simp only [List.forall_mem_map, rowWidth_map, soundRow_map] at hsound
    have hpos : ∀ row ∈ g.rows, 0 < row.length := by simpa [List.length_pos_iff] using hrows
    obtain ⟨row, hrow⟩ := List.exists_mem_of_ne_nil _ (by simpa using hne : g.rows ≠ [])
    refine ⟨List.length_pos_of_mem hrow, ?_, rfl, hsound⟩
    rw [← hsound row hrow]
    exact hpos row hrow

theorem judged_of_proper (h : g.Proper) : Judged (g.rows.map (·.map Cell.symbol)) (.ok g) := by
  obtain ⟨hheight, -, hrectangle⟩ := h
  refine .grid ?_ ?_ rfl
  · simpa [height, List.length_pos_iff] using hheight
  · simpa only [List.forall_mem_map, rowWidth_map, soundRow_map] using hrectangle.length_row

theorem mapRows_render (h : g.Proper) :
    mapRows g.render.toList = g.rows.map (·.map Cell.symbol) := by
  obtain ⟨hheight, hwidth, hrectangle⟩ := h
  have hrows : g.rows ≠ [] := List.length_pos_iff.1 hheight
  have hpos : ∀ row ∈ g.rows, row ≠ [] := by
    intro row hrow
    have hlength := hrectangle.length_row row hrow
    exact List.length_pos_iff.1 (by omega)
  have hlines : g.render.toList = ['\n'].intercalate (g.rows.map (·.map Cell.symbol)) := by
    simp [render, String.toList_intercalate, Function.comp_def]
  have htrim (row : List Cell) : Text.trim (row.map Cell.symbol) = row.map Cell.symbol :=
    Text.trim_of_forall (by simp [Cell.not_isBlank_symbol])
  have hbreaks : ∀ l ∈ g.rows.map (·.map Cell.symbol), '\n' ∉ l := by simp [Cell.symbol_ne_newline]
  rw [mapRows, hlines, Text.lines_intercalate (by simpa using hrows) hbreaks]
  simp only [List.map_map, Function.comp_def, htrim]
  simpa using hpos

theorem parse_render_of_proper (h : g.Proper) : parse g.render = .ok g := by
  apply parse_of_judged
  rw [mapRows_render h]
  exact judged_of_proper h

theorem proper_of_parse {map : String} (h : parse map = .ok g) : g.Proper := by
  have hjudged := judged_parse map
  rw [h] at hjudged
  exact proper_of_judged (fun _ => ne_nil_of_mem_mapRows) hjudged

/-- A grid is read back from its own map exactly if it has a row, a column and rows of one length.
What any text is read as has these, and so it is read back from its own map. -/
theorem parse_render_iff (g : Grid) :
    (parse g.render = .ok g ↔ g.Proper) ∧
      ∀ map, parse map = .ok g → g.Proper ∧ parse g.render = .ok g :=
  ⟨⟨proper_of_parse, parse_render_of_proper⟩,
    fun _ h => ⟨proper_of_parse h, parse_render_of_proper (proper_of_parse h)⟩⟩

/-- A map with blanks around its rows, between lines that end in both ways. -/
def strayBlanks : String := "\r\n \u3000S.\r\n\n\t#G \n"

def twoByTwo : Grid := ⟨[[.start, .path], [.wall, .goal]]⟩

theorem parse_render_iff_strayBlanks :
    parse strayBlanks = .ok twoByTwo ∧ twoByTwo.Proper ∧ parse twoByTwo.render = .ok twoByTwo := by
  have hparse : parse strayBlanks = .ok twoByTwo := rfl
  exact ⟨hparse, (parse_render_iff twoByTwo).2 strayBlanks hparse⟩

end Grid

end BlockPuzzle
