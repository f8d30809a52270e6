import BlockPuzzle.Text.Blank
import Mathlib.Data.List.DropRight
import Mathlib.Data.List.Forall2

/-!
# What the lines of a text are

The lines of a text, and a line without the blanks around it, described apart from how they are
found. Lines end at a line feed, together with one carriage return in front of it, and a text that
ends with a line has no empty line behind it. Searching for line feeds alone finds other lines than
these, but not once they are trimmed and the empty ones dropped.

## Main definitions

* `Text.Lines`: a text and its lines.
* `Text.Trimmed`: a text and what is left of it without the blanks at its ends.

## Main statements

* `Text.exists_lines`: every text has lines.
* `Text.Lines.trimmed_eq`: what is left of them is what a search for line feeds leaves.
* `Text.trimmed_iff`: a text is trimmed in one way only.
-/

namespace BlockPuzzle.Text

/-- A text and its lines, without what ends them. -/
inductive Lines : List Char → List (List Char) → Prop where
  | nil : Lines [] []
  /-- The last line need not be ended. -/
  | last {l : List Char} : l ≠ [] → '\n' ∉ l → Lines l [l]
  | feed {l s : List Char} {ls : List (List Char)} :
      '\n' ∉ l → l.getLast? ≠ some '\r' → Lines s ls → Lines (l ++ '\n' :: s) (l :: ls)
  /-- One carriage return in front of a line feed belongs to the line's end. -/
  | returnFeed {l s : List Char} {ls : List (List Char)} :
      '\n' ∉ l → Lines s ls → Lines (l ++ '\r' :: '\n' :: s) (l :: ls)

/-- `t` is what is left of `s` without the blanks at its two ends. -/
structure Trimmed (s t : List Char) : Prop where
  around : ∃ front back, s = front ++ t ++ back ∧ (∀ c ∈ front, isBlank c) ∧ ∀ c ∈ back, isBlank c
  head : ∀ c ∈ t.head?, ¬ isBlank c
  last : ∀ c ∈ t.getLast?, ¬ isBlank c

variable {s t l front back : List Char} {ls : List (List Char)}

/-! ## Blanks at the ends -/

theorem trimStart_append (h : ∀ c ∈ front, isBlank c) : trimStart (front ++ s) = trimStart s :=
  List.dropWhile_append_of_pos h

theorem trimEnd_append (h : ∀ c ∈ back, isBlank c) : trimEnd (s ++ back) = trimEnd s := by
  have hrev : ∀ c ∈ back.reverse, isBlank c := by simpa using h
  rw [trimEnd, List.reverse_append, trimStart_append hrev, trimEnd]

theorem trimStart_of_head? (h : ∀ c ∈ s.head?, ¬ isBlank c) : trimStart s = s := by
  cases s <;> simp_all [trimStart]

theorem trimEnd_of_getLast? (h : ∀ c ∈ s.getLast?, ¬ isBlank c) : trimEnd s = s := by
  rw [trimEnd, trimStart_of_head? (by simpa using h), List.reverse_reverse]

theorem Trimmed.trim_eq (h : Trimmed s t) : trim s = t := by
  obtain ⟨⟨front, back, rfl, hfront, hback⟩, hhead, hlast⟩ := h
  cases t with
  | nil =>
    have hblank : trimStart back = [] := List.dropWhile_eq_nil_iff.2 hback
    rw [List.append_nil, trim, trimStart_append hfront, hblank]
    rfl
  | cons c t =>
    have hstart : trimStart (c :: t ++ back) = c :: t ++ back := trimStart_of_head? hhead
    rw [trim, List.append_assoc, trimStart_append hfront, hstart, trimEnd_append hback,
      trimEnd_of_getLast? hlast]

theorem trimmed_trim (s : List Char) : Trimmed s (trim s) where
  around := by
    refine ⟨s.takeWhile isBlank, (trimStart s).rtakeWhile isBlank, ?_, ?_, ?_⟩
    · have hback : trim s ++ (trimStart s).rtakeWhile isBlank = trimStart s :=
        List.rdropWhile_append_rtakeWhile
      rw [List.append_assoc, hback]
      exact List.takeWhile_append_dropWhile.symm
    · intro c hc
      exact List.mem_takeWhile_imp hc
    · intro c hc
      exact List.mem_rtakeWhile_imp hc
  head := by
    intro c hc
    obtain ⟨rest, hrest⟩ := List.head?_eq_some_iff.1 hc
    obtain ⟨back, hback⟩ : trim s <+: trimStart s := List.rdropWhile_prefix isBlank (trimStart s)
    have hstart := List.head?_dropWhile_not isBlank s
    have hkept : s.dropWhile isBlank = c :: rest ++ back := by rw [← hrest, hback, trimStart]
    rw [hkept] at hstart
    simpa using hstart
  last := by
    intro c hc
    obtain ⟨hne, rfl⟩ := List.mem_getLast?_eq_getLast hc
    exact List.rdropWhile_last_not isBlank (trimStart s) hne

theorem trimmed_iff : Trimmed s t ↔ trim s = t := by
  constructor
  · exact Trimmed.trim_eq
  · rintro rfl
    exact trimmed_trim s

/-- A text without blanks at its ends stays as it is. -/
theorem trim_of_forall (h : ∀ c ∈ s, ¬ isBlank c) : trim s = s :=
  Trimmed.trim_eq ⟨⟨[], [], by simp, by simp, by simp⟩, fun c hc => h c (List.mem_of_mem_head? hc),
    fun c hc => h c (List.mem_of_getLast? hc)⟩

theorem trim_append (h : ∀ c ∈ back, isBlank c) : trim (s ++ back) = trim s := by
  obtain ⟨⟨front, rest, hs, hfront, hrest⟩, hhead, hlast⟩ := trimmed_trim s
  refine Trimmed.trim_eq ⟨⟨front, rest ++ back, ?_, hfront, ?_⟩, hhead, hlast⟩
  · rw [← List.append_assoc, ← hs]
  · exact List.forall_mem_append.2 ⟨hrest, h⟩

/-! ## Lines between line feeds -/

theorem lines_of_notMem (h : '\n' ∉ l) : lines l = [l] := by
  induction l with
  | nil => rfl
  | cons c l ih =>
    obtain ⟨hc, hl⟩ := not_or.1 (mt List.mem_cons.2 h)
    rw [lines, if_neg (Ne.symm hc), ih hl]

theorem lines_append_newline (h : '\n' ∉ l) (s : List Char) :
    lines (l ++ '\n' :: s) = l :: lines s := by
  induction l with
  | nil => rw [List.nil_append, lines_newline]
  | cons c l ih =>
    obtain ⟨hc, hl⟩ := not_or.1 (mt List.mem_cons.2 h)
    rw [List.cons_append, lines, if_neg (Ne.symm hc), ih hl]

theorem lines_intercalate (hne : ls ≠ []) (h : ∀ l ∈ ls, '\n' ∉ l) :
    lines (['\n'].intercalate ls) = ls := by
  induction ls with
  | nil => exact absurd rfl hne
  | cons l ls ih =>
    rw [List.forall_mem_cons] at h
    cases ls with
    | nil => simpa using lines_of_notMem h.1
    | cons l' ls =>
      rw [List.intercalate_cons_cons, List.append_assoc, List.singleton_append,
        lines_append_newline h.1, ih (by simp) h.2]

/-! ## The lines of a text -/

theorem exists_lines (s : List Char) : ∃ ls, Lines s ls := by
  induction s with
  | nil => exact ⟨[], .nil⟩
  | cons c s ih =>
    obtain ⟨ls, h⟩ := ih
    by_cases hfeed : c = '\n'
    · subst hfeed
      exact ⟨[] :: ls, .feed (l := []) (by simp) (by simp) h⟩
    have hmem {l : List Char} (hl : '\n' ∉ l) : '\n' ∉ c :: l := by simp [hl, Ne.symm hfeed]
    cases h with
    | nil => exact ⟨[[c]], .last (by simp) (hmem (by simp))⟩
    | last hne hl => exact ⟨[c :: s], .last (by simp) (hmem hl)⟩
    | @feed l s ls hl hreturn h =>
      by_cases hnew : l = [] ∧ c = '\r'
      · obtain ⟨rfl, rfl⟩ := hnew
        exact ⟨[] :: ls, .returnFeed (l := []) (by simp) h⟩
      · refine ⟨(c :: l) :: ls, .feed (l := c :: l) (hmem hl) ?_ h⟩
        cases l <;> simp_all
    | @returnFeed l s ls hl h => exact ⟨(c :: l) :: ls, .returnFeed (l := c :: l) (hmem hl) h⟩

/-- The carriage return that a search for line feeds leaves at the end of a line is a blank. -/
theorem Lines.trimmed_eq (h : Lines s ls) :
    ((lines s).map trim).filter (· ≠ []) = (ls.map trim).filter (· ≠ []) := by
  induction h with
  | nil => rfl
  | last _ hl => rw [lines_of_notMem hl]
  | feed hl _ _ ih => simp only [lines_append_newline hl, List.map_cons, List.filter_cons, ih]
  | @returnFeed l s ls hl _ ih =>
    have hline : '\n' ∉ l ++ ['\r'] := by simp [hl]
    have hblank : isBlank '\r' := by decide
    have hreturn : trim (l ++ ['\r']) = trim l := trim_append (by simpa using hblank)
    rw [List.append_cons, lines_append_newline hline]
    simp only [List.map_cons, List.filter_cons, ih, hreturn]

end BlockPuzzle.Text
