import BlockPuzzle.Game.Ratings
import Mathlib

/-!
# Looking up ratings

Ratings are a finite map from levels to stars. A rating is replaced without a change to any other,
and their sum is that of the best ratings of all levels that have one.

## Main definitions

* `Ratings.levels`: the levels that have a rating.

## Main statements

* `Ratings.get?_insert`, `Ratings.get?_raise`: what a level is rated after a change.
* `Ratings.ext_get?`: ratings are known by what they give to each level.
* `Ratings.total_eq_sum`: the total as a sum over levels.
* `Ratings.total_raise`: the total after a change.
-/

namespace BlockPuzzle

namespace Ratings

variable {r : Ratings} {level stars k : Nat} {es : List (Nat × Nat)}

/-- The levels that have a rating, in the order of their numbers. -/
def levels (r : Ratings) : List Nat := r.entries.map Prod.fst

/-! ## Entries -/

/-- Behind an entry there are only levels with greater numbers. -/
theorem lookup_eq_none_of_le {e : Nat × Nat} (h : (e :: es).Pairwise (fun a b => a.1 < b.1))
    (hle : level ≤ e.1) : es.lookup level = none := by
  rw [List.lookup_eq_none_iff]
  intro x hx
  have hlt := (List.pairwise_cons.1 h).1 x hx
  simp only [bne_iff_ne, ne_eq]
  omega

theorem lookup_insertEntry (level stars k : Nat) (es : List (Nat × Nat)) :
    (insertEntry level stars es).lookup k = if k = level then some stars else es.lookup k := by
  induction es with
  | nil => grind [insertEntry]
  | cons e es ih =>
    obtain ⟨n, old⟩ := e
    rw [insertEntry]
    grind

/-- The sum grows by what the new rating has more than the old one. -/
theorem sum_insertEntry (h : es.Pairwise (fun a b => a.1 < b.1)) :
    ((insertEntry level stars es).map Prod.snd).sum + (es.lookup level).getD 0 =
      (es.map Prod.snd).sum + stars := by
  induction es with
  | nil => simp [insertEntry]
  | cons e es ih =>
    obtain ⟨n, old⟩ := e
    have hrest := ih (List.pairwise_cons.1 h).2
    rw [insertEntry, List.lookup_cons]
    rcases Nat.lt_trichotomy level n with hlt | rfl | hgt
    · have hnone := lookup_eq_none_of_le h (Nat.le_of_lt hlt)
      have hne : (level == n) = false := by simp; omega
      simp [hlt, hne, hnone]
      omega
    · simp
      omega
    · have hne : (level == n) = false := by simp; omega
      have hlt : ¬ level < n := by omega
      have hneq : level ≠ n := by omega
      simp [hlt, hne, hneq]
      omega

/-! ## Ratings -/

@[simp] theorem get?_empty : empty.get? level = none := rfl

theorem get?_insert (r : Ratings) (level stars k : Nat) :
    (r.insert level stars).get? k = if k = level then some stars else r.get? k :=
  lookup_insertEntry level stars k r.entries

/-- Only the level itself gets a new rating, and none that is worse. -/
theorem get?_raise (r : Ratings) (level stars k : Nat) :
    (r.raise level stars).get? k =
      if k = level then some (max (r.best level) stars) else r.get? k :=
  get?_insert r level _ k

theorem nodup_levels (r : Ratings) : r.levels.Nodup := by
  rw [levels, List.nodup_iff_pairwise_ne, List.pairwise_map]
  exact r.sorted.imp Nat.ne_of_lt

theorem mem_levels : k ∈ r.levels ↔ (r.get? k).isSome := by
  rw [get?, List.lookup_isSome_iff, levels, List.mem_map]
  grind

theorem total_eq (r : Ratings) : r.total = (r.entries.map Prod.snd).sum := by
  rw [total, List.sum, List.foldr_map]

theorem get?_of_mem {e : Nat × Nat} (h : e ∈ r.entries) : r.get? e.1 = some e.2 := by
  obtain ⟨es, hsorted⟩ := r
  simp only [get?] at *
  induction es with
  | nil => cases h
  | cons x xs ih =>
    obtain ⟨hx, hxs⟩ := List.pairwise_cons.1 hsorted
    rcases List.mem_cons.1 h with rfl | h
    · exact List.lookup_cons_self
    · have hne : (e.1 == x.1) = false := by
        have := hx e h
        simp; omega
      rw [List.lookup_cons, hne]
      exact ih hxs h

theorem mem_entries {e : Nat × Nat} : e ∈ r.entries ↔ r.get? e.1 = some e.2 := by
  refine ⟨get?_of_mem, ?_⟩
  intro h
  obtain ⟨before, behind, hsplit, -⟩ := List.lookup_eq_some_iff.1 h
  rw [hsplit]
  exact List.mem_append_right _ List.mem_cons_self

/-- Ratings are known by what they give to each level, for the order of the entries leaves no
choice. -/
theorem ext_get? {r' : Ratings} (h : ∀ level, r.get? level = r'.get? level) : r = r' := by
  have hnodup (s : Ratings) : s.entries.Nodup := List.Nodup.of_map Prod.fst s.nodup_levels
  have hperm : r.entries.Perm r'.entries := by
    refine (List.perm_ext_iff_of_nodup (hnodup r) (hnodup r')).2 ?_
    intro e
    rw [mem_entries, mem_entries, h]
  have hentries : r.entries = r'.entries := by
    refine hperm.eq_of_pairwise ?_ r.sorted r'.sorted
    intro a b _ _ hab hba
    exact absurd hab (Nat.lt_asymm hba)
  cases r
  cases r'
  simpa using hentries

/-- The total is the sum of the best ratings of the levels that have one. -/
theorem total_eq_sum (r : Ratings) : r.total = (r.levels.map r.best).sum := by
  rw [total_eq, levels, List.map_map]
  congr 1
  apply List.map_congr_left
  intro e he
  simp [best, get?_of_mem he]

theorem total_raise (r : Ratings) (level stars : Nat) :
    (r.raise level stars).total + r.best level = r.total + max (r.best level) stars := by
  rw [total_eq, total_eq]
  exact sum_insertEntry r.sorted

/-- Only the first time does the same rating make a difference. -/
theorem raise_raise (r : Ratings) (level stars : Nat) :
    (r.raise level stars).raise level stars = r.raise level stars := by
  apply ext_get?
  intro k
  have hbest : (r.raise level stars).best level = max (r.best level) stars := by
    rw [best, get?_raise, if_pos rfl, Option.getD_some]
  rw [get?_raise, get?_raise, hbest]
  split
  · rw [Nat.max_assoc, Nat.max_self]
  · rfl

theorem total_le_total_raise (r : Ratings) (level stars : Nat) :
    r.total ≤ (r.raise level stars).total := by
  have h := r.total_raise level stars
  omega

theorem total_raise_le (r : Ratings) (level stars : Nat) :
    (r.raise level stars).total ≤ r.total + stars := by
  have h := r.total_raise level stars
  omega

end Ratings

end BlockPuzzle
