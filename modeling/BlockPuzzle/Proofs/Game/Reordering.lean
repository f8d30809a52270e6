import BlockPuzzle.Proofs.Game.Badges

/-!
# Levels finished in another order

But for the streak, a progress shows which ratings were ever given to which levels, and no more: not
in what order, how often or on which days. Each notion of a progress is read off these pairs alone,
so that two histories with the same pairs lead to the same.

## Main definitions

* `Progress.ratings`: the pairs of a level and a rating in a history.
* `Progress.recordAll`: the progress after some levels were finished.

## Main statements

* `Progress.Reflects.stars_eq`, `Progress.Reflects.completed_perm`,
  `Progress.Reflects.unlockedWorlds_eq`: what two histories with the same pairs have in common.
* `Progress.recordAll_congr`: order, repetition and days do not matter.
-/

namespace BlockPuzzle

namespace Progress

variable {es es' : List Event} {p q : Progress} {level : Nat} {id : String} {b : Badge}
  {r : BadgeRule}

/-! ## What was given to which level -/

/-- The levels that were finished, each beside the rating that it got. -/
def ratings (es : List Event) : List (Nat × Nat) := (finished es).map fun o => (o.level, o.stars)

theorem mem_ratingsOf {stars : Nat} : stars ∈ ratingsOf es level ↔ (level, stars) ∈ ratings es := by
  simp only [ratingsOf, ratings, List.mem_map, List.mem_filter, decide_eq_true_eq, Prod.mk.injEq,
    and_assoc]

theorem mem_finishedLevels_iff :
    level ∈ finishedLevels es ↔ ∃ stars, (level, stars) ∈ ratings es := by
  simp [finishedLevels, ratings]

section

variable (hsame : ∀ x, x ∈ ratings es ↔ x ∈ ratings es')

include hsame

theorem max?_ratingsOf_congr (level : Nat) :
    (ratingsOf es level).max? = (ratingsOf es' level).max? := by
  apply Option.ext
  intro best
  simp only [List.max?_eq_some_iff, mem_ratingsOf, hsame]

theorem Reflects.stars_eq (h : Reflects p es) (h' : Reflects q es') : p.stars = q.stars := by
  apply Ratings.ext_get?
  intro level
  rw [h.rated, h'.rated, max?_ratingsOf_congr hsame]

theorem Reflects.completed_perm (h : Reflects p es) (h' : Reflects q es') :
    p.completed.Perm q.completed := by
  refine (List.perm_ext_iff_of_nodup h.nodup_completed h'.nodup_completed).2 ?_
  intro level
  simp only [h.mem_completed, h'.mem_completed, mem_finishedLevels_iff, hsame]

/-- How many worlds are unlocked only depends on how many levels are completed. -/
theorem Reflects.unlockedWorlds_eq (h : Reflects p es) (h' : Reflects q es')
    (hopen : .setFullUnlock true ∈ es ↔ .setFullUnlock true ∈ es') :
    p.unlockedWorlds = q.unlockedWorlds := by
  rw [h.worlds, h'.worlds, (h.completed_perm hsame h').length_eq]
  simp only [openWorlds, hopen]

end

/-! ## Badges -/

/-- Only a rule for streaks looks at more than the ratings and at the completed levels, in whatever
order they stand. -/
theorem meets_congr (hstars : p.stars = q.stars) (hcompleted : p.completed.Perm q.completed)
    (hr : ∀ count, r ≠ .streak count) : p.meets r = q.meets r := by
  cases r with
  | completed count => rw [meets, meets, hcompleted.length_eq]
  | totalStars count => rw [meets, meets, totalStars, totalStars, hstars]
  | streak count => exact absurd rfl (hr count)
  | completedInRange first last count => rw [meets, meets, hcompleted.countP_eq]

/-- There are no badges but those in the table. -/
theorem exists_badge_of_hasBadge (h : (replay {} es).hasBadge id) : ∃ b ∈ Badge.all, b.id = id := by
  induction es using List.reverseRecOn with
  | nil => cases h
  | append_singleton es e ih =>
    rw [replay_concat] at h
    cases e with
    | finish o day =>
      rw [handle, hasBadge, badges_record, List.any_append, Bool.or_eq_true] at h
      obtain h | h := h
      · exact ih h
      · rw [earned_eq] at h
        obtain ⟨e, he, hid⟩ := List.any_eq_true.1 h
        obtain ⟨b, hb, rfl⟩ := List.mem_map.1 he
        exact ⟨b, List.mem_of_mem_filter hb, eq_of_beq hid⟩
    | setFullUnlock on => exact ih h
    | reset => cases h

theorem hasBadge_replay_iff_meets (hb : b ∈ Badge.all) (hr : ∀ count, b.rule ≠ .streak count) :
    (replay {} es).hasBadge b.id ↔ (replay {} es).meets b.rule :=
  (hasBadge_replay_iff hb es).trans (metIn_iff_meets hr (not_meets_empty b hb))

/-- The badge of a rule that two progresses meet alike is held in both or in none. -/
theorem hasBadge_replay_congr
    (hmeets : ∀ r, (∀ count, r ≠ .streak count) →
      (replay {} es).meets r = (replay {} es').meets r)
    (hid : ∀ b ∈ Badge.all, b.id = id → ∀ count, b.rule ≠ .streak count) :
    (replay {} es).hasBadge id ↔ (replay {} es').hasBadge id := by
  by_cases hknown : ∃ b ∈ Badge.all, b.id = id
  · obtain ⟨b, hb, rfl⟩ := hknown
    have hr := hid b hb rfl
    rw [hasBadge_replay_iff_meets hb hr, hasBadge_replay_iff_meets hb hr, hmeets b.rule hr]
  · exact iff_of_false (mt exists_badge_of_hasBadge hknown) (mt exists_badge_of_hasBadge hknown)

/-! ## Levels finished one after the other -/

/-- The progress after some levels were finished, each on its day. -/
def recordAll (plays : List (Outcome × Int)) : Progress :=
  plays.foldl (fun p play => p.record play.1 play.2) {}

/-- The history in which some levels are finished, and nothing else happens. -/
def finishes (plays : List (Outcome × Int)) : List Event :=
  plays.map fun play => .finish play.1 play.2

variable {plays : List (Outcome × Int)}

theorem recordAll_eq_replay (plays : List (Outcome × Int)) :
    recordAll plays = replay {} (finishes plays) := by
  rw [recordAll, replay, finishes, List.foldl_map]
  rfl

theorem finished_finishes (plays : List (Outcome × Int)) :
    finished (finishes plays) = plays.map Prod.fst := by
  rw [finished, finishes, List.filterMap_map, ← List.filterMap_eq_map]
  rfl

theorem ratings_finishes (plays : List (Outcome × Int)) :
    ratings (finishes plays) = plays.map fun play => (play.1.level, play.1.stars) := by
  rw [ratings, finished_finishes, List.map_map]
  rfl

theorem setFullUnlock_notMem_finishes {on : Bool} : .setFullUnlock on ∉ finishes plays := by
  simp [finishes]

theorem sinceReset_finishes (plays : List (Outcome × Int)) :
    sinceReset (finishes plays) = finishes plays := by
  rw [sinceReset, List.rtakeWhile_eq_self_iff]
  intro e he
  obtain ⟨play, -, rfl⟩ := List.mem_map.1 he
  rfl

theorem reflects_recordAll (plays : List (Outcome × Int)) :
    Reflects (recordAll plays) (finishes plays) := by
  have h := reflects_replay (finishes plays)
  rwa [sinceReset_finishes, ← recordAll_eq_replay] at h

/-- Where levels were finished with the same ratings, on whatever days, in whatever order and
however often, the best ratings and their sum are the same, the same levels are completed, the same
worlds were unlocked in the same order, and the same badges are held but for those that ask for a
streak. Of fewer than 2^24 finished levels, with ratings of one byte, the sum has room in a word. -/
theorem recordAll_congr {xs ys : List (Outcome × Int)}
    (hsame : (xs.map fun play => (play.1.level, play.1.stars)).toFinset =
      (ys.map fun play => (play.1.level, play.1.stars)).toFinset) :
    (recordAll xs).stars = (recordAll ys).stars ∧
      (recordAll xs).totalStars = (recordAll ys).totalStars ∧
      (recordAll xs).completed.Perm (recordAll ys).completed ∧
      (recordAll xs).unlockedWorlds = (recordAll ys).unlockedWorlds ∧
      (∀ id, (∀ b ∈ Badge.all, b.id = id → ∀ count, b.rule ≠ .streak count) →
        ((recordAll xs).hasBadge id ↔ (recordAll ys).hasBadge id)) ∧
      (xs.length < 16777216 → (∀ play ∈ xs, play.1.stars < Width.byte.size) →
        (recordAll xs).totalStars < Width.word.size) := by
  have hx := reflects_recordAll xs
  have hy := reflects_recordAll ys
  have hratings : ∀ x, x ∈ ratings (finishes xs) ↔ x ∈ ratings (finishes ys) := by
    intro x
    rw [ratings_finishes, ratings_finishes, ← List.mem_toFinset, hsame, List.mem_toFinset]
  have hstars := hx.stars_eq hratings hy
  have hcompleted := hx.completed_perm hratings hy
  have hopen : .setFullUnlock true ∈ finishes xs ↔ .setFullUnlock true ∈ finishes ys :=
    iff_of_false setFullUnlock_notMem_finishes setFullUnlock_notMem_finishes
  refine ⟨hstars, congrArg Ratings.total hstars, hcompleted,
    hx.unlockedWorlds_eq hratings hy hopen, ?_, ?_⟩
  · intro id hid
    simp only [recordAll_eq_replay] at hstars hcompleted ⊢
    exact hasBadge_replay_congr (fun r => meets_congr hstars hcompleted) hid
  · intro hcount hbytes
    apply hx.totalStars_lt
    · rwa [finished_finishes, List.length_map]
    · intro o ho
      rw [finished_finishes] at ho
      obtain ⟨play, hplay, rfl⟩ := List.mem_map.1 ho
      exact hbytes play hplay

/-- Fifteen levels on as many days, and the first one again, which is now rated better. -/
def dayByDay : List (Outcome × Int) :=
  (List.range 15).map (fun k => (Outcome.mk (k + 1) 2 false, (k : Int))) ++ [(⟨1, 3, true⟩, 15)]

/-- The same backwards and on a single day, and then some of it once more. -/
def inOneDay : List (Outcome × Int) :=
  (dayByDay.reverse ++ dayByDay.take 4).map fun play => (play.1, 40)

/-- What differs is the badge for seven days in a row. -/
theorem recordAll_congr_inOneDay :
    (dayByDay.map fun play => (play.1.level, play.1.stars)).toFinset =
        (inOneDay.map fun play => (play.1.level, play.1.stars)).toFinset ∧
      (recordAll inOneDay).totalStars = 31 ∧ (recordAll inOneDay).unlockedWorlds = [1, 2] ∧
      (recordAll inOneDay).hasBadge "ten_levels" ∧ (recordAll dayByDay).hasBadge "streak_7" ∧
      ¬ (recordAll inOneDay).hasBadge "streak_7" := by
  have hsame : (dayByDay.map fun play => (play.1.level, play.1.stars)).toFinset =
      (inOneDay.map fun play => (play.1.level, play.1.stars)).toFinset := by decide +kernel
  have htotal : (recordAll dayByDay).totalStars = 31 := by decide +kernel
  have hworlds : (recordAll dayByDay).unlockedWorlds = [1, 2] := by decide +kernel
  have hbadge : (recordAll dayByDay).hasBadge "ten_levels" := by decide +kernel
  obtain ⟨-, hsum, -, hunlocked, hheld, -⟩ := recordAll_congr hsame
  refine ⟨hsame, hsum ▸ htotal, hunlocked ▸ hworlds, (hheld _ ?_).1 hbadge, ?_, ?_⟩
  · simp [Badge.all]
  · decide +kernel
  · decide +kernel

end Progress

end BlockPuzzle
