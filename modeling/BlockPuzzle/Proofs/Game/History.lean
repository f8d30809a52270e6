import BlockPuzzle.Proofs.Game.Awards
import BlockPuzzle.Proofs.Game.Ratings

/-!
# Progress and its history

What a progress shows is determined by what happened since the last reset: the levels that were
finished, with what rating, and whether all worlds were ever opened. In what order the rest happened
makes no difference.

## Main definitions

* `Progress.Event`, `Progress.replay`: what can happen to a progress, and what becomes of it.
* `Progress.sinceReset`: the events behind the last reset.
* `Progress.finishedLevels`, `Progress.ratingsOf`, `Progress.openWorlds`: what a history says.
* `Progress.Reflects`: a progress that shows what its history says.

## Main statements

* `Progress.addUnlocked_range'`: the worlds that a number of completed levels unlocks.
* `Progress.Reflects.record`, `Progress.Reflects.setFullUnlock`: every event keeps the two together.
* `Progress.replay_eq_history`: the completed levels, ratings and worlds after any history.
-/

namespace BlockPuzzle

namespace Progress

/-! ## Histories -/

/-- What can happen to a progress. -/
inductive Event where
  /-- A level is finished on a day. -/
  | finish (o : Outcome) (day : Int)
  | setFullUnlock (on : Bool)
  | reset
  deriving DecidableEq, Repr

def handle (p : Progress) : Event → Progress
  | .finish o day => p.record o day
  | .setFullUnlock on => p.setFullUnlock on
  | .reset => {}

/-- The progress after some events, one after the other. -/
def replay (p : Progress) (es : List Event) : Progress := es.foldl handle p

/-- The events behind the last reset. -/
def sinceReset (es : List Event) : List Event := es.rtakeWhile (· ≠ .reset)

def Event.outcome? : Event → Option Outcome
  | .finish o _ => some o
  | .setFullUnlock _ | .reset => none

/-- How the levels were finished, in the order in which they were. -/
def finished (es : List Event) : List Outcome := es.filterMap Event.outcome?

/-- The levels that were finished, each as often as it was. -/
def finishedLevels (es : List Event) : List Nat := (finished es).map Outcome.level

/-- All ratings of a level. -/
def ratingsOf (es : List Event) (level : Nat) : List Nat :=
  ((finished es).filter (·.level = level)).map Outcome.stars

/-- How many worlds are open once `done` levels are completed. -/
def openWorlds (es : List Event) (done : Nat) : Nat :=
  if .setFullUnlock true ∈ es then World.number else 1 + thresholds.countP (·.2 ≤ done)

section

variable (p : Progress) (es : List Event) (o : Outcome) (day : Int) (on : Bool)

theorem replay_append (es' : List Event) : p.replay (es ++ es') = (p.replay es).replay es' :=
  List.foldl_append

theorem replay_concat (e : Event) : p.replay (es ++ [e]) = (p.replay es).handle e := by
  simp [replay]

theorem sinceReset_concat_reset : sinceReset (es ++ [.reset]) = [] := by
  simp [sinceReset]

theorem sinceReset_concat {e : Event} (h : e ≠ .reset) :
    sinceReset (es ++ [e]) = sinceReset es ++ [e] := by
  simp [sinceReset, h]

@[simp] theorem finished_concat_finish :
    finished (es ++ [.finish o day]) = finished es ++ [o] := by
  simp [finished, Event.outcome?]

@[simp] theorem finished_concat_setFullUnlock :
    finished (es ++ [.setFullUnlock on]) = finished es := by
  simp [finished, Event.outcome?]

theorem finished_sinceReset_sublist : (finished (sinceReset es)).Sublist (finished es) :=
  (List.rtakeWhile_suffix _ es).sublist.filterMap _

end

/-! ## Worlds -/

/-- Where all worlds of thresholds that are met are listed, none is added. -/
theorem foldl_addWorld_of_forall_mem {done : Nat} {ts : List (Nat × Nat)} {ws : List Nat}
    (h : ∀ t ∈ ts, t.2 ≤ done → t.1 ∈ ws) : ts.foldl (addWorld done) ws = ws := by
  induction ts with
  | nil => rfl
  | cons t ts ih =>
    obtain ⟨ht, hts⟩ := List.forall_mem_cons.1 h
    have hstay : addWorld done ws t = ws := if_neg fun hadd => hadd.2 (ht hadd.1)
    rw [List.foldl_cons, hstay]
    exact ih hts

/-- Thresholds that ascend add their worlds one after the other, as many as there are met. -/
theorem foldl_addWorld {done s m : Nat} {ts : List (Nat × Nat)}
    (hworlds : ts.map Prod.fst = List.range' (s + 1) ts.length)
    (hascending : ts.Pairwise (·.2 ≤ ·.2)) (hs : s ≤ m) :
    ts.foldl (addWorld done) (List.range' 1 m) =
      List.range' 1 (max m (s + ts.countP (·.2 ≤ done))) := by
  induction ts generalizing s m with
  | nil => simp [hs]
  | cons t ts ih =>
    rw [List.map_cons, List.length_cons, List.range'_succ, List.cons.injEq] at hworlds
    obtain ⟨ht, hworlds⟩ := hworlds
    obtain ⟨hle, hascending⟩ := List.pairwise_cons.1 hascending
    by_cases hdone : t.2 ≤ done
    · have hadd : addWorld done (List.range' 1 m) t = List.range' 1 (max m (s + 1)) := by
        rw [addWorld, ht]
        by_cases hm : s + 1 ≤ m
        · rw [if_neg (by simp; omega), Nat.max_eq_left hm]
        · obtain rfl : m = s := by omega
          rw [if_pos (by simp; omega), Nat.max_eq_right (by omega), List.range'_1_concat,
            Nat.add_comm 1]
      rw [List.foldl_cons, hadd, ih hworlds hascending (by omega),
        List.countP_cons_of_pos (by simpa)]
      congr 1
      omega
    · have hlt : ∀ u ∈ t :: ts, done < u.2 := by
        rw [List.forall_mem_cons]
        refine ⟨by omega, ?_⟩
        intro u hu
        have := hle u hu
        omega
      have hnone : (t :: ts).countP (·.2 ≤ done) = 0 := by
        rw [List.countP_eq_zero]
        intro u hu
        have := hlt u hu
        simp; omega
      have hstay : (t :: ts).foldl (addWorld done) (List.range' 1 m) = List.range' 1 m :=
        foldl_addWorld_of_forall_mem fun u hu hmet => absurd hmet (Nat.not_le_of_lt (hlt u hu))
      rw [hstay, hnone, Nat.max_eq_left (by omega)]

theorem mem_foldl_addWorld {done w : Nat} {ts : List (Nat × Nat)} {ws : List Nat} :
    w ∈ ts.foldl (addWorld done) ws ↔ w ∈ ws ∨ ∃ t ∈ ts, t.2 ≤ done ∧ t.1 = w := by
  induction ts generalizing ws with
  | nil => simp
  | cons t ts ih =>
    rw [List.foldl_cons, ih, addWorld]
    grind

/-- Worlds that are open stay so, and only those of thresholds are added. -/
theorem mem_addUnlocked {done w : Nat} {ws : List Nat} :
    w ∈ addUnlocked done ws ↔ w ∈ ws ∨ ∃ t ∈ thresholds, t.2 ≤ done ∧ t.1 = w :=
  mem_foldl_addWorld

/-- The worlds are unlocked in their order, and those that are open stay so. -/
theorem addUnlocked_range' {done m : Nat} (hm : 1 ≤ m) : addUnlocked done (List.range' 1 m) =
    List.range' 1 (max m (1 + thresholds.countP (·.2 ≤ done))) :=
  foldl_addWorld rfl (by decide) hm

theorem countP_thresholds_mono {done more : Nat} (h : done ≤ more) :
    thresholds.countP (·.2 ≤ done) ≤ thresholds.countP (·.2 ≤ more) := by
  apply List.countP_mono_left
  intro t _ ht
  simp only [decide_eq_true_eq] at ht ⊢
  omega

theorem openWorlds_pos (es : List Event) (done : Nat) : 1 ≤ openWorlds es done := by
  unfold openWorlds World.number
  split <;> omega

/-- Completing more levels unlocks what they unlock, whatever was open before. -/
theorem addUnlocked_openWorlds {es : List Event} {done more : Nat} (h : done ≤ more) :
    addUnlocked more (List.range' 1 (openWorlds es done)) =
      List.range' 1 (openWorlds es more) := by
  rw [addUnlocked_range' (openWorlds_pos es done)]
  congr 1
  have hmono := countP_thresholds_mono h
  have hall : thresholds.countP (·.2 ≤ more) ≤ 7 := List.countP_le_length
  unfold openWorlds World.number
  split <;> omega

/-! ## What a finished level changes -/

section

variable (p : Progress) (o : Outcome) (day : Int)

@[simp] theorem completed_record : (p.record o day).completed = (p.complete o.level).completed := by
  simp only [record_eq]
  rfl

@[simp] theorem stars_record : (p.record o day).stars = p.stars.raise o.level o.stars := by
  simp only [record_eq, advance, unlockWorlds, complete]
  split <;> rfl

@[simp] theorem fullUnlock_record : (p.record o day).fullUnlock = p.fullUnlock := by
  simp only [record_eq, advance, unlockWorlds, complete]
  split <;> rfl

theorem unlockedWorlds_record : (p.record o day).unlockedWorlds =
    if p.fullUnlock then allWorlds
    else addUnlocked (p.complete o.level).completed.length p.unlockedWorlds := by
  simp only [record_eq, advance, unlockWorlds, complete]
  split <;> rfl

theorem streak_advance (p : Progress) (o : Outcome) (day : Int) :
    (p.advance o day).streak = p.streak.touch day := by
  simp only [advance, unlockWorlds, complete]
  split <;> rfl

theorem streak_record : (p.record o day).streak = p.streak.touch day := by
  rw [record_eq]
  exact streak_advance p o day

theorem badges_record : (p.record o day).badges = p.badges ++ p.earned o day := by
  rw [record_eq]

theorem completed_complete (level : Nat) : (p.complete level).completed =
    if level ∈ p.completed then p.completed else p.completed ++ [level] := by
  unfold complete
  split <;> rfl

theorem completed_prefix_complete (level : Nat) :
    p.completed <+: (p.complete level).completed := by
  rw [completed_complete]
  split
  · exact List.prefix_rfl
  · exact List.prefix_append _ _

end

theorem mem_completed_complete {p : Progress} {level l : Nat} :
    l ∈ (p.complete level).completed ↔ l ∈ p.completed ∨ l = level := by
  rw [completed_complete]
  split
  · next hmem => exact (or_iff_left_of_imp fun h => h ▸ hmem).symm
  · simp

/-! ## What a history determines -/

/-- The progress shows what the events `es` say, none of which is a reset. -/
structure Reflects (p : Progress) (es : List Event) : Prop where
  mem_completed : ∀ level, level ∈ p.completed ↔ level ∈ finishedLevels es
  /-- The levels stand in the order in which they were finished first. -/
  order : p.completed.Pairwise fun a b =>
    (finishedLevels es).idxOf a < (finishedLevels es).idxOf b
  rated : ∀ level, p.stars.get? level = (ratingsOf es level).max?
  totalStars_le : p.totalStars ≤ ((finished es).map Outcome.stars).sum
  fullUnlock : p.fullUnlock → .setFullUnlock true ∈ es
  worlds : p.unlockedWorlds = List.range' 1 (openWorlds es p.completed.length)

theorem reflects_nil : Reflects {} [] where
  mem_completed := by simp [finishedLevels, finished]
  order := .nil
  rated := by simp [ratingsOf, finished]
  totalStars_le := Nat.zero_le _
  fullUnlock := by simp
  worlds := rfl

theorem max?_concat (xs : List Nat) (x : Nat) :
    (xs ++ [x]).max? = some (max (xs.max?.getD 0) x) := by
  cases xs with
  | nil => simp
  | cons y ys => simp only [List.cons_append, List.max?_cons', List.foldl_append, List.foldl_cons,
      List.foldl_nil, Option.getD_some]

variable {p : Progress} {es : List Event}

/-- A level that was not finished before comes last. -/
theorem order_complete (hmem : ∀ l, l ∈ p.completed ↔ l ∈ finishedLevels es)
    (horder : p.completed.Pairwise fun a b =>
      (finishedLevels es).idxOf a < (finishedLevels es).idxOf b) (level : Nat) :
    (p.complete level).completed.Pairwise fun a b =>
      (finishedLevels es ++ [level]).idxOf a < (finishedLevels es ++ [level]).idxOf b := by
  have hold {l : Nat} (hl : l ∈ p.completed) :
      (finishedLevels es ++ [level]).idxOf l = (finishedLevels es).idxOf l :=
    List.idxOf_append_of_mem ((hmem l).1 hl)
  have hkept : p.completed.Pairwise fun a b =>
      (finishedLevels es ++ [level]).idxOf a < (finishedLevels es ++ [level]).idxOf b := by
    refine horder.imp_of_mem ?_
    intro a b ha hb hlt
    simpa only [hold ha, hold hb] using hlt
  rw [completed_complete]
  split
  · exact hkept
  · next hnew =>
    have hlast : (finishedLevels es ++ [level]).idxOf level = (finishedLevels es).length := by
      rw [List.idxOf_append_of_notMem (mt (hmem level).2 hnew)]
      simp
    refine List.pairwise_append.2 ⟨hkept, List.pairwise_singleton _ _, ?_⟩
    intro a ha b hb
    obtain rfl := List.mem_singleton.1 hb
    rw [hold ha, hlast]
    exact List.idxOf_lt_length_of_mem ((hmem a).1 ha)

theorem Reflects.record (h : Reflects p es) (o : Outcome) (day : Int) :
    Reflects (p.record o day) (es ++ [.finish o day]) where
  mem_completed level := by
    have hold := h.mem_completed level
    simp only [completed_record, completed_complete, finishedLevels, finished_concat_finish] at *
    grind
  order := by
    simpa [finishedLevels] using order_complete h.mem_completed h.order o.level
  rated level := by
    simp only [stars_record, Ratings.get?_raise, Ratings.best, h.rated, ratingsOf,
      finished_concat_finish, List.filter_append, List.map_append]
    by_cases hlevel : level = o.level
    · simp [hlevel, max?_concat]
    · simp [hlevel, Ne.symm hlevel]
  totalStars_le := by
    have hold := h.totalStars_le
    have hle := p.stars.total_raise_le o.level o.stars
    simp only [totalStars, stars_record, finished_concat_finish, List.map_append,
      List.sum_append] at *
    simp
    omega
  fullUnlock hfull := by
    rw [fullUnlock_record] at hfull
    exact List.mem_append_left _ (h.fullUnlock hfull)
  worlds := by
    have hopen (done : Nat) : openWorlds (es ++ [.finish o day]) done = openWorlds es done := by
      simp [openWorlds]
    have hlength := (p.completed_prefix_complete o.level).length_le
    rw [unlockedWorlds_record, completed_record, hopen]
    split
    · next hfull => simp [openWorlds, h.fullUnlock hfull, allWorlds]
    · rw [h.worlds, addUnlocked_openWorlds hlength]

theorem Reflects.setFullUnlock (h : Reflects p es) (on : Bool) :
    Reflects (p.setFullUnlock on) (es ++ [.setFullUnlock on]) where
  mem_completed := by simpa [Progress.setFullUnlock, finishedLevels] using h.mem_completed
  order := by simpa [Progress.setFullUnlock, finishedLevels] using h.order
  rated := by simpa [Progress.setFullUnlock, ratingsOf] using h.rated
  totalStars_le := by simpa [Progress.setFullUnlock, totalStars] using h.totalStars_le
  fullUnlock hon := by
    obtain rfl : on = true := hon
    simp
  worlds := by
    cases on with
    | true => simp [Progress.setFullUnlock, openWorlds, allWorlds]
    | false => simpa [Progress.setFullUnlock, openWorlds] using h.worlds

/-- Whatever happened, the progress shows what happened since the last reset. -/
theorem reflects_replay (es : List Event) : Reflects (replay {} es) (sinceReset es) := by
  induction es using List.reverseRecOn with
  | nil => exact reflects_nil
  | append_singleton es e ih =>
    rw [replay_concat]
    cases e with
    | finish o day =>
      rw [sinceReset_concat es (by simp)]
      exact ih.record o day
    | setFullUnlock on =>
      rw [sinceReset_concat es (by simp)]
      exact ih.setFullUnlock on
    | reset =>
      rw [sinceReset_concat_reset]
      exact reflects_nil

theorem isSome_max?_ratingsOf (es : List Event) (level : Nat) :
    (ratingsOf es level).max?.isSome ↔ level ∈ finishedLevels es := by
  rw [List.isSome_max?_iff]
  simp [ratingsOf, finishedLevels, List.filter_eq_nil_iff]

theorem Reflects.nodup_completed (h : Reflects p es) : p.completed.Nodup := by
  refine h.order.imp ?_
  rintro a b hlt rfl
  exact Nat.lt_irrefl _ hlt

/-- The levels that have a rating are those that are completed. -/
theorem Reflects.levels_perm (h : Reflects p es) : p.stars.levels.Perm p.completed := by
  refine (List.perm_ext_iff_of_nodup p.stars.nodup_levels h.nodup_completed).2 ?_
  intro level
  rw [Ratings.mem_levels, h.rated, isSome_max?_ratingsOf, h.mem_completed]

theorem Reflects.best_eq (h : Reflects p es) (level : Nat) :
    p.stars.best level = (ratingsOf es level).max?.getD 0 := by
  rw [Ratings.best, h.rated]

theorem Reflects.totalStars_eq (h : Reflects p es) :
    p.totalStars = (p.completed.map fun level => (ratingsOf es level).max?.getD 0).sum := by
  have hbest : p.stars.best = fun level => (ratingsOf es level).max?.getD 0 := funext h.best_eq
  calc p.totalStars = (p.stars.levels.map p.stars.best).sum := p.stars.total_eq_sum
    _ = (p.completed.map p.stars.best).sum := (h.levels_perm.map _).sum_eq
    _ = _ := by rw [hbest]

/-- The ratings of fewer than 2^24 finished levels, each in one byte, have a sum that has room in a
word. -/
theorem Reflects.totalStars_lt (h : Reflects p es) (hcount : (finished es).length < 16777216)
    (hstars : ∀ o ∈ finished es, o.stars < Width.byte.size) : p.totalStars < Width.word.size := by
  have hbyte : ∀ s ∈ (finished es).map Outcome.stars, s ≤ 255 := by
    intro s hs
    obtain ⟨o, ho, rfl⟩ := List.mem_map.1 hs
    exact Nat.le_of_lt_succ (hstars o ho)
  have hsum := List.sum_le_card_nsmul _ 255 hbyte
  have hle := h.totalStars_le
  simp only [List.length_map, nsmul_eq_mul, Nat.cast_id] at hsum
  simp only [Width.size]
  omega

/-- After any history, let `h` be what happened since the last reset. The completed levels are those
that were finished in `h`, each listed once, in the order in which they were finished first. The
levels with a rating are the same, and each has the best of its ratings in `h`, which sum up to the
total; of fewer than 2^24 finished levels, with ratings of one byte, the sum has room in a word. The
unlocked worlds are the first eight if all were ever opened in `h`, and otherwise the first one and
one for each threshold that is met. -/
theorem replay_eq_history (es : List Event) :
    let h := sinceReset es
    let p := replay {} es
    p.completed.Nodup ∧ (∀ level, level ∈ p.completed ↔ level ∈ finishedLevels h) ∧
      (p.completed.Pairwise fun a b => (finishedLevels h).idxOf a < (finishedLevels h).idxOf b) ∧
      p.stars.levels.Perm p.completed ∧
      (∀ level, p.stars.best level = (ratingsOf h level).max?.getD 0) ∧
      p.totalStars = (p.completed.map fun level => (ratingsOf h level).max?.getD 0).sum ∧
      p.unlockedWorlds = List.range' 1 (openWorlds h p.completed.length) ∧
      ((finished es).length < 16777216 → (∀ o ∈ finished es, o.stars < Width.byte.size) →
        p.totalStars < Width.word.size) := by
  intro h p
  have hp : Reflects p h := reflects_replay es
  refine ⟨hp.nodup_completed, hp.mem_completed, hp.order, hp.levels_perm, hp.best_eq,
    hp.totalStars_eq, hp.worlds, ?_⟩
  intro hcount hstars
  have hsublist := finished_sinceReset_sublist es
  refine hp.totalStars_lt (Nat.lt_of_le_of_lt hsublist.length_le hcount) ?_
  intro o ho
  exact hstars o (hsublist.subset ho)

/-- A level that is forgotten, and two that are finished twice while all worlds are open for a
time. -/
def Event.begunAgain : List Event :=
  [.finish ⟨7, 3, true⟩ 1, .setFullUnlock true, .reset, .finish ⟨5, 3, true⟩ 4,
    .finish ⟨2, 1, false⟩ 4, .setFullUnlock true, .finish ⟨5, 1, false⟩ 5, .setFullUnlock false,
    .finish ⟨2, 2, false⟩ 6]

theorem replay_eq_history_begunAgain :
    (finished Event.begunAgain).length < 16777216 ∧
      (∀ o ∈ finished Event.begunAgain, o.stars < Width.byte.size) ∧
      (replay {} Event.begunAgain).completed = [5, 2] ∧
      (replay {} Event.begunAgain).totalStars = 3 + 2 ∧
      (replay {} Event.begunAgain).totalStars < Width.word.size ∧
      (replay {} Event.begunAgain).unlockedWorlds = List.range' 1 8 := by
  have hcount : (finished Event.begunAgain).length < 16777216 := by decide
  have hstars : ∀ o ∈ finished Event.begunAgain, o.stars < Width.byte.size := by decide
  have hcompleted : (replay {} Event.begunAgain).completed = [5, 2] := by decide
  obtain ⟨-, -, -, -, -, htotal, hworlds, hfits⟩ := replay_eq_history Event.begunAgain
  rw [hcompleted] at htotal hworlds
  exact ⟨hcount, hstars, hcompleted, htotal, hfits hcount hstars, hworlds⟩

end Progress

end BlockPuzzle
