import BlockPuzzle.Game.Checked
import BlockPuzzle.Proofs.Game.History
import BlockPuzzle.Proofs.Game.Streak

/-!
# The same level once more

A level that was finished on some day and is finished again on that day with the same rating leaves
no trace, whatever the progress was before. Each part of it has taken up all there is in the first
record: the level is listed, the rating is not raised any further, the day is counted, and every
world that is due is listed. So no rule is met that was not met before, and all badges for these
have been given.

## Main definitions

* `Progress.Settled`: a badge that the player has, or whose rule is not met.

## Main statements

* `Progress.advance_record`: the second record advances nothing.
* `Progress.exists_of_foldlM_award?`: a pass over a table settles all badges in it.
* `Progress.record?_again`: recording a level twice is recording it once.
-/

namespace BlockPuzzle

namespace Progress

variable {p q : Progress} {o : Outcome} {day : Int} {b c : Badge} {bs : List Badge}
  {es es' : List EarnedBadge} {level : Nat}

/-! ## What a level advances -/

theorem complete_of_mem (h : level ∈ p.completed) : p.complete level = p := if_pos h

theorem addUnlocked_addUnlocked (done : Nat) (ws : List Nat) :
    addUnlocked done (addUnlocked done ws) = addUnlocked done ws := by
  apply foldl_addWorld_of_forall_mem
  intro t ht hdone
  exact mem_addUnlocked.2 (.inr ⟨t, ht, hdone, rfl⟩)

/-- A progress that has taken up all that a level brings. -/
theorem advance_eq_self (hlevel : o.level ∈ p.completed)
    (hstars : p.stars.raise o.level o.stars = p.stars) (hstreak : p.streak.touch day = p.streak)
    (hworlds : p.unlockedWorlds =
      if p.fullUnlock then allWorlds else addUnlocked p.completed.length p.unlockedWorlds) :
    p.advance o day = p := by
  rw [advance, complete_of_mem hlevel, hstars, hstreak, unlockWorlds, ← hworlds]

theorem advance_record (p : Progress) (o : Outcome) (day : Int) :
    (p.record o day).advance o day = p.record o day := by
  apply advance_eq_self
  · rw [completed_record]
    exact mem_completed_complete.2 (.inr rfl)
  · rw [stars_record, Ratings.raise_raise]
  · rw [streak_record, Streak.touch_touch]
  · rw [unlockedWorlds_record, fullUnlock_record, completed_record]
    split
    · rfl
    · rw [addUnlocked_addUnlocked]

/-! ## Badges -/

/-- After a level is finished, the player has every badge whose rule is met. -/
theorem hasBadge_record_of_meets (hb : b ∈ Badge.all) (hmeets : (p.record o day).meets b.rule) :
    (p.record o day).hasBadge b.id := by
  rw [hasBadge, badges_record, List.any_append, Bool.or_eq_true, ← hasBadge]
  by_cases hheld : p.hasBadge b.id
  · exact .inl hheld
  · refine .inr (List.any_eq_true.2 ⟨b.earnedOn day, ?_, beq_self_eq_true b.id⟩)
    rw [earned_eq]
    exact List.mem_map_of_mem (List.mem_filter.2 ⟨hb, by simp [hheld, hmeets]⟩)

theorem earned_record (p : Progress) (o : Outcome) (day : Int) :
    (p.record o day).earned o day = [] := by
  rw [earned_eq, List.map_eq_nil_iff, List.filter_eq_nil_iff]
  intro b hb hdue
  rw [meets_record, advance_record, Bool.and_eq_true, Bool.not_eq_true'] at hdue
  obtain ⟨hnot, hmeets⟩ := hdue
  exact absurd (hasBadge_record_of_meets hb hmeets) (by simp [hnot])

theorem record_record (p : Progress) (o : Outcome) (day : Int) :
    (p.record o day).record o day = p.record o day := by
  rw [record_eq (p.record o day), advance_record, earned_record, List.append_nil]

/-! ## Badges where numbers are limited -/

/-- The player has the badge, or there was room to see that its rule is not met. -/
def Settled (p : Progress) (b : Badge) : Prop := p.hasBadge b.id ∨ p.meets? b.rule = .ok false

theorem eq_meets_of_meets? {r : BadgeRule} {met : Bool} (h : p.meets? r = .ok met) :
    met = p.meets r := by
  cases r with
  | totalStars count =>
    rw [meets?] at h
    split at h
    · exact (Except.ok.inj h).symm
    · cases h
  | _ => exact (Except.ok.inj h).symm

@[simp] theorem meets?_badges (p : Progress) (es : List EarnedBadge) (r : BadgeRule) :
    { p with badges := es }.meets? r = p.meets? r := by
  cases r <;> rfl

theorem Settled.append (h : p.Settled b) (given : List EarnedBadge) :
    { p with badges := p.badges ++ given }.Settled b := by
  rw [Settled, hasBadge_append, meets?_badges, Bool.or_eq_true]
  obtain hheld | hnot := h
  · exact .inl (.inl hheld)
  · exact .inr hnot

/-- Nothing is given for a badge that is settled. -/
theorem Settled.award? (h : p.Settled b) (es : List EarnedBadge) :
    award? day (p, es) b = .ok (p, es) := by
  rw [Progress.award?]
  split
  · rfl
  · next hnot =>
    have hmeets := h.resolve_left hnot
    have hdue : ¬ p.due b := by simp [due, ← eq_meets_of_meets? hmeets]
    rw [hmeets, Except.map, award_of_not_due hdue]

/-- What is given for a badge, if there is room, settles it. -/
theorem exists_of_award? (h : Progress.award? day (p, es) b = .ok (q, es')) :
    award day (p, es) b = (q, es') ∧ q.Settled b ∧
      ∃ given, q = { p with badges := p.badges ++ given } := by
  rw [Progress.award?] at h
  split at h
  · next hheld =>
    cases h
    have hdue : ¬ p.due b := by simp [due, hheld]
    exact ⟨award_of_not_due hdue es, .inl hheld, [], by simp⟩
  · next hnot =>
    obtain ⟨met, hmet, haward⟩ := exists_of_map_eq_ok h
    refine ⟨haward, ?_⟩
    cases met with
    | false =>
      have hdue : ¬ p.due b := by simp [due, ← eq_meets_of_meets? hmet]
      rw [award_of_not_due hdue] at haward
      cases haward
      exact ⟨.inr hmet, [], by simp⟩
    | true =>
      have hdue : p.due b := by simp [due, ← eq_meets_of_meets? hmet, hnot]
      rw [award_of_due hdue] at haward
      cases haward
      refine ⟨.inl ?_, _, rfl⟩
      rw [hasBadge_append, Bool.or_eq_true]
      exact .inr (by simp [Badge.earnedOn])

theorem foldlM_award?_of_settled (h : ∀ b ∈ bs, p.Settled b) (es : List EarnedBadge) :
    bs.foldlM (Progress.award? day) (p, es) = .ok (p, es) := by
  induction bs with
  | nil => rfl
  | cons b bs ih =>
    obtain ⟨hb, hbs⟩ := List.forall_mem_cons.1 h
    rw [List.foldlM_cons, hb.award? es]
    exact ih hbs

/-- A pass over a table, if there is room for it, is the usual one and settles all badges in it. -/
theorem exists_of_foldlM_award? (h : bs.foldlM (Progress.award? day) (p, es) = .ok (q, es')) :
    bs.foldl (award day) (p, es) = (q, es') ∧ (∀ b ∈ bs, q.Settled b) ∧
      ∃ given, q = { p with badges := p.badges ++ given } := by
  induction bs generalizing p es with
  | nil =>
    cases h
    exact ⟨rfl, List.forall_mem_nil _, [], by simp⟩
  | cons b bs ih =>
    rw [List.foldlM_cons] at h
    obtain ⟨⟨mid, ms⟩, hfirst, hrest⟩ := exists_of_bind_eq_ok h
    obtain ⟨haward, hb, given, rfl⟩ := exists_of_award? hfirst
    obtain ⟨hfold, hbs, more, rfl⟩ := ih hrest
    refine ⟨?_, List.forall_mem_cons.2 ⟨hb.append more, hbs⟩, given ++ more, ?_⟩
    · rw [List.foldl_cons, haward, hfold]
    · rw [List.append_assoc]

/-! ## Recording twice -/

/-- Where the streak has room, a level advances what it usually does. -/
theorem advance?_eq_ok :
    p.advance? o day = .ok q ↔
      (∃ streak, p.streak.touch? day = .ok streak) ∧ p.advance o day = q := by
  have hsame {streak : Streak} (hroom : p.streak.touch? day = .ok streak) :
      { p.advance o day with streak } = p.advance o day := by
    rw [Streak.eq_touch_of_touch? hroom, ← streak_advance p o day]
  rw [advance?]
  constructor
  · intro h
    obtain ⟨streak, hroom, rfl⟩ := exists_of_map_eq_ok h
    exact ⟨⟨streak, hroom⟩, (hsame hroom).symm⟩
  · rintro ⟨⟨streak, hroom⟩, rfl⟩
    rw [hroom, Except.map, hsame hroom]

/-- Where there is room, what is recorded is the usual progress, and every badge is settled then. -/
theorem exists_of_record? (h : p.record? o day = .ok (q, es)) :
    q = p.record o day ∧ es = p.earned o day ∧ ∀ b ∈ Badge.all, q.Settled b := by
  obtain ⟨mid, hmid, haward⟩ := exists_of_bind_eq_ok h
  obtain ⟨-, rfl⟩ := advance?_eq_ok.1 hmid
  obtain ⟨hfold, hsettled, -⟩ := exists_of_foldlM_award? haward
  rw [record, earned, awardAll, hfold]
  exact ⟨rfl, rfl, hsettled⟩

/-- Recording a level, and then the same again, on the same day and with the same rating, gives the
progress of the first record and no badges. So it is for every progress there is, and where numbers
are limited there is room for the second record if there was for the first. -/
theorem record?_again (p : Progress) (o : Outcome) (day : Int) :
    (p.record o day).record o day = p.record o day ∧ (p.record o day).earned o day = [] ∧
      ∀ q es, p.record? o day = .ok (q, es) →
        q = p.record o day ∧ es = p.earned o day ∧ q.record? o day = .ok (q, []) := by
  refine ⟨record_record p o day, earned_record p o day, ?_⟩
  intro q es h
  obtain ⟨hrecord, hearned, hsettled⟩ := exists_of_record? h
  refine ⟨hrecord, hearned, ?_⟩
  have hadvance : q.advance? o day = .ok q := by
    rw [advance?_eq_ok, hrecord, streak_record]
    exact ⟨⟨_, Streak.touch?_touch p.streak day⟩, advance_record p o day⟩
  rw [record?, hadvance]
  exact foldlM_award?_of_settled hsettled []

/-- Levels listed over and over and one that is none, a rating of another level, worlds out of order
and one that is none, and a badge that nobody knows. -/
def disarray : Progress where
  completed := List.replicate 34 7 ++ [300]
  stars := ⟨[(9, 200)], by decide⟩
  streak := ⟨6, some 41⟩
  unlockedWorlds := [9, 2, 2]
  badges := [⟨"first_light", "", "", -3⟩, ⟨"star_master", "", "", 0⟩]

/-- The first record brings seven badges and a world, the second one nothing. -/
theorem record?_again_disarray : ∃ q es, disarray.record? ⟨7, 3, true⟩ 42 = .ok (q, es) ∧
    es.map EarnedBadge.id = ["first_step", "ten_levels", "twenty_five", "star_collector",
      "streak_3", "streak_7", "world1_done"] ∧
    q.unlockedWorlds = [9, 2, 2, 3] ∧ q.record? ⟨7, 3, true⟩ 42 = .ok (q, []) := by
  have hroom : disarray.record? ⟨7, 3, true⟩ 42 =
      .ok (disarray.record ⟨7, 3, true⟩ 42, disarray.earned ⟨7, 3, true⟩ 42) := by decide +kernel
  obtain ⟨-, -, htwice⟩ := record?_again disarray ⟨7, 3, true⟩ 42
  obtain ⟨-, -, hsecond⟩ := htwice _ _ hroom
  exact ⟨_, _, hroom, by decide +kernel, by decide +kernel, hsecond⟩

end Progress

end BlockPuzzle
