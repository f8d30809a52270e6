import BlockPuzzle.Proofs.Game.History

/-!
# Which badges a player holds

A badge is given on the day on which its rule is first met, and it is kept until the next reset.
Most rules stay met once they are, so that their badges can be read off the progress as it is; a
streak can break, but its badge is kept all the same.

## Main definitions

* `Progress.MetAt`, `Progress.MetIn`: a rule that was met right after a level was finished, with no
  reset since.
* `Progress.FirstMetOn`: the day on which that happened first.
* `Progress.held`: how often, and since when, a player holds a badge.

## Main statements

* `Progress.metIn_iff_meets`: a rule other than a streak stays met.
* `Progress.held_record`: what a finished level changes about one badge.
* `Progress.badges_replay`: the badges after any history.
-/

namespace BlockPuzzle

theorem Badge.filter_id : ∀ b ∈ Badge.all, Badge.all.filter (·.id == b.id) = [b] := by decide

namespace Progress

variable {es pre : List Event} {e : Event} {p : Progress} {o : Outcome} {day : Int} {r : BadgeRule}
  {b : Badge}

/-! ## When a rule was met -/

/-- Right after the events `pre` a level was finished on `day`, which met the rule, and there was no
reset since. -/
def MetAt (es : List Event) (r : BadgeRule) (pre : List Event) (day : Int) : Prop :=
  ∃ o post, es = pre ++ .finish o day :: post ∧ .reset ∉ post ∧
    (replay {} (pre ++ [.finish o day])).meets r

def MetIn (es : List Event) (r : BadgeRule) : Prop := ∃ pre day, MetAt es r pre day

def FirstMetOn (es : List Event) (r : BadgeRule) (day : Int) : Prop :=
  ∃ pre, MetAt es r pre day ∧ ¬ MetIn pre r

theorem not_metIn_nil : ¬ MetIn [] r := by
  rintro ⟨pre, day, o, post, hsplit, -⟩
  simp at hsplit

theorem metAt_concat : MetAt (es ++ [e]) r pre day ↔
    e ≠ .reset ∧ MetAt es r pre day ∨
      pre = es ∧ (replay {} (es ++ [e])).meets r ∧ ∃ o, e = .finish o day := by
  constructor
  · rintro ⟨o, post, hsplit, hreset, hmeets⟩
    rcases List.eq_nil_or_concat' post with rfl | ⟨post, last, rfl⟩
    · obtain ⟨rfl, he⟩ := List.append_inj' hsplit rfl
      obtain rfl : e = .finish o day := List.singleton_inj.1 he
      exact .inr ⟨rfl, hmeets, o, rfl⟩
    · rw [← List.cons_append, ← List.append_assoc] at hsplit
      obtain ⟨rfl, he⟩ := List.append_inj' hsplit rfl
      obtain rfl : e = last := List.singleton_inj.1 he
      simp only [List.mem_append, List.mem_singleton, not_or] at hreset
      exact .inl ⟨Ne.symm hreset.2, o, post, rfl, hreset.1, hmeets⟩
  · rintro (⟨he, o, post, rfl, hreset, hmeets⟩ | ⟨rfl, hmeets, o, rfl⟩)
    · refine ⟨o, post ++ [e], by simp, ?_, hmeets⟩
      simp [hreset, Ne.symm he]
    · exact ⟨o, [], rfl, by simp, hmeets⟩

theorem metIn_concat_finish : MetIn (es ++ [.finish o day]) r ↔
    MetIn es r ∨ (replay {} (es ++ [.finish o day])).meets r := by
  simp [MetIn, metAt_concat, exists_or]

theorem metIn_concat_setFullUnlock {on : Bool} :
    MetIn (es ++ [.setFullUnlock on]) r ↔ MetIn es r := by
  simp [MetIn, metAt_concat]

theorem not_metIn_concat_reset : ¬ MetIn (es ++ [.reset]) r := by
  simp [MetIn, metAt_concat]

theorem FirstMetOn.metIn (h : FirstMetOn es r day) : MetIn es r := by
  obtain ⟨pre, hmet, -⟩ := h
  exact ⟨pre, day, hmet⟩

/-- What was met before is not met for the first time again. -/
theorem firstMetOn_concat : FirstMetOn (es ++ [e]) r day ↔
    e ≠ .reset ∧ FirstMetOn es r day ∨
      ¬ MetIn es r ∧ (replay {} (es ++ [e])).meets r ∧ ∃ o, e = .finish o day := by
  constructor
  · rintro ⟨pre, hmet, hfirst⟩
    rcases metAt_concat.1 hmet with ⟨he, hmet⟩ | ⟨rfl, hmeets⟩
    · exact .inl ⟨he, pre, hmet, hfirst⟩
    · exact .inr ⟨hfirst, hmeets⟩
  · rintro (⟨he, pre, hmet, hfirst⟩ | ⟨hfirst, hmeets⟩)
    · exact ⟨pre, metAt_concat.2 (.inl ⟨he, hmet⟩), hfirst⟩
    · exact ⟨es, metAt_concat.2 (.inr ⟨rfl, hmeets⟩), hfirst⟩

theorem exists_firstMetOn (h : MetIn es r) : ∃ day, FirstMetOn es r day := by
  induction es using List.reverseRecOn with
  | nil => exact absurd h not_metIn_nil
  | append_singleton es e ih =>
    simp only [firstMetOn_concat]
    by_cases hbefore : MetIn es r
    · obtain ⟨day, hday⟩ := ih hbefore
      refine ⟨day, .inl ⟨?_, hday⟩⟩
      rintro rfl
      exact not_metIn_concat_reset h
    · obtain ⟨pre, day, hmet⟩ := h
      rcases metAt_concat.1 hmet with ⟨-, hmet⟩ | ⟨-, hmeets⟩
      · exact absurd ⟨pre, day, hmet⟩ hbefore
      · exact ⟨day, .inr ⟨hbefore, hmeets⟩⟩

/-! ## Rules that stay met -/

theorem meets_record_of_meets (hr : ∀ count, r ≠ .streak count) (h : p.meets r) (o : Outcome)
    (day : Int) : (p.record o day).meets r := by
  have hgrows := p.completed_prefix_complete o.level
  cases r with
  | completed count =>
    have hlength := hgrows.length_le
    simp only [meets, completed_record, decide_eq_true_eq] at h ⊢
    omega
  | totalStars count =>
    have htotal := p.stars.total_le_total_raise o.level o.stars
    simp only [meets, decide_eq_true_eq] at h ⊢
    exact Nat.le_trans h (by simpa [totalStars] using htotal)
  | streak count => exact absurd rfl (hr count)
  | completedInRange first last count =>
    have hcount := hgrows.sublist.countP_le (p := fun id => first ≤ id && id ≤ last)
    simp only [meets, completed_record, decide_eq_true_eq] at h ⊢
    omega

@[simp] theorem meets_setFullUnlock (p : Progress) (on : Bool) (r : BadgeRule) :
    (p.setFullUnlock on).meets r = p.meets r := by
  cases r <;> rfl

/-- A rule other than a streak was met some time since the last reset exactly if it is met now. -/
theorem metIn_iff_meets (hr : ∀ count, r ≠ .streak count) (hnone : ¬ ({} : Progress).meets r) :
    MetIn es r ↔ (replay {} es).meets r := by
  induction es using List.reverseRecOn with
  | nil => exact iff_of_false not_metIn_nil hnone
  | append_singleton es e ih =>
    cases e with
    | finish o day =>
      rw [metIn_concat_finish, ih]
      refine or_iff_right_of_imp ?_
      intro hmeets
      rw [replay_concat]
      exact meets_record_of_meets hr hmeets o day
    | setFullUnlock on =>
      rw [metIn_concat_setFullUnlock, ih, replay_concat, handle, meets_setFullUnlock]
    | reset =>
      rw [replay_concat]
      exact iff_of_false not_metIn_concat_reset hnone

/-! ## One badge -/

/-- What the player holds of a badge. -/
def held (p : Progress) (b : Badge) : List EarnedBadge := p.badges.filter (·.id == b.id)

theorem hasBadge_iff : p.hasBadge b.id ↔ p.held b ≠ [] := by
  simp [hasBadge, held]

/-- A finished level brings a badge once, if it is due. -/
theorem held_record (hb : b ∈ Badge.all) (p : Progress) (o : Outcome) (day : Int) :
    (p.record o day).held b = p.held b ++
      if p.held b = [] ∧ (p.record o day).meets b.rule then [b.earnedOn day] else [] := by
  have hearned : (p.earned o day).filter (·.id == b.id) =
      ([b].filter fun c => !p.hasBadge c.id && (p.record o day).meets c.rule).map
        (·.earnedOn day) := by
    rw [earned_eq, List.filter_map, List.filter_filter, ← Badge.filter_id b hb, List.filter_filter]
    simp only [Function.comp_def, Badge.earnedOn, Bool.and_comm]
  have hbadges : (p.record o day).badges = p.badges ++ p.earned o day := by rw [record_eq]
  have hnew : p.hasBadge b.id = false ↔ p.held b = [] := by
    rw [← Bool.not_eq_true, hasBadge_iff, not_not]
  rw [held, hbadges, List.filter_append, hearned, ← held]
  simp only [← hnew]
  split <;> simp_all

/-- A badge whose rule was not met is not held, and otherwise it is held once, since the day on
which its rule was met first. -/
theorem held_replay (hb : b ∈ Badge.all) (es : List Event) :
    (¬ MetIn es b.rule → (replay {} es).held b = []) ∧
      ∀ day, FirstMetOn es b.rule day → (replay {} es).held b = [b.earnedOn day] := by
  induction es using List.reverseRecOn with
  | nil => exact ⟨fun _ => rfl, fun day hday => absurd hday.metIn not_metIn_nil⟩
  | append_singleton es e ih =>
    obtain ⟨hnone, hfirst⟩ := ih
    cases e with
    | finish o day =>
      have hstep : replay {} (es ++ [.finish o day]) = (replay {} es).record o day :=
        replay_concat {} es (.finish o day)
      constructor
      · intro hnot
        rw [metIn_concat_finish, not_or, hstep] at hnot
        simp [hstep, held_record hb, hnone hnot.1, hnot.2]
      · intro d hd
        rcases firstMetOn_concat.1 hd with ⟨-, hd⟩ | ⟨hbefore, hnow, o', he⟩
        · simp [hstep, held_record hb, hfirst d hd]
        · obtain ⟨-, rfl⟩ := Event.finish.inj he
          rw [hstep] at hnow
          simp [hstep, held_record hb, hnone hbefore, hnow]
    | setFullUnlock on =>
      have hstep : (replay {} (es ++ [.setFullUnlock on])).held b = (replay {} es).held b := by
        rw [replay_concat]
        rfl
      rw [hstep, metIn_concat_setFullUnlock]
      refine ⟨hnone, ?_⟩
      intro d hd
      rcases firstMetOn_concat.1 hd with ⟨-, hd⟩ | ⟨-, -, o, he⟩
      · exact hfirst d hd
      · cases he
    | reset =>
      rw [replay_concat]
      exact ⟨fun _ => rfl, fun day hday => absurd hday.metIn not_metIn_concat_reset⟩

theorem hasBadge_replay_iff (hb : b ∈ Badge.all) (es : List Event) :
    (replay {} es).hasBadge b.id ↔ MetIn es b.rule := by
  obtain ⟨hnone, hfirst⟩ := held_replay hb es
  rw [hasBadge_iff]
  constructor
  · intro hheld
    by_contra hnot
    exact hheld (hnone hnot)
  · intro hmet
    obtain ⟨day, hday⟩ := exists_firstMetOn hmet
    simp [hfirst day hday]

/-- No rule is met before anything has happened. -/
theorem not_meets_empty : ∀ b ∈ Badge.all, ¬ ({} : Progress).meets b.rule := by decide

/-- After any history, a badge is held exactly if its rule was met right after some level was
finished since the last reset. It is then held once, since the first day on which that was so.
Unless the rule asks for a streak, the badge is held exactly if the rule is met now. Whatever
finished level comes next, the badges that it brings are added at the end, in the order of the
table: those that the player does not have and whose rules are met then. -/
theorem badges_replay (es : List Event) :
    let p := replay {} es
    (∀ b ∈ Badge.all,
      (p.hasBadge b.id ↔ MetIn es b.rule) ∧
        (MetIn es b.rule → ∃ day, FirstMetOn es b.rule day) ∧
        (∀ day, FirstMetOn es b.rule day →
          p.badges.filter (·.id == b.id) = [b.earnedOn day]) ∧
        ((∀ count, b.rule ≠ .streak count) → (p.hasBadge b.id ↔ p.meets b.rule))) ∧
      ∀ (o : Outcome) (day : Int),
        (p.record o day).badges = p.badges ++ p.earned o day ∧
          p.earned o day =
            (Badge.all.filter fun b => !p.hasBadge b.id && (p.record o day).meets b.rule).map
              (·.earnedOn day) := by
  intro p
  constructor
  · intro b hb
    have hheld : p.hasBadge b.id ↔ MetIn es b.rule := hasBadge_replay_iff hb es
    refine ⟨hheld, exists_firstMetOn, (held_replay hb es).2, ?_⟩
    intro hr
    exact hheld.trans (metIn_iff_meets hr (not_meets_empty b hb))
  · intro o day
    exact ⟨by rw [record_eq], earned_eq p o day⟩

/-- The badge for three days in a row. -/
def threeDays : Badge := ⟨"streak_3", "3-Day Streak", "🔥", .streak 3⟩

def Event.twoDays : List Event :=
  [.finish ⟨7, 3, true⟩ 1, .reset, .finish ⟨1, 1, false⟩ 5, .finish ⟨2, 1, false⟩ 6,
    .setFullUnlock true]

/-- A third day in a row, and another level after a day off. -/
def Event.brokenStreak : List Event :=
  Event.twoDays ++ [.finish ⟨1, 2, false⟩ 7, .finish ⟨3, 1, false⟩ 9]

/-- The badge stays when the streak is broken. -/
theorem badges_replay_brokenStreak :
    threeDays ∈ Badge.all ∧ FirstMetOn Event.brokenStreak threeDays.rule 7 ∧
      (replay {} Event.brokenStreak).badges.filter (·.id == threeDays.id) =
        [threeDays.earnedOn 7] ∧
      ¬ (replay {} Event.brokenStreak).meets threeDays.rule := by
  have hb : threeDays ∈ Badge.all := by decide
  have hbefore : ¬ MetIn Event.twoDays threeDays.rule := by
    have hnone : ¬ (replay {} Event.twoDays).hasBadge threeDays.id := by decide
    exact mt ((badges_replay Event.twoDays).1 threeDays hb).1.2 hnone
  have hfirst : FirstMetOn Event.brokenStreak threeDays.rule 7 := by
    refine ⟨Event.twoDays, ⟨⟨1, 2, false⟩, [.finish ⟨3, 1, false⟩ 9], rfl, ?_, ?_⟩, hbefore⟩
    · decide
    · decide
  obtain ⟨hbadges, -⟩ := badges_replay Event.brokenStreak
  obtain ⟨-, -, honce, -⟩ := hbadges threeDays hb
  exact ⟨hb, hfirst, honce 7 hfirst, by decide⟩

end Progress

end BlockPuzzle
