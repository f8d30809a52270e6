import BlockPuzzle.Game.Progress

/-!
# Giving badges

One pass over the table gives every badge that is due when the pass begins. A badge that is given on
the way makes no other one due, for no rule looks at badges and no two badges have one identifier.

## Main definitions

* `Progress.due`: a badge that the player does not have and whose rule is met.

## Main statements

* `Progress.awardAll_eq`: what a pass over the table gives.
* `Progress.record_eq`, `Progress.earned_eq`: what a finished level brings.
-/

namespace BlockPuzzle

theorem Badge.nodup_ids : (Badge.all.map Badge.id).Nodup := by decide

namespace Progress

variable {p : Progress} {b c : Badge} {bs : List Badge} {es : List EarnedBadge} {o : Outcome}
  {day : Int}

def due (p : Progress) (b : Badge) : Bool := !p.hasBadge b.id && p.meets b.rule

/-! ## Badges play no part in any rule -/

@[simp] theorem meets_badges (p : Progress) (es : List EarnedBadge) (r : BadgeRule) :
    { p with badges := es }.meets r = p.meets r := by
  cases r <;> rfl

theorem hasBadge_append (p : Progress) (id : String) (es : List EarnedBadge) :
    { p with badges := p.badges ++ es }.hasBadge id = (p.hasBadge id || es.any (·.id == id)) :=
  List.any_append

theorem due_append_of_ne (h : c.id ≠ b.id) :
    { p with badges := p.badges ++ [b.earnedOn day] }.due c = p.due c := by
  have hid : ((b.earnedOn day).id == c.id) = false := by simpa [Badge.earnedOn] using h.symm
  simp [due, hasBadge_append, hid]

/-! ## A pass over a table -/

theorem award_of_due (h : p.due b) (es : List EarnedBadge) : award day (p, es) b =
    ({ p with badges := p.badges ++ [b.earnedOn day] }, es ++ [b.earnedOn day]) := by
  simp_all [award, due]

theorem award_of_not_due (h : ¬ p.due b) (es : List EarnedBadge) :
    award day (p, es) b = (p, es) := by
  simp_all [award, due]

theorem foldl_award (hbs : (bs.map Badge.id).Nodup) (p : Progress) (es : List EarnedBadge) :
    bs.foldl (award day) (p, es) =
      ({ p with badges := p.badges ++ (bs.filter p.due).map (·.earnedOn day) },
        es ++ (bs.filter p.due).map (·.earnedOn day)) := by
  induction bs generalizing p es with
  | nil => simp
  | cons b bs ih =>
    rw [List.map_cons, List.nodup_cons] at hbs
    obtain ⟨hb, hbs⟩ := hbs
    rw [List.foldl_cons]
    by_cases hdue : p.due b
    · -- The badge that is given now leaves the others due as they were.
      have hrest : bs.filter { p with badges := p.badges ++ [b.earnedOn day] }.due =
          bs.filter p.due := by
        apply List.filter_congr
        intro c hc
        apply due_append_of_ne
        intro heq
        exact hb (heq ▸ List.mem_map_of_mem hc)
      rw [award_of_due hdue, ih hbs, hrest]
      simp [hdue]
    · rw [award_of_not_due hdue, ih hbs]
      simp [hdue]

theorem awardAll_eq (p : Progress) (day : Int) : p.awardAll day =
    ({ p with badges := p.badges ++ (Badge.all.filter p.due).map (·.earnedOn day) },
      (Badge.all.filter p.due).map (·.earnedOn day)) := by
  rw [awardAll, foldl_award Badge.nodup_ids, List.nil_append]

/-! ## A finished level -/

@[simp] theorem badges_complete (p : Progress) (level : Nat) :
    (p.complete level).badges = p.badges := by
  unfold complete
  split <;> rfl

@[simp] theorem badges_advance (p : Progress) (o : Outcome) (day : Int) :
    (p.advance o day).badges = p.badges := p.badges_complete o.level

theorem record_eq (p : Progress) (o : Outcome) (day : Int) :
    p.record o day = { p.advance o day with badges := p.badges ++ p.earned o day } := by
  rw [record, earned, awardAll_eq, badges_advance]

/-- No rule looks at badges, so that one may as well look at it after they were given. -/
theorem meets_record (p : Progress) (o : Outcome) (day : Int) (r : BadgeRule) :
    (p.record o day).meets r = (p.advance o day).meets r := by
  rw [record_eq, meets_badges]

/-- A finished level brings the badges that the player did not have, and whose rules are met now. -/
theorem earned_eq (p : Progress) (o : Outcome) (day : Int) : p.earned o day =
    (Badge.all.filter fun b => !p.hasBadge b.id && (p.record o day).meets b.rule).map
      (·.earnedOn day) := by
  have hdue : (p.advance o day).due =
      fun b => !p.hasBadge b.id && (p.record o day).meets b.rule := by
    funext b
    rw [due, hasBadge, badges_advance, ← hasBadge, meets_record]
  rw [earned, awardAll_eq, hdue]

end Progress

end BlockPuzzle
