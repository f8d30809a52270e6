import BlockPuzzle.Proofs.Game.History
import BlockPuzzle.Proofs.Wire.Progress

/-!
# Saving and loading

A progress is saved when a player leaves and loaded when the player comes back. What happens in
between visits is nothing, so that it makes no difference where the events of a player are cut into
visits, as long as every number has room in the saved text.

## Main definitions

* `Progress.Event.Fits`: the numbers of an event have room.
* `Progress.resume`: a visit, from a saved progress on.

## Main statements

* `Progress.Fits.handle`, `Progress.Fits.replay`: events keep the numbers of a progress in their
  bounds.
* `Progress.load_save_resume`: saving and loading loses nothing, however often it is done.
-/

namespace BlockPuzzle

theorem Streak.fits_touch {s : Streak} {day : Int} (hday : Width.long.HasRoom day)
    (hcount : (s.touch day).count < Width.word.size) : (s.touch day).Fits := by
  refine ⟨hcount, ?_⟩
  intro d hd
  rw [Streak.lastDay_touch] at hd
  cases hd
  exact hday

theorem Ratings.Fits.raise {r : Ratings} {level stars : Nat} (h : r.Fits)
    (hlevel : level < Width.word.size) (hstars : stars < Width.byte.size) :
    (r.raise level stars).Fits := by
  have hbest : r.best level < Width.byte.size := by
    rw [Ratings.best]
    cases hget : r.get? level with
    | none => decide
    | some best =>
      obtain ⟨before, behind, hentries, -⟩ := List.lookup_eq_some_iff.1 hget
      exact (h (level, best) (hentries ▸ List.mem_append_right _ List.mem_cons_self)).2
  exact h.insert hlevel (Nat.max_lt.2 ⟨hbest, hstars⟩)

namespace Progress

variable {p : Progress} {es : List Event} {e : Event} {o : Outcome} {day : Int}

/-- The numbers have room. -/
def Event.Fits : Event → Prop
  | .finish o day =>
    o.level < Width.word.size ∧ o.stars < Width.byte.size ∧ Width.long.HasRoom day
  | .setFullUnlock _ | .reset => True

def Event.decidableFits : (e : Event) → Decidable e.Fits
  | .finish _ _ => inferInstanceAs (Decidable (_ ∧ _ ∧ _))
  | .setFullUnlock _ | .reset => inferInstanceAs (Decidable True)

instance (e : Event) : Decidable e.Fits := e.decidableFits

/-! ## Events keep the numbers in their bounds -/

theorem allWorlds_lt : ∀ w ∈ allWorlds, w < Width.word.size := by decide

theorem addUnlocked_lt {done : Nat} {ws : List Nat} (h : ∀ w ∈ ws, w < Width.word.size) :
    ∀ w ∈ addUnlocked done ws, w < Width.word.size := by
  have hthresholds : ∀ t ∈ thresholds, t.1 < Width.word.size := by decide
  intro w hw
  obtain hw | ⟨t, ht, -, rfl⟩ := mem_addUnlocked.1 hw
  · exact h w hw
  · exact hthresholds t ht

theorem Fits.record (h : p.Fits) (ho : (Event.finish o day).Fits)
    (hcount : (p.streak.touch day).count < Width.word.size) : (p.record o day).Fits := by
  obtain ⟨hlevel, hstars, hday⟩ := ho
  refine ⟨?_, ?_, ?_, ?_, ?_⟩
  · rw [completed_record, completed_complete]
    split
    · exact h.completed
    · exact List.forall_mem_append.2 ⟨h.completed, List.forall_mem_singleton.2 hlevel⟩
  · rw [stars_record]
    exact h.stars.raise hlevel hstars
  · rw [streak_record]
    exact Streak.fits_touch hday hcount
  · rw [unlockedWorlds_record]
    split
    · exact allWorlds_lt
    · exact addUnlocked_lt h.unlockedWorlds
  · rw [badges_record, earned_eq]
    refine List.forall_mem_append.2 ⟨h.badges, List.forall_mem_map.2 ?_⟩
    intro b _
    exact hday

/-- Whatever happens keeps the numbers in their bounds, unless the streak outgrows its counter. -/
theorem Fits.handle (h : p.Fits) (he : e.Fits)
    (hcount : (p.handle e).streak.count < Width.word.size) : (p.handle e).Fits := by
  cases e with
  | finish o day =>
    rw [Progress.handle, streak_record] at hcount
    exact h.record he hcount
  | setFullUnlock on =>
    refine ⟨h.completed, h.stars, h.streak, ?_, h.badges⟩
    rw [Progress.handle, setFullUnlock]
    cases on with
    | true => exact allWorlds_lt
    | false => exact h.unlockedWorlds
  | reset => exact fits_empty

theorem Fits.replay (h : p.Fits) (hes : ∀ e ∈ es, e.Fits)
    (hcount : ∀ past, past <+: es → (p.replay past).streak.count < Width.word.size) :
    (p.replay es).Fits := by
  induction es using List.reverseRecOn with
  | nil => exact h
  | append_singleton es e ih =>
    rw [List.forall_mem_append, List.forall_mem_singleton] at hes
    have hpast : (p.replay es).Fits :=
      ih hes.1 fun past hpast => hcount past (hpast.trans (List.prefix_append es [e]))
    have hlast := hcount (es ++ [e]) List.prefix_rfl
    rw [replay_concat] at hlast ⊢
    exact hpast.handle hes.2 hlast

/-! ## Visits -/

/-- A visit: the progress as it was saved is loaded, and then the events happen. -/
def resume (p : Progress) (es : List Event) : Except Fault Progress :=
  (load p.save).map (·.replay es)

theorem resume_of_fits (h : p.Fits) (es : List Event) : p.resume es = .ok (p.replay es) := by
  rw [resume, load_save h]
  rfl

/-- It makes no difference where the events are cut into visits. -/
theorem Fits.foldlM_resume {visits : List (List Event)} (h : p.Fits)
    (hes : ∀ e ∈ visits.flatten, e.Fits)
    (hcount : ∀ past, past <+: visits.flatten → (p.replay past).streak.count < Width.word.size) :
    visits.foldlM resume p = .ok (p.replay visits.flatten) := by
  induction visits generalizing p with
  | nil => rfl
  | cons es visits ih =>
    rw [List.flatten_cons] at hes hcount ⊢
    rw [List.forall_mem_append] at hes
    -- The rest begins with the progress that the first visit leaves, whose past is the visit.
    have hvisit : (p.replay es).Fits :=
      h.replay hes.1 fun past hpast => hcount past (hpast.trans (List.prefix_append _ _))
    have hrest : ∀ past, past <+: visits.flatten →
        ((p.replay es).replay past).streak.count < Width.word.size := by
      intro past hpast
      rw [← replay_append]
      exact hcount (es ++ past) ((List.prefix_append_right_inj es).2 hpast)
    rw [List.foldlM_cons, resume_of_fits h, replay_append]
    exact ih hvisit hes.2 hrest

/-- A progress whose numbers have room in their words is loaded as it was saved. Such are all that
can be loaded at all, and such they stay, whatever happens, unless a streak outgrows its counter. So
the events of a player lead to the same progress wherever they are cut into visits. -/
theorem load_save_resume :
    (∀ p : Progress, p.Fits → load p.save = .ok p) ∧
      (∀ s p, load s = .ok p → p.Fits) ∧
      ∀ (p : Progress) (visits : List (List Event)), p.Fits → (∀ e ∈ visits.flatten, e.Fits) →
        (∀ past, past <+: visits.flatten → (p.replay past).streak.count < Width.word.size) →
        (p.replay visits.flatten).Fits ∧
          visits.foldlM resume p = .ok (p.replay visits.flatten) := by
  refine ⟨fun p h => load_save h, fun s p h => fits_of_load h, ?_⟩
  intro p visits h hes hcount
  exact ⟨h.replay hes hcount, h.foldlM_resume hes hcount⟩

/-- Numbers at the ends of their words, levels out of order, and a badge that is full of escapes. -/
def utmost : Progress where
  completed := [4294967295, 0, 7]
  stars := ⟨[(0, 255), (7, 0), (4294967295, 3)], by decide⟩
  streak := ⟨4294967294, some 9223372036854775806⟩
  unlockedWorlds := [8, 1, 4294967295]
  badges := [⟨"\"\\/\n\x00", "\x7f ä", "🗺️", -9223372036854775808⟩]

/-- A last day that is the greatest there is, a new start, and a first day. -/
def Event.threeVisits : List (List Event) :=
  [[.finish ⟨9, 2, false⟩ 9223372036854775807, .setFullUnlock true], [],
    [.setFullUnlock false, .reset], [.finish ⟨1, 3, true⟩ (-9223372036854775808)]]

theorem load_save_resume_threeVisits :
    load utmost.save = .ok utmost ∧
      Event.threeVisits.foldlM resume utmost = .ok (utmost.replay Event.threeVisits.flatten) ∧
      (utmost.replay Event.threeVisits.flatten).badges.map EarnedBadge.id = ["first_step"] := by
  have hfits : utmost.Fits :=
    ⟨by decide, by decide, ⟨by decide, by decide⟩, by decide, by decide⟩
  have hevents : ∀ e ∈ Event.threeVisits.flatten, e.Fits := by decide
  have hcount : ∀ past, past <+: Event.threeVisits.flatten →
      (utmost.replay past).streak.count < Width.word.size := by
    simp only [← List.mem_inits]
    decide
  obtain ⟨hload, -, hvisits⟩ := load_save_resume
  exact ⟨hload utmost hfits, (hvisits utmost Event.threeVisits hfits hevents hcount).2, by decide⟩

end Progress

end BlockPuzzle
