import BlockPuzzle.Proofs.Game.History
import BlockPuzzle.Wire.Progress

/-!
# Which levels are unlocked

A level is unlocked if its world is, and a world is unlocked if it is listed or if all worlds are
held open. The list only grows. So an unlocked level stays unlocked unless it was only held open,
which happens where a progress is loaded that does not list what it holds open.

## Main definitions

* `Progress.ListsOpen`: every world that is held open is listed.
* `Progress.Fair`: a level is finished only while it is unlocked.

## Main statements

* `Progress.isLevelUnlocked_replay_iff`: from a progress on, levels stay unlocked exactly if it
  lists what it holds open.
* `Progress.exists_unlocked_of_fair`: a player always has a level to go on with.
-/

namespace BlockPuzzle

namespace Progress

variable {p : Progress} {es : List Event} {e : Event} {level world : Nat}

/-! ## Worlds and levels -/

theorem mem_allWorlds : world ∈ allWorlds ↔ 1 ≤ world ∧ world ≤ 8 := by
  simp only [allWorlds, World.number, List.mem_range'_1]
  omega

theorem isWorldUnlocked_iff :
    p.isWorldUnlocked world ↔ p.fullUnlock ∨ world ∈ p.unlockedWorlds := by
  simp [isWorldUnlocked]

theorem isLevelUnlocked_iff : p.isLevelUnlocked level ↔
    1 ≤ level ∧ level ≤ 200 ∧ p.isWorldUnlocked (World.ofLevel level) := by
  simp only [isLevelUnlocked, Bool.and_eq_true, decide_eq_true_eq, and_assoc]
  rfl

theorem ofLevel_mem_allWorlds (h : 1 ≤ level ∧ level ≤ 200) : World.ofLevel level ∈ allWorlds := by
  rw [mem_allWorlds, World.ofLevel, World.size]
  omega

/-- Every world has a first level. -/
theorem exists_ofLevel_eq (h : world ∈ allWorlds) :
    ∃ level, 1 ≤ level ∧ level ≤ 200 ∧ World.ofLevel level = world := by
  rw [mem_allWorlds] at h
  refine ⟨25 * (world - 1) + 1, by omega, by omega, ?_⟩
  rw [World.ofLevel, World.size]
  omega

/-! ## Worlds that are held open -/

/-- Every world that is held open is listed. -/
def ListsOpen (p : Progress) : Prop := p.fullUnlock → allWorlds ⊆ p.unlockedWorlds

instance (p : Progress) : Decidable p.ListsOpen := inferInstanceAs (Decidable (_ → _))

/-- Whatever happens makes up for a list that was not kept. -/
theorem listsOpen_handle (p : Progress) (e : Event) : (p.handle e).ListsOpen := by
  cases e with
  | finish o day =>
    intro hfull
    rw [handle, fullUnlock_record] at hfull
    rw [handle, unlockedWorlds_record, if_pos hfull]
    exact List.Subset.refl allWorlds
  | setFullUnlock on =>
    intro hfull
    obtain rfl : on = true := hfull
    rw [handle, setFullUnlock, if_pos rfl]
    exact List.Subset.refl allWorlds
  | reset => exact fun hfull => absurd hfull Bool.false_ne_true

theorem ListsOpen.replay (h : p.ListsOpen) (es : List Event) : (p.replay es).ListsOpen := by
  rcases List.eq_nil_or_concat' es with rfl | ⟨es, e, rfl⟩
  · exact h
  · rw [replay_concat]
    exact listsOpen_handle _ e

/-- Among worlds that are listed if they are held open, the list is all that counts. -/
theorem ListsOpen.isWorldUnlocked_iff (h : p.ListsOpen) (hworld : world ∈ allWorlds) :
    p.isWorldUnlocked world ↔ world ∈ p.unlockedWorlds := by
  rw [Progress.isWorldUnlocked_iff]
  exact or_iff_right_of_imp fun hfull => h hfull hworld

/-- No event but a reset takes a world from the list. -/
theorem mem_unlockedWorlds_handle (he : e ≠ .reset) (hworld : world ∈ allWorlds)
    (h : world ∈ p.unlockedWorlds) : world ∈ (p.handle e).unlockedWorlds := by
  cases e with
  | finish o day =>
    rw [handle, unlockedWorlds_record]
    split
    · exact hworld
    · exact mem_addUnlocked.2 (.inl h)
  | setFullUnlock on =>
    cases on with
    | true => exact hworld
    | false => exact h
  | reset => exact absurd rfl he

theorem mem_unlockedWorlds_replay (hes : .reset ∉ es) (hworld : world ∈ allWorlds)
    (h : world ∈ p.unlockedWorlds) : world ∈ (p.replay es).unlockedWorlds := by
  induction es generalizing p with
  | nil => exact h
  | cons e es ih =>
    obtain ⟨he, hes⟩ := not_or.1 (mt List.mem_cons.2 hes)
    exact ih hes (mem_unlockedWorlds_handle (Ne.symm he) hworld h)

theorem ListsOpen.isLevelUnlocked_replay (h : p.ListsOpen) (hes : .reset ∉ es)
    (hlevel : p.isLevelUnlocked level) : (p.replay es).isLevelUnlocked level := by
  rw [isLevelUnlocked_iff] at hlevel ⊢
  obtain ⟨hlow, hhigh, hworld⟩ := hlevel
  have hall := ofLevel_mem_allWorlds ⟨hlow, hhigh⟩
  rw [h.isWorldUnlocked_iff hall] at hworld
  refine ⟨hlow, hhigh, ?_⟩
  rw [(h.replay es).isWorldUnlocked_iff hall]
  exact mem_unlockedWorlds_replay hes hall hworld

/-- Once anything has happened, a level that is unlocked stays so until the next reset. From a
progress as it is loaded on, this holds exactly if the progress lists the worlds that it holds open.
Otherwise some world is lost when the first thing to happen is that worlds are no longer held
open. -/
theorem isLevelUnlocked_replay_iff (p : Progress) :
    (∀ (pre post : List Event) (level : Nat), pre ≠ [] → .reset ∉ post →
        (p.replay pre).isLevelUnlocked level → (p.replay (pre ++ post)).isLevelUnlocked level) ∧
      ((∀ (es : List Event) (level : Nat), .reset ∉ es →
          p.isLevelUnlocked level → (p.replay es).isLevelUnlocked level) ↔
        (p.fullUnlock → ∀ world, 1 ≤ world → world ≤ 8 → world ∈ p.unlockedWorlds)) := by
  refine ⟨?_, ?_, ?_⟩
  · intro pre post level hpre hreset hlevel
    obtain rfl | ⟨pre, e, rfl⟩ := List.eq_nil_or_concat' pre
    · exact absurd rfl hpre
    · have hlists := listsOpen_handle (p.replay pre) e
      rw [replay, List.foldl_append]
      rw [replay_concat] at hlevel
      have hstays := hlists.isLevelUnlocked_replay hreset hlevel
      rwa [← replay_concat] at hstays
  · intro hstays hfull world hlow hhigh
    obtain ⟨level, hfirst, hlast, rfl⟩ := exists_ofLevel_eq (mem_allWorlds.2 ⟨hlow, hhigh⟩)
    have hheld : p.isLevelUnlocked level :=
      isLevelUnlocked_iff.2 ⟨hfirst, hlast, isWorldUnlocked_iff.2 (.inl hfull)⟩
    have hlater := hstays [.setFullUnlock false] level (by simp) hheld
    obtain ⟨-, -, hworld⟩ := isLevelUnlocked_iff.1 hlater
    exact (isWorldUnlocked_iff.1 hworld).resolve_left Bool.false_ne_true
  · intro hlists es level hreset hlevel
    have hopen : p.ListsOpen := fun hfull world hworld =>
      hlists hfull world (mem_allWorlds.1 hworld).1 (mem_allWorlds.1 hworld).2
    exact hopen.isLevelUnlocked_replay hreset hlevel

/-- A text that holds all worlds open and lists none of them. The level loses its world. -/
theorem not_isLevelUnlocked_setFullUnlock :
    load "\x7b\"full_unlock\":true\x7d" = .ok { fullUnlock := true } ∧
      ({ fullUnlock := true } : Progress).isLevelUnlocked 26 ∧
      ¬ (replay { fullUnlock := true } [.setFullUnlock false]).isLevelUnlocked 26 := by
  refine ⟨by decide +kernel, by decide, by decide⟩

/-! ## A level to go on with -/

/-- What a player may do: a level that is finished has to be unlocked. -/
def Event.Allowed (p : Progress) : Event → Prop
  | .finish o _ => p.isLevelUnlocked o.level
  | .setFullUnlock _ | .reset => True

/-- Every level is unlocked when it is finished. -/
def Fair : Progress → List Event → Prop
  | _, [] => True
  | p, e :: es => e.Allowed p ∧ Fair (p.handle e) es

def Event.decidableAllowed (p : Progress) : (e : Event) → Decidable (e.Allowed p)
  | .finish o _ => inferInstanceAs (Decidable (p.isLevelUnlocked o.level = true))
  | .setFullUnlock _ | .reset => inferInstanceAs (Decidable True)

instance (p : Progress) (e : Event) : Decidable (e.Allowed p) := e.decidableAllowed p

def decidableFair : (p : Progress) → (es : List Event) → Decidable (p.Fair es)
  | _, [] => inferInstanceAs (Decidable True)
  | p, e :: es =>
    have := decidableFair (p.handle e) es
    inferInstanceAs (Decidable (_ ∧ _))

instance (p : Progress) (es : List Event) : Decidable (p.Fair es) := decidableFair p es

theorem fair_concat : p.Fair (es ++ [e]) ↔ p.Fair es ∧ e.Allowed (p.replay es) := by
  induction es generalizing p with
  | nil => simp [Fair, replay]
  | cons e' es ih => simp [Fair, replay, ih, and_assoc]

/-- A level that was finished fairly is one of the game's. -/
theorem Fair.completed_range (h : ({} : Progress).Fair es) :
    ∀ l ∈ (replay {} es).completed, 1 ≤ l ∧ l ≤ 200 := by
  induction es using List.reverseRecOn with
  | nil => exact nofun
  | append_singleton es e ih =>
    obtain ⟨hes, he⟩ := fair_concat.1 h
    rw [replay_concat]
    intro l hl
    cases e with
    | finish o day =>
      rw [handle, completed_record, mem_completed_complete] at hl
      obtain hl | rfl := hl
      · exact ih hes l hl
      · obtain ⟨hlow, hhigh, -⟩ := isLevelUnlocked_iff.1 he
        exact ⟨hlow, hhigh⟩
    | setFullUnlock on => exact ih hes l hl
    | reset => exact absurd hl nofun

/-- Every threshold is met once the worlds before it are completed. -/
theorem le_countP_thresholds {worlds : Nat} (h : worlds < 8) :
    worlds ≤ thresholds.countP (·.2 ≤ 25 * worlds) := by
  revert worlds
  decide

theorem openWorlds_le (es : List Event) (done : Nat) : openWorlds es done ≤ 8 := by
  have hall : thresholds.countP (·.2 ≤ done) ≤ 7 := List.countP_le_length
  unfold openWorlds World.number
  split <;> omega

/-- Completing all worlds that are open leaves no world closed. -/
theorem openWorlds_eq_of_le {done : Nat} (h : 25 * openWorlds es done ≤ done) :
    openWorlds es done = 8 := by
  by_contra hne
  have hlt : openWorlds es done < 8 := Nat.lt_of_le_of_ne (openWorlds_le es done) hne
  have hmet := le_countP_thresholds hlt
  have hmono := countP_thresholds_mono h
  have hopen : openWorlds es done = 1 + thresholds.countP (·.2 ≤ done) := by
    unfold openWorlds at hne ⊢
    split at hne
    · exact absurd rfl hne
    · next hfull => exact if_neg hfull
  omega

theorem Reflects.isLevelUnlocked (h : Reflects p es) (hlow : 1 ≤ level)
    (hlevel : level ≤ 25 * openWorlds es p.completed.length) : p.isLevelUnlocked level := by
  have hle := openWorlds_le es p.completed.length
  refine isLevelUnlocked_iff.2 ⟨hlow, by omega, isWorldUnlocked_iff.2 (.inr ?_)⟩
  rw [h.worlds, List.mem_range'_1, World.ofLevel, World.size]
  omega

/-- Where every unlocked level is completed, all levels of the game are. -/
theorem Reflects.mem_completed_of_forall (h : Reflects p es)
    (hall : ∀ l, p.isLevelUnlocked l → l ∈ p.completed) (hlow : 1 ≤ level) (hhigh : level ≤ 200) :
    level ∈ p.completed := by
  have hsubset : List.range' 1 (25 * openWorlds es p.completed.length) ⊆ p.completed := by
    intro l hl
    rw [List.mem_range'_1] at hl
    exact hall l (h.isLevelUnlocked hl.1 (by omega))
  have hlength := (List.Nodup.subperm List.nodup_range' hsubset).length_le
  rw [List.length_range'] at hlength
  have hopen := openWorlds_eq_of_le hlength
  exact hall level (h.isLevelUnlocked hlow (by omega))

/-- Whatever a player does who finishes levels only while they are unlocked, all completed levels
are of the game, and unless all of them are completed there is one that is unlocked and not
completed. -/
theorem exists_unlocked_of_fair (hfair : ({} : Progress).Fair es) :
    (∀ l ∈ (replay {} es).completed, 1 ≤ l ∧ l ≤ 200) ∧
      ((∀ l, 1 ≤ l → l ≤ 200 → l ∈ (replay {} es).completed) ∨
        ∃ l, (replay {} es).isLevelUnlocked l ∧ l ∉ (replay {} es).completed) := by
  refine ⟨hfair.completed_range, or_iff_not_imp_right.2 ?_⟩
  intro hnone l hlow hhigh
  refine (reflects_replay es).mem_completed_of_forall ?_ hlow hhigh
  intro l' hl'
  by_contra hnot
  exact hnone ⟨l', hl', hnot⟩

/-- A visit to the last level, and then all of the first world. -/
def Event.oneWorld : List Event :=
  [.setFullUnlock true, .finish ⟨200, 3, true⟩ 1, .setFullUnlock false, .reset] ++
    (List.range' 1 25).map fun l => .finish ⟨l, 1, false⟩ 2

theorem exists_unlocked_of_fair_oneWorld :
    ({} : Progress).Fair Event.oneWorld ∧
      (replay {} Event.oneWorld).completed = List.range' 1 25 ∧
      ∃ l, (replay {} Event.oneWorld).isLevelUnlocked l ∧
        l ∉ (replay {} Event.oneWorld).completed := by
  have hfair : ({} : Progress).Fair Event.oneWorld := by decide +kernel
  have hcompleted : (replay {} Event.oneWorld).completed = List.range' 1 25 := by decide +kernel
  obtain ⟨-, hall | hopen⟩ := exists_unlocked_of_fair hfair
  · have hmem := hall 26 (by decide) (by decide)
    rw [hcompleted] at hmem
    exact absurd hmem (by decide)
  · exact ⟨hfair, hcompleted, hopen⟩

end Progress

end BlockPuzzle
