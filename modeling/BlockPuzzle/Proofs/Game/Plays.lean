import BlockPuzzle.Level.Lookup
import BlockPuzzle.Level.Sandbox
import BlockPuzzle.Proofs.Game.Reordering
import BlockPuzzle.Proofs.Results

/-!
# From plays to progress

A play that reaches the goal is recorded under the number of its level. The levels of the game have
the numbers from 1 to 200, and a painted grid has none of these but zero. So the completed levels
are those of the game that were won, and beside them at most one entry for all painted grids
together.

## Main definitions

* `Playground`, `Play`: where a player plays, and a run that is made there.
* `Progress.playAll`: the progress after some plays.
* `Play.wonLevels`, `Play.wonSandbox`: what was won in some plays.

## Main statements

* `Level.id_of_find`: a level that is found has the number that was looked for.
* `Progress.completed_playAll_perm`: the completed levels are those that were won.
* `Progress.completed_playAll`: what is counted towards worlds and badges.
-/

namespace BlockPuzzle

/-! ## The numbers of levels -/

theorem Catalog.id_of_level? {id : Nat} {l : Level} (h : Catalog.level? id = some (.ok l)) :
    l.id = id ∧ 1 ≤ id ∧ id ≤ 75 := by
  cases id with
  | zero => cases h
  | succ n =>
    obtain ⟨e, he, hlevel⟩ := Option.map_eq_some_iff.1 h
    obtain ⟨grid, -, rfl⟩ := exists_of_map_eq_ok hlevel
    have hid : (List.range' 1 75)[n]? = some e.id := by
      rw [← map_id_entries, List.getElem?_map, he, Option.map_some]
    obtain ⟨hn, hid⟩ := List.getElem?_eq_some_iff.1 hid
    rw [List.getElem_range'] at hid
    rw [List.length_range'] at hn
    dsimp only
    omega

theorem World.bounds_of_mem : ∀ w ∈ World.all, 76 ≤ w.firstLevel ∧ w.lastLevel ≤ 200 := by decide

theorem Maze.id_of_generate? {id : Nat} {m : Maze} (h : Maze.generate? id = some m) :
    m.level.id = id ∧ 76 ≤ id ∧ id ≤ 200 := by
  obtain ⟨w, hw, rfl⟩ := Option.map_eq_some_iff.1 h
  have hbounds := World.bounds_of_mem w (List.mem_of_find?_eq_some hw)
  have hcontains : w.contains id := List.find?_some (p := fun w : World => w.contains id) hw
  simp only [World.contains, Bool.and_eq_true, decide_eq_true_eq] at hcontains
  have hid : (Maze.ofWorld w (id - w.firstLevel)).level.id =
      w.firstLevel + (id - w.firstLevel) := rfl
  omega

/-- A level that is found has the number that was looked for, and that is one of the game's. -/
theorem Level.id_of_find {id : Nat} {l : Level} (h : Level.find id = .ok l) :
    l.id = id ∧ 1 ≤ id ∧ id ≤ World.totalLevels := by
  rw [Level.find, World.totalLevels] at *
  split at h
  · next found hfound =>
    cases found with
    | error e => cases h
    | ok l' =>
      cases h
      have hid := Catalog.id_of_level? hfound
      omega
  · split at h
    · next m hm =>
      cases h
      have hid := Maze.id_of_generate? hm
      omega
    · cases h

/-! ## Plays -/

/-- Where a player plays: on a level of the game, or on a painted grid. -/
inductive Playground where
  | numbered (id : Nat)
  | painted (g : Grid)
  deriving DecidableEq

def Playground.level? : Playground → Option Level
  | .numbered id => (Level.find id).toOption
  | .painted g => some (Sandbox.level g)

def Playground.isPainted : Playground → Bool
  | .numbered _ => false
  | .painted _ => true

/-- A run of a program, and the day on which it is made. -/
structure Play where
  ground : Playground
  program : List Node
  limits : Limits := {}
  day : Int

namespace Play

/-- What a play adds to the progress: nothing where there is no such level, or without the goal. -/
def outcome? (x : Play) : Option Outcome :=
  x.ground.level?.bind fun l => (runNodes x.program l x.limits).outcome? l.id

def wins (x : Play) : Bool := x.outcome?.isSome

variable {x : Play} {plays : List Play} {o : Outcome} {level : Nat}

/-- The levels of the game that were won in some plays, in the order of their numbers. -/
def wonLevels (plays : List Play) : List Nat :=
  (List.range' 1 World.totalLevels).filter fun id =>
    plays.any fun x => x.wins && x.ground == .numbered id

/-- The number that all painted grids share, if one was won in some plays. -/
def wonSandbox (plays : List Play) : List Nat :=
  if plays.any fun x => x.wins && x.ground.isPainted then [0] else []

theorem level_of_outcome? (h : x.outcome? = some o) :
    (x.ground = .numbered o.level ∧ 1 ≤ o.level ∧ o.level ≤ World.totalLevels) ∨
      (x.ground.isPainted ∧ o.level = 0) := by
  obtain ⟨l, hl, ho⟩ := Option.bind_eq_some_iff.1 h
  have hlevel : o.level = l.id := by
    rw [Report.outcome?] at ho
    split at ho
    · cases ho
      rfl
    · cases ho
  cases hground : x.ground with
  | numbered id =>
    rw [hground] at hl
    have hfind : Level.find id = .ok l := by
      revert hl
      rw [Playground.level?]
      cases Level.find id <;> simp [Except.toOption]
    obtain ⟨rfl, hbounds⟩ := Level.id_of_find hfind
    exact .inl ⟨by rw [hlevel], hlevel ▸ hbounds⟩
  | painted g =>
    rw [hground] at hl
    cases hl
    exact .inr ⟨rfl, hlevel⟩

theorem wins_iff : x.wins ↔ ∃ o, x.outcome? = some o := Option.isSome_iff_exists

theorem mem_wonLevels : level ∈ wonLevels plays ↔
    (1 ≤ level ∧ level ≤ World.totalLevels) ∧
      ∃ x ∈ plays, x.ground = .numbered level ∧ x.wins := by
  have hrange : 1 ≤ level ∧ level < 1 + World.totalLevels ↔
      1 ≤ level ∧ level ≤ World.totalLevels := by omega
  simp only [wonLevels, List.mem_filter, List.mem_range'_1, hrange, List.any_eq_true,
    Bool.and_eq_true, beq_iff_eq, and_comm]

theorem mem_wonSandbox : level ∈ wonSandbox plays ↔
    level = 0 ∧ ∃ x ∈ plays, x.ground.isPainted ∧ x.wins := by
  rw [wonSandbox]
  split
  · next hany =>
    have hwon : ∃ x ∈ plays, x.ground.isPainted ∧ x.wins := by
      simpa only [List.any_eq_true, Bool.and_eq_true, and_comm] using hany
    rw [List.mem_singleton, and_iff_left hwon]
  · next hany =>
    refine ⟨fun h => absurd h List.not_mem_nil, fun ⟨_, x, hx, hpainted, hwins⟩ => ?_⟩
    exact absurd (List.any_eq_true.2 ⟨x, hx, Bool.and_eq_true_iff.2 ⟨hwins, hpainted⟩⟩) hany

/-- Every win is counted, and under the number of its level. -/
theorem mem_won : level ∈ wonLevels plays ++ wonSandbox plays ↔
    ∃ x ∈ plays, ∃ o, x.outcome? = some o ∧ o.level = level := by
  rw [List.mem_append, mem_wonLevels, mem_wonSandbox]
  constructor
  · rintro (⟨-, x, hx, hground, hwins⟩ | ⟨rfl, x, hx, hpainted, hwins⟩)
    all_goals
      obtain ⟨o, ho⟩ := wins_iff.1 hwins
      refine ⟨x, hx, o, ho, ?_⟩
    · obtain ⟨hnumbered, -⟩ | ⟨hpainted, -⟩ := level_of_outcome? ho
      · exact Playground.numbered.inj (hnumbered.symm.trans hground)
      · rw [hground] at hpainted
        cases hpainted
    · obtain ⟨hnumbered, -⟩ | ⟨-, hzero⟩ := level_of_outcome? ho
      · rw [hnumbered] at hpainted
        cases hpainted
      · exact hzero
  · rintro ⟨x, hx, o, ho, rfl⟩
    have hwins := wins_iff.2 ⟨o, ho⟩
    obtain ⟨hground, hbounds⟩ | ⟨hpainted, hzero⟩ := level_of_outcome? ho
    · exact .inl ⟨hbounds, x, hx, hground, hwins⟩
    · exact .inr ⟨hzero, x, hx, hpainted, hwins⟩

theorem nodup_won (plays : List Play) : (wonLevels plays ++ wonSandbox plays).Nodup := by
  rw [List.nodup_append']
  refine ⟨List.Nodup.filter _ List.nodup_range', ?_, ?_⟩
  · unfold wonSandbox
    split <;> simp
  · intro level hlevel hsandbox
    have hpos := (mem_wonLevels.1 hlevel).1
    have hzero := (mem_wonSandbox.1 hsandbox).1
    omega

/-- What is recorded of a play. -/
def recorded? (x : Play) : Option (Outcome × Int) := x.outcome?.map (·, x.day)

end Play

namespace Progress

open Play

/-- The progress after a play. -/
def play (p : Progress) (x : Play) : Progress :=
  match x.outcome? with
  | some o => p.record o x.day
  | none => p

/-- The progress after some plays, one after the other. -/
def playAll (plays : List Play) : Progress := plays.foldl play {}

theorem playAll_eq_recordAll (plays : List Play) :
    playAll plays = recordAll (plays.filterMap recorded?) := by
  rw [recordAll, List.foldl_filterMap, playAll]
  congr 1
  funext p x
  rw [play, recorded?]
  cases x.outcome? <;> rfl

theorem reflects_playAll (plays : List Play) :
    Reflects (playAll plays) (finishes (plays.filterMap recorded?)) := by
  rw [playAll_eq_recordAll]
  exact reflects_recordAll _

theorem mem_completed_playAll {plays : List Play} {level : Nat} :
    level ∈ (playAll plays).completed ↔
      ∃ x ∈ plays, ∃ o, x.outcome? = some o ∧ o.level = level := by
  rw [(reflects_playAll plays).mem_completed, finishedLevels, finished_finishes]
  simp only [List.map_map, List.mem_map, List.mem_filterMap, recorded?, Option.map_eq_some_iff]
  constructor
  · rintro ⟨_, ⟨x, hx, o, ho, rfl⟩, hlevel⟩
    exact ⟨x, hx, o, ho, hlevel⟩
  · rintro ⟨x, hx, o, ho, hlevel⟩
    exact ⟨_, ⟨x, hx, o, ho, rfl⟩, hlevel⟩

/-- The completed levels are those that were won. -/
theorem completed_playAll_perm (plays : List Play) :
    (playAll plays).completed.Perm (wonLevels plays ++ wonSandbox plays) := by
  have hnodup := (reflects_playAll plays).nodup_completed
  refine (List.perm_ext_iff_of_nodup hnodup (nodup_won plays)).2 fun level => ?_
  rw [mem_completed_playAll, mem_won]

theorem hasBadge_all_levels_iff (plays : List Play) :
    (playAll plays).hasBadge "all_levels" ↔ 200 ≤ (playAll plays).completed.length := by
  have hb : (⟨"all_levels", "Legend", "🌟", .completed 200⟩ : Badge) ∈ Badge.all := by decide
  rw [playAll_eq_recordAll, recordAll_eq_replay]
  exact (hasBadge_replay_iff_meets hb fun _ => BadgeRule.noConfusion).trans (by simp [meets])

/-- The completed levels are those of the game that were won, each once, and one entry with the
number zero if a painted grid was won. So all numbers but this one are those of levels, there is at
most one entry more than levels, and none as long as no painted grid was won. The worlds and the
badge for all levels count the entries. -/
theorem completed_playAll (plays : List Play) :
    let p := playAll plays
    let levels := wonLevels plays
    let sandbox := wonSandbox plays
    (∀ l ∈ p.completed, (1 ≤ l ∧ l ≤ World.totalLevels) ∨
        l = 0 ∧ ∃ x ∈ plays, x.ground.isPainted ∧ x.wins) ∧
      p.completed.Perm (levels ++ sandbox) ∧
      p.summary.completedCount = levels.length + sandbox.length ∧
      levels.length ≤ p.summary.totalLevels ∧ sandbox.length ≤ 1 ∧
      ((∀ x ∈ plays, x.ground.isPainted → ¬ x.wins) → sandbox = []) ∧
      p.unlockedWorlds =
        List.range' 1 (1 + thresholds.countP (·.2 ≤ levels.length + sandbox.length)) ∧
      (p.hasBadge "all_levels" ↔ p.summary.totalLevels ≤ levels.length + sandbox.length) := by
  intro p levels sandbox
  have hperm : p.completed.Perm (levels ++ sandbox) := completed_playAll_perm plays
  have hlength : p.completed.length = levels.length + sandbox.length := by
    rw [hperm.length_eq, List.length_append]
  refine ⟨?_, hperm, hlength, ?_, ?_, ?_, ?_, ?_⟩
  · intro l hl
    obtain hlevel | hsandbox := List.mem_append.1 (hperm.mem_iff.1 hl)
    · exact .inl (mem_wonLevels.1 hlevel).1
    · exact .inr (mem_wonSandbox.1 hsandbox)
  · exact (List.length_filter_le _ _).trans_eq List.length_range'
  · simp only [sandbox, wonSandbox]
    split <;> simp
  · intro hnone
    rw [List.eq_nil_iff_forall_not_mem]
    intro l hl
    obtain ⟨-, x, hx, hpainted, hwins⟩ := mem_wonSandbox.1 hl
    exact hnone x hx hpainted hwins
  · have hopen : openWorlds (finishes (plays.filterMap recorded?)) p.completed.length =
        1 + thresholds.countP (·.2 ≤ p.completed.length) := if_neg setFullUnlock_notMem_finishes
    rw [← hlength, ← hopen]
    exact (reflects_playAll plays).worlds
  · rw [← hlength]
    exact hasBadge_all_levels_iff plays

/-- One step to the right, in a room with two cells. -/
def acrossRoom : Play :=
  { ground := .painted (Sandbox.room 1 2)
    program := [Node.leaf ⟨"step", .move .right, none⟩]
    day := 1 }

/-- A level that is won, one that is not, one that is none, and two rooms that are won. -/
def tour : List Play :=
  [⟨.numbered 1, Node.ofBlocks (List.replicate 2 ⟨"step", .move .right, none⟩), {}, 1⟩, acrossRoom,
    ⟨.numbered 76, [], {}, 2⟩, ⟨.numbered 201, [], {}, 2⟩, { acrossRoom with day := 3 }]

theorem completed_playAll_tour :
    0 ∈ (playAll tour).completed ∧ (∃ x ∈ tour, x.ground.isPainted ∧ x.wins) ∧
      wonLevels tour = [1] ∧ wonSandbox tour = [0] ∧
      (playAll tour).summary.completedCount = [1].length + [0].length := by
  have hlevels : wonLevels tour = [1] := by decide +kernel
  have hsandbox : wonSandbox tour = [0] := by decide +kernel
  have hzero : 0 ∈ (playAll tour).completed := by decide +kernel
  obtain ⟨hmem, -, hcount, -⟩ := completed_playAll tour
  rw [hlevels, hsandbox] at hcount
  obtain ⟨hpos, -⟩ | ⟨-, hwon⟩ := hmem 0 hzero
  · cases hpos
  · exact ⟨hzero, hwon, hlevels, hsandbox, hcount⟩

/-- A room that is won is listed, and its number is not that of a level. -/
theorem not_completed_playAll_acrossRoom :
    ¬ ∀ l ∈ (playAll [acrossRoom]).completed, 1 ≤ l ∧ l ≤ World.totalLevels := by
  decide +kernel

end Progress

end BlockPuzzle
