import BlockPuzzle.Proofs.Wire.Fields
import BlockPuzzle.Wire.Level
import BlockPuzzle.Wire.Run

/-!
# Boards, levels and reports are read back

Numbers are read back where they fit into the words that are written for them. Texts, grids and
cells are read back as they are.

## Main definitions

* `Level.Fits`, `Step.Fits`, `Report.Fits`: all numbers have room.

## Main statements

* `Level.ofJson_toJson`, `Report.ofJson_toJson`: a level and a report are taken out of what was put
  down for them.
* `Level.complete_toJson`, `Report.complete_toJson`: nothing of it is lost when it is written.
-/

namespace BlockPuzzle

open Json (Complete)

/-! ## Cells, grids and poses -/

theorem Kind.ofJson_toJson (k : Kind) : Kind.ofJson k.toJson = .ok k :=
  congrArg Except.ok (Kind.ofName_name k)

theorem Cell.ofJson_toJson (x : Cell) : Cell.ofJson x.toJson = .ok x :=
  Decoder.lookup_text (Cell.ofName?_name x) false

theorem Grid.ofJson_toJson (g : Grid) : Grid.ofJson g.toJson = .ok g := by
  have hrows : Decoder.list (Decoder.list Cell.ofJson) g.toJson = .ok g.rows :=
    Decoder.list_map fun row _ => Decoder.list_map fun x _ => Cell.ofJson_toJson x
  rw [Grid.ofJson, hrows]
  rfl

theorem Grid.complete_toJson (g : Grid) (depth : Nat) : Complete (depth + 2) g.toJson :=
  .list_map fun _ _ => .list_map fun x _ => .text x.name

theorem Direction.ofJson_toJson (d : Direction) : Direction.ofJson d.toJson = .ok d := by
  cases d <;> rfl

theorem Direction.complete_toJson (d : Direction) (depth : Nat) : Complete depth d.toJson := by
  cases d <;> exact Json.complete_ofNat (w := .byte) (by decide)

namespace Pose

/-- The row and the column have room. -/
structure Fits (a : Pose) : Prop where
  row : Width.word.HasRoom a.position.row
  col : Width.word.HasRoom a.position.col

variable {a : Pose}

theorem reads_members (h : a.Fits) : fields.Reads a.members a := by
  have hread := Fields.Reads.pure (fun row col facing => (⟨⟨row, col⟩, facing⟩ : Pose))
    |>.required "row" (Decoder.signed_int h.row)
    |>.required "col" (Decoder.signed_int h.col)
    |>.required "dir" a.facing.ofJson_toJson
  exact hread

theorem complete_members (h : a.Fits) (depth : Nat) : ∀ m ∈ a.members, Complete depth m.2 := by
  simp only [members, List.forall_mem_cons]
  exact ⟨Json.complete_int h.row, Json.complete_int h.col, a.facing.complete_toJson depth,
    List.forall_mem_nil _⟩

end Pose

/-! ## Levels -/

namespace Level

/-- The numbers have room. -/
structure Fits (l : Level) : Prop where
  id : l.id < Width.word.size
  world : l.world < Width.word.size
  start : l.start.Fits
  optimalSteps : l.optimalSteps < Width.word.size

variable {l : Level}

theorem reads_members (h : l.Fits) : fields.Reads l.members l := by
  have hpalette : Decoder.list Kind.ofJson (.list (l.palette.map Kind.toJson)) = .ok l.palette :=
    Decoder.list_map fun k _ => k.ofJson_toJson
  have hread := Fields.Reads.pure
      (fun id world title grid row col facing palette optimalSteps hint =>
        ({ id, world, title, grid, start := ⟨⟨row, col⟩, facing⟩, palette, optimalSteps, hint } :
          Level))
    |>.default "id" 0 (Decoder.nat_ofNat h.id)
    |>.default "world_id" 0 (Decoder.nat_ofNat h.world)
    |>.default "title" "" (Decoder.text_text l.title)
    |>.required "grid" l.grid.ofJson_toJson
    |>.required "start_row" (Decoder.signed_int h.start.row)
    |>.required "start_col" (Decoder.signed_int h.start.col)
    |>.default "start_dir" .right l.start.facing.ofJson_toJson
    |>.default "available_blocks" [] hpalette
    |>.default "optimal_steps" 0 (Decoder.nat_ofNat h.optimalSteps)
    |>.default "hint" "" (Decoder.text_text l.hint)
  exact hread

theorem ofJson_toJson (h : l.Fits) : ofJson l.toJson = .ok l := (reads_members h).decode_object

theorem complete_toJson (h : l.Fits) (depth : Nat) : Complete (depth + 3) l.toJson := by
  refine .object ?_ ?_ <;> simp only [members, List.forall_mem_cons]
  · decide
  · exact ⟨Json.complete_ofNat h.id, Json.complete_ofNat h.world, .text _,
      l.grid.complete_toJson depth, Json.complete_int h.start.row, Json.complete_int h.start.col,
      l.start.facing.complete_toJson _, .list_map fun k _ => .text k.name,
      Json.complete_ofNat h.optimalSteps, .text _, List.forall_mem_nil _⟩

end Level

/-! ## Steps and reports -/

theorem RunError.ofJson_toJson (e : RunError) : RunError.ofJson e.toJson = .ok e := by
  cases e <;> rfl

theorem Action.ofJson_toJson (a : Action) : Action.ofJson a.toJson = .ok a :=
  Decoder.lookup_text (Action.ofName?_name a) false

namespace Step

/-- The numbers have room. -/
structure Fits (s : Step) : Prop where
  pose : s.pose.Fits
  stars : s.stars < Width.word.size
  gems : s.gems < Width.word.size

variable {s : Step}

theorem ofJson_toJson (h : s.Fits) : ofJson s.toJson = .ok s := by
  have hread := Fields.Reads.pure
      (fun grid stars gems action pose => (⟨pose, grid, stars, gems, action⟩ : Step))
    |>.required "grid" s.grid.ofJson_toJson
    |>.required "stars_collected" (Decoder.nat_ofNat h.stars)
    |>.required "gems_collected" (Decoder.nat_ofNat h.gems)
    |>.required "action" s.action.ofJson_toJson
  exact hread.decodeAround_object (Pose.reads_members h.pose) (by simp [Pose.members])
    (by simp [Pose.members, Json.readable, Json.ofNat, Direction.toJson])

theorem complete_toJson (h : s.Fits) (depth : Nat) : Complete (depth + 3) s.toJson := by
  refine .object ?_ (List.forall_mem_append.2 ⟨Pose.complete_members h.pose _, ?_⟩)
  · simp only [Pose.members, List.cons_append, List.nil_append, List.forall_mem_cons]
    decide
  · simp only [List.forall_mem_cons]
    exact ⟨s.grid.complete_toJson depth, Json.complete_ofNat h.stars, Json.complete_ofNat h.gems,
      .text _, List.forall_mem_nil _⟩

end Step

namespace Report

/-- The numbers have room. -/
structure Fits (r : Report) : Prop where
  trace : ∀ s ∈ r.trace, s.Fits
  stars : r.stars < Width.word.size
  gems : r.gems < Width.word.size
  totalStars : r.totalStars < Width.word.size
  totalGems : r.totalGems < Width.word.size
  totalSteps : r.totalSteps < Width.word.size

variable {r : Report}

theorem ofJson_toJson (h : r.Fits) : ofJson r.toJson = .ok r := by
  have htrace : Decoder.list Step.ofJson (.list (r.trace.map Step.toJson)) = .ok r.trace :=
    Decoder.list_map fun s hs => Step.ofJson_toJson (h.trace s hs)
  have herror : Decoder.optional RunError.ofJson ((r.error.map RunError.toJson).getD .null) =
      .ok r.error :=
    Decoder.optional_map (fun e _ => e.ofJson_toJson) nofun
  have hread := Fields.Reads.pure Report.mk
    |>.required "steps" htrace
    |>.required "reached_goal" (Decoder.bool_bool r.reachedGoal)
    |>.required "stars_collected" (Decoder.nat_ofNat h.stars)
    |>.required "gems_collected" (Decoder.nat_ofNat h.gems)
    |>.required "total_stars" (Decoder.nat_ofNat h.totalStars)
    |>.required "total_gems" (Decoder.nat_ofNat h.totalGems)
    |>.required "total_steps" (Decoder.nat_ofNat h.totalSteps)
    |>.nullable "error" herror
    |>.required "perfect" (Decoder.bool_bool r.perfect)
  exact hread.decode_object

theorem complete_toJson (h : r.Fits) (depth : Nat) : Complete (depth + 5) r.toJson := by
  have herror : Complete (depth + 4) ((r.error.map RunError.toJson).getD .null) := by
    cases r.error with
    | none => exact .null
    | some e => exact .text e.message
  refine .object ?_ ?_ <;> simp only [members, List.forall_mem_cons]
  · decide
  · exact ⟨.list_map fun s hs => Step.complete_toJson (h.trace s hs) depth, .bool _,
      Json.complete_ofNat h.stars, Json.complete_ofNat h.gems, Json.complete_ofNat h.totalStars,
      Json.complete_ofNat h.totalGems, Json.complete_ofNat h.totalSteps, herror, .bool _,
      List.forall_mem_nil _⟩

end Report

end BlockPuzzle
