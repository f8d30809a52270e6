import BlockPuzzle.Run.Report
import BlockPuzzle.Wire.Board

/-!
# Limits, steps and reports in JSON

The record of a step holds the members of its pose beside its own. An error is written as its
message.
-/

namespace BlockPuzzle

namespace Limits

def toJson (l : Limits) : Json :=
  .object [("max_steps", .ofNat l.maxSteps), ("max_depth", .ofNat l.maxDepth)]

def fields : Fields Limits :=
  Fields.pure Limits.mk
    |>.also (.default "max_steps" (Decoder.nat .word) 500)
    |>.also (.default "max_depth" (Decoder.nat .word) 20)

def ofJson : Decoder Limits := fields.decode

end Limits

namespace RunError

def toJson (e : RunError) : Json := .text e.message

def ofJson (j : Json) : Except Fault RunError := do
  let s ← Decoder.text j
  match ofMessage? s with
  | some e => return e
  | none => throw (.unknownRunError s)

end RunError

namespace Action

def toJson (a : Action) : Json := .text a.name

def ofJson : Decoder Action := Decoder.lookup ofName? (Decoder.tag false)

end Action

namespace Step

def toJson (s : Step) : Json :=
  .object (s.pose.members ++
    [("grid", s.grid.toJson), ("stars_collected", .ofNat s.stars),
      ("gems_collected", .ofNat s.gems), ("action", s.action.toJson)])

def fields : Fields (Pose → Step) :=
  Fields.pure (fun grid stars gems action pose => ⟨pose, grid, stars, gems, action⟩)
    |>.also (.required "grid" Grid.ofJson)
    |>.also (.required "stars_collected" (Decoder.nat .word))
    |>.also (.required "gems_collected" (Decoder.nat .word))
    |>.also (.required "action" Action.ofJson)

def ofJson : Decoder Step := fields.decodeAround Pose.fields

end Step

namespace Report

def members (r : Report) : List (String × Json) :=
  [("steps", .list (r.trace.map Step.toJson)), ("reached_goal", .bool r.reachedGoal),
    ("stars_collected", .ofNat r.stars), ("gems_collected", .ofNat r.gems),
    ("total_stars", .ofNat r.totalStars), ("total_gems", .ofNat r.totalGems),
    ("total_steps", .ofNat r.totalSteps), ("error", (r.error.map RunError.toJson).getD .null),
    ("perfect", .bool r.perfect)]

def toJson (r : Report) : Json := .object r.members

def fields : Fields Report :=
  Fields.pure Report.mk
    |>.also (.required "steps" (Decoder.list Step.ofJson))
    |>.also (.required "reached_goal" Decoder.bool)
    |>.also (.required "stars_collected" (Decoder.nat .word))
    |>.also (.required "gems_collected" (Decoder.nat .word))
    |>.also (.required "total_stars" (Decoder.nat .word))
    |>.also (.required "total_gems" (Decoder.nat .word))
    |>.also (.required "total_steps" (Decoder.nat .word))
    |>.also (.nullable "error" RunError.ofJson)
    |>.also (.required "perfect" Decoder.bool)

def ofJson : Decoder Report := fields.decode

end Report

end BlockPuzzle
