import BlockPuzzle.Game.Progress
import BlockPuzzle.Wire.Document

/-!
# Progress in JSON

Ratings are a record whose names are the numbers of the levels.
-/

namespace BlockPuzzle

namespace Streak

def toJson (s : Streak) : Json :=
  .object [("count", .ofNat s.count), ("last_day", (s.lastDay.map Json.int).getD .null)]

def fields : Fields Streak :=
  Fields.pure Streak.mk
    |>.also (.required "count" (Decoder.nat .word))
    |>.also (.nullable "last_day" (Decoder.signed .long))

def ofJson : Decoder Streak := fields.decode

end Streak

namespace EarnedBadge

def toJson (b : EarnedBadge) : Json :=
  .object [("id", .text b.id), ("name", .text b.name), ("icon", .text b.icon),
    ("earned_day", .int b.day)]

def fields : Fields EarnedBadge :=
  Fields.pure EarnedBadge.mk
    |>.also (.required "id" Decoder.text)
    |>.also (.required "name" Decoder.text)
    |>.also (.required "icon" Decoder.text)
    |>.also (.required "earned_day" (Decoder.signed .long))

def ofJson : Decoder EarnedBadge := fields.decode

end EarnedBadge

namespace Ratings

def toJson (r : Ratings) : Json :=
  .object (r.entries.map fun e => (String.ofList (Nat.toDigits 10 e.1), .ofNat e.2))

/-- The number that a name stands for: digits only, and no zero in front of others. -/
def level? (name : String) : Option Nat :=
  let ds := name.toList
  let n := Nat.ofDigitChars 10 ds 0
  if ds ≠ [] ∧ ds.all Char.isDigit ∧ (ds.head? = some '0' → ds = ['0']) ∧ n < Width.word.size then
    some n
  else none

/-- Of the ratings of one level the last counts. Names are numbers, so nothing in them is
escaped. -/
def ofMembers (r : Ratings) : List (Json.MemberName × Json) → Except Fault Ratings
  | [] => .ok r
  | (name, j) :: ms => do
    match name.plain?.bind level? with
    | some level => ofMembers (r.insert level (← Decoder.nat .byte j)) ms
    | none => throw .malformed

def ofJson : Decoder Ratings
  | .record ms => ofMembers empty ms
  | _ => .error .malformed

end Ratings

namespace Outcome

def toJson (o : Outcome) : Json :=
  .object [("level_id", .ofNat o.level), ("stars", .ofNat o.stars), ("perfect", .bool o.perfect)]

def fields : Fields Outcome :=
  Fields.pure Outcome.mk
    |>.also (.required "level_id" (Decoder.nat .word))
    |>.also (.required "stars" (Decoder.nat .byte))
    |>.also (.required "perfect" Decoder.bool)

def ofJson : Decoder Outcome := fields.decode

end Outcome

namespace Progress

def toJson (p : Progress) : Json :=
  .object [("completed", .list (p.completed.map Json.ofNat)), ("stars", p.stars.toJson),
    ("streak", p.streak.toJson), ("unlocked_worlds", .list (p.unlockedWorlds.map Json.ofNat)),
    ("full_unlock", .bool p.fullUnlock), ("badges", .list (p.badges.map EarnedBadge.toJson))]

def fields : Fields Progress :=
  Fields.pure Progress.mk
    |>.also (.default "completed" (Decoder.list (Decoder.nat .word)) [])
    |>.also (.default "stars" Ratings.ofJson .empty)
    |>.also (.default "streak" Streak.ofJson {})
    |>.also (.default "unlocked_worlds" (Decoder.list (Decoder.nat .word)) [1])
    |>.also (.default "full_unlock" Decoder.bool false)
    |>.also (.default "badges" (Decoder.list EarnedBadge.ofJson) [])

def ofJson : Decoder Progress := fields.decode

/-- The text in which progress is saved. -/
def save (p : Progress) : String := p.toJson.write

/-- The progress that a text holds. -/
def load (s : String) : Except Fault Progress := Decoder.ofText ofJson s

namespace Summary

def toJson (s : Summary) : Json :=
  .object [("completed_count", .ofNat s.completedCount),
    ("completed_levels", .list (s.completed.map Json.ofNat)), ("stars_per_level", s.stars.toJson),
    ("total_stars", .ofNat s.totalStars), ("streak", s.streak.toJson),
    ("badges", .list (s.badges.map EarnedBadge.toJson)),
    ("unlocked_worlds", .list (s.unlockedWorlds.map Json.ofNat)),
    ("total_levels", .ofNat s.totalLevels)]

def fields : Fields Summary :=
  Fields.pure Summary.mk
    |>.also (.required "completed_count" (Decoder.nat .long))
    |>.also (.required "completed_levels" (Decoder.list (Decoder.nat .word)))
    |>.also (.required "stars_per_level" Ratings.ofJson)
    |>.also (.required "total_stars" (Decoder.nat .word))
    |>.also (.required "streak" Streak.ofJson)
    |>.also (.required "badges" (Decoder.list EarnedBadge.ofJson))
    |>.also (.required "unlocked_worlds" (Decoder.list (Decoder.nat .word)))
    |>.also (.required "total_levels" (Decoder.nat .word))

def ofJson : Decoder Summary := fields.decode

end Summary

end Progress

end BlockPuzzle
