import BlockPuzzle.Json.Basic
import BlockPuzzle.Width

/-!
# Taking values out of JSON

Values are taken out in the order of the text, and the first fault decides.

## Main definitions

* `Fault`: why a value is refused.
* `Decoder`: how a value is taken out of a JSON value.
* `Fields`: the named parts of a record. They stand in a record under their names or in a list in
  their order.
-/

namespace BlockPuzzle

inductive Fault where
  /-- The text is no JSON, or its value does not have the form that is asked for. -/
  | malformed
  | invalidDirection (index : Nat)
  | unknownRunError (message : String)
  deriving DecidableEq, Repr

def Fault.message : Fault → String
  | .malformed => "malformed document"
  | .invalidDirection index => s!"invalid direction {index}, expected 0..=3"
  | .unknownRunError message => s!"unknown run error: {message}"

abbrev Decoder (α : Type) := Json → Except Fault α

def Json.MemberName.read (name : MemberName) : Except Fault String :=
  match name.text? with
  | some s => .ok s
  | none => .error .malformed

namespace Decoder

variable {α : Type}

def bool : Decoder Bool
  | .bool b => .ok b
  | _ => .error .malformed

def text : Decoder String
  | .text s => .ok s
  | _ => .error .malformed

/-- An integer from `low` to `high`. -/
def int (low high : Int) : Decoder Int
  | .int n => if low ≤ n ∧ n ≤ high then .ok n else .error .malformed
  | _ => .error .malformed

/-- A natural number that fits. -/
def nat (w : Width) (j : Json) : Except Fault Nat := (int 0 (w.size - 1) j).map Int.toNat

/-- An integer that fits, where one bit is for the sign. -/
def signed (w : Width) : Decoder Int := int w.intMin w.intMax

/-- A value or null. -/
def optional (d : Decoder α) : Decoder (Option α)
  | .null => .ok none
  | j => (d j).map some

def list (d : Decoder α) : Decoder (List α)
  | .list items => items.mapM d
  | _ => .error .malformed

/-- A value that is looked up by a text. -/
def lookup (find : String → Option α) (d : Decoder String) (j : Json) : Except Fault α := do
  match find (← d j) with
  | some a => return a
  | none => throw .malformed

/-- A tag: its name, or a record with its name and null. What is embedded in another record may have
an empty record in the place of null. -/
def tag (embedded : Bool) : Decoder String
  | .text s => .ok s
  | .record [(name, .null)] => name.read
  | .record [(name, .record [])] => if embedded then name.read else .error .malformed
  | _ => .error .malformed

end Decoder

/-- Passes over a value that nobody asks for. -/
def Json.skip (j : Json) : Except Fault Unit := if j.wellFormed then .ok () else .error .malformed

/-- The parts of a record of type `α`. -/
structure Fields (α : Type) where
  /-- The parts that have been read. -/
  Slots : Type
  empty : Slots
  /-- Reads the value under a name; nothing if no part has that name. -/
  put : String → Json → Slots → Option (Except Fault Slots)
  close : Slots → Except Fault α
  /-- Reads the parts from the front of a list. -/
  ofItems : List Json → Except Fault (α × List Json)

namespace Fields

variable {α β : Type}

/-- The part with the given name, taken out by `d`. A record without it has `missing` in its place,
a list that ends before it `unlisted`. -/
def part (name : String) (d : Decoder α) (missing unlisted : Option α) : Fields α where
  Slots := Option α
  empty := none
  put k j slot :=
    if k = name then
      some (match slot with
        | some _ => .error .malformed
        | none => (d j).map some)
    else none
  close
    | some a => .ok a
    | none =>
      match missing with
      | some a => .ok a
      | none => .error .malformed
  ofItems
    | j :: js => do return (← d j, js)
    | [] =>
      match unlisted with
      | some a => .ok (a, [])
      | none => .error .malformed

/-- A part that has to be there. -/
def required (name : String) (d : Decoder α) : Fields α := part name d none none

/-- A part that may be left out, and is `a` then. -/
def default (name : String) (d : Decoder α) (a : α) : Fields α := part name d (some a) (some a)

/-- A part that may be null, and left out of a record but not of a list. -/
def nullable (name : String) (d : Decoder α) : Fields (Option α) :=
  part name (Decoder.optional d) (some none) none

/-- No parts at all. -/
def pure (a : α) : Fields α where
  Slots := Unit
  empty := ()
  put _ _ _ := none
  close _ := .ok a
  ofItems js := .ok (a, js)

/-- The parts of `f` and then those of `g`. -/
def also (f : Fields (α → β)) (g : Fields α) : Fields β where
  Slots := f.Slots × g.Slots
  empty := (f.empty, g.empty)
  put k j s :=
    match f.put k j s.1 with
    | some r => some (r.map fun x => (x, s.2))
    | none => (g.put k j s.2).map fun r => r.map fun x => (s.1, x)
  close s := do
    let a ← f.close s.1
    return a (← g.close s.2)
  ofItems js := do
    let (a, js) ← f.ofItems js
    let (b, js) ← g.ofItems js
    return (a b, js)

/-- Reads members one after the other. -/
def putAll (f : Fields α) (s : f.Slots) : List (Json.MemberName × Json) → Except Fault f.Slots
  | [] => .ok s
  | (name, j) :: ms => do
    match f.put (← name.read) j s with
    | some r => do f.putAll (← r) ms
    | none => do
      j.skip
      f.putAll s ms

/-- The record with the given members. -/
def ofMembers (f : Fields α) (ms : List (Json.MemberName × Json)) : Except Fault α := do
  f.close (← f.putAll f.empty ms)

def decode (f : Fields α) : Decoder α
  | .record ms => f.ofMembers ms
  | .list js => do
    let (a, rest) ← f.ofItems js
    if rest.isEmpty then return a else throw .malformed
  | _ => .error .malformed

/-- Reads members one after the other and keeps those that are no part of `f`, latest first. -/
def putOwn (f : Fields α) (s : f.Slots) (kept : List (Json.MemberName × Json)) :
    List (Json.MemberName × Json) → Except Fault (f.Slots × List (Json.MemberName × Json))
  | [] => .ok (s, kept)
  | (name, j) :: ms => do
    match f.put (← name.read) j s with
    | some r => do f.putOwn (← r) kept ms
    | none => if j.readable then f.putOwn s ((name, j) :: kept) ms else .error .malformed

/-- A record in which the parts of `g` stand among those of `f`. The parts of `g` are looked at
last, and only a record has this form. -/
def decodeAround (f : Fields (α → β)) (g : Fields α) : Decoder β
  | .record ms => do
    let (s, kept) ← f.putOwn f.empty [] ms
    let outer ← f.close s
    return outer (← g.ofMembers kept.reverse)
  | _ => .error .malformed

end Fields

end BlockPuzzle
