import BlockPuzzle.Program.Node
import BlockPuzzle.Wire.Fields

/-!
# Blocks and program trees in JSON

A block is a record of its identifier, its kind and, if it has one, its number. The record of a node
holds the members of its block and those of its bodies side by side.
-/

namespace BlockPuzzle

def Predicate.toJson (p : Predicate) : Json := .text p.name

def Predicate.ofJson : Decoder Predicate := Decoder.lookup Predicate.ofName? (Decoder.tag false)

namespace Kind

def toJson (k : Kind) : Json := .text k.name

/-- Every tag names a kind. -/
def decoder (embedded : Bool) (j : Json) : Except Fault Kind := (Decoder.tag embedded j).map ofName

def ofJson : Decoder Kind := decoder false

end Kind

namespace Block

def members (b : Block) : List (String × Json) :=
  [("id", .text b.id), ("type", b.kind.toJson)] ++
    (b.param.map fun n => ("param", Json.ofNat n)).toList

def toJson (b : Block) : Json := .object b.members

def fields (embedded : Bool) : Fields Block :=
  Fields.pure Block.mk
    |>.also (.required "id" Decoder.text)
    |>.also (.required "type" (Kind.decoder embedded))
    |>.also (.default "param" (Decoder.optional (Decoder.nat .byte)) none)

def ofJson : Decoder Block := (fields false).decode

def listOfJson : Decoder (List Block) := Decoder.list ofJson

end Block

namespace Node

mutual

def toJson : Node → Json
  | ⟨b, body, none⟩ => .object (b.members ++ [("children", .list (listToJson body))])
  | ⟨b, body, some alternative⟩ =>
    .object (b.members ++
      [("children", .list (listToJson body)), ("else_children", .list (listToJson alternative))])

def listToJson : List Node → List Json
  | [] => []
  | n :: ns => n.toJson :: listToJson ns

end

/-- The members of a node that have been read. Those of its block are kept, latest first. -/
structure Draft where
  body : Option (List Node) := none
  alternative : Option (Option (List Node)) := none
  kept : List (Json.MemberName × Json) := []

/-- The node of a record that has been read to its end. -/
def Draft.close (d : Draft) : Except Fault Node := do
  let b ← (Block.fields true).ofMembers d.kept.reverse
  return ⟨b, d.body.getD [], d.alternative.getD none⟩

mutual

def ofJson : Json → Except Fault Node
  | .record ms => ofMembers {} ms
  | _ => .error .malformed

/-- A list of nodes. -/
def forestOfJson : Json → Except Fault (List Node)
  | .list js => ofItems js
  | _ => .error .malformed

def ofItems : List Json → Except Fault (List Node)
  | [] => .ok []
  | j :: js => do
    let n ← ofJson j
    let ns ← ofItems js
    return n :: ns

/-- Reads the members of a node one after the other. -/
def ofMembers (d : Draft) : List (Json.MemberName × Json) → Except Fault Node
  | [] => d.close
  | (name, j) :: ms => do
    let k ← name.read
    if k = "children" then
      match d.body with
      | some _ => .error .malformed
      | none => do ofMembers { d with body := some (← forestOfJson j) } ms
    else if k = "else_children" then
      match d.alternative, j with
      | some _, _ => .error .malformed
      | none, .null => ofMembers { d with alternative := some none } ms
      | none, j => do ofMembers { d with alternative := some (some (← forestOfJson j)) } ms
    else if j.readable then ofMembers { d with kept := (name, j) :: d.kept } ms
    else .error .malformed

end

end Node

end BlockPuzzle
