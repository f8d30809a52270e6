/-!
# JSON values as they stand in a text

A text may break off or go wrong in the middle, and what stands before the fault still counts:
whoever takes the value apart in the order of the text meets its own faults first. So a value has a
place for what cannot be taken in.

## Main definitions

* `Json.MemberName`: a name in a record, with the way in which it is written.
* `Json`: a value, in which pieces may be unreadable.
* `Json.wellFormed`: the value can at least be passed over.
* `Json.readable`: the value can be taken in as a whole.
-/

namespace BlockPuzzle

/-- The name of a member. Escapes do not change what it reads, but not every name may have them. -/
inductive Json.MemberName where
  /-- Every character stands for itself. -/
  | plain (s : String)
  /-- Some characters are escaped. -/
  | escaped (s : String)
  /-- There is no name, or half a surrogate pair in it. -/
  | unreadable
  deriving DecidableEq, Repr

inductive Json where
  | null
  | bool (b : Bool)
  | int (n : Int)
  /-- A number that is no integer of 64 bits. No field takes one, so its value is not kept. -/
  | decimal
  | text (s : String)
  | list (items : List Json)
  /-- Members in the order of the text, names repeated or not. -/
  | record (members : List (Json.MemberName × Json))
  /-- A piece that cannot be taken in: the rest of a faulty text or, if `wellFormed`, a value that
  goes beyond what is kept, such as nesting without end. -/
  | unreadable (wellFormed : Bool)
  deriving Repr

namespace Json

namespace MemberName

def text? : MemberName → Option String
  | .plain s | .escaped s => some s
  | .unreadable => none

/-- The name, if no character in it is escaped. -/
def plain? : MemberName → Option String
  | .plain s => some s
  | .escaped _ | .unreadable => none

end MemberName

/-- A record whose names are all plain. -/
def object (members : List (String × Json)) : Json :=
  .record (members.map fun m => (.plain m.1, m.2))

def ofNat (n : Nat) : Json := .int n

mutual

/-- Nothing in the value breaks off. -/
def wellFormed : Json → Bool
  | .null | .bool _ | .int _ | .decimal | .text _ => true
  | .list items => wellFormedItems items
  | .record members => wellFormedMembers members
  | .unreadable w => w

def wellFormedItems : List Json → Bool
  | [] => true
  | j :: js => j.wellFormed && wellFormedItems js

def wellFormedMembers : List (MemberName × Json) → Bool
  | [] => true
  | (_, j) :: ms => j.wellFormed && wellFormedMembers ms

end

mutual

/-- Nothing in the value is unreadable. -/
def readable : Json → Bool
  | .null | .bool _ | .int _ | .decimal | .text _ => true
  | .list items => readableItems items
  | .record members => readableMembers members
  | .unreadable _ => false

def readableItems : List Json → Bool
  | [] => true
  | j :: js => j.readable && readableItems js

def readableMembers : List (MemberName × Json) → Bool
  | [] => true
  | (k, j) :: ms => k.text?.isSome && j.readable && readableMembers ms

end

end Json

end BlockPuzzle
