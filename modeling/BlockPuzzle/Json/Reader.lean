import BlockPuzzle.Json.Token

/-!
# Reading JSON

The containers that are still open lie on a stack, so that the nesting of a text costs no recursion.
Where a text goes wrong, a piece that is unreadable ends every open container.

## Main definitions

* `Json.Document`: the value of a text, and whether it is all of it.
* `Json.Reader.step`: one token more.
* `Json.read`: the document of a text.
-/

namespace BlockPuzzle.Json

/-- A container whose end has not come. What it holds is listed latest first. -/
inductive Frame where
  | list (items : List Json)
  /-- A record before a name. -/
  | record (members : List (MemberName × Json))
  /-- A record with a name, before its value. -/
  | member (members : List (MemberName × Json)) (name : MemberName)
  deriving Repr

/-- What may come next. -/
inductive Expect where
  | value
  /-- The first item or member, or the end of the container. -/
  | first
  | name
  | colon
  /-- A comma, or the end of the container. -/
  | more
  deriving DecidableEq, Repr

/-- The value of a text. A complete document holds nothing else. -/
structure Document where
  value : Json
  complete : Bool
  deriving Repr

inductive Reader where
  | reading (expect : Expect) (frames : List Frame)
  | done (document : Document)
  deriving Repr

/-- At most so many containers lie inside each other in what is read. -/
def maxNesting : Nat := 127

/-- A container inside of the given frames, which is given up if they are too many. -/
def nested (outer : List Frame) (j : Json) (wellFormed : Bool) : Json :=
  if (outer.drop (maxNesting - 1)).isEmpty then j else .unreadable wellFormed

/-- The frame with a last piece that is unreadable, as a value. -/
def Frame.breakOff (j : Json) : Frame → Json
  | .list items => .list (j :: items).reverse
  | .record members => .record ((.unreadable, j) :: members).reverse
  | .member members name => .record ((name, j) :: members).reverse

/-- The value of a text that goes wrong inside the given frames. -/
def breakOff (j : Json) : List Frame → Json
  | [] => j
  | f :: fs => breakOff (nested fs (f.breakOff j) false) fs

namespace Reader

def fault (frames : List Frame) : Reader := .done ⟨breakOff (.unreadable false) frames, false⟩

/-- Puts a complete value where it belongs. -/
def settle (j : Json) : List Frame → Reader
  | [] => .done ⟨j, true⟩
  | .list items :: fs => .reading .more (.list (j :: items) :: fs)
  | .member members name :: fs => .reading .more (.record ((name, j) :: members) :: fs)
  | .record members :: fs => .fault (.record members :: fs)

/-- Ends the innermost container. -/
def close : List Frame → Reader
  | .list items :: fs => settle (nested fs (.list items.reverse) true) fs
  | .record members :: fs => settle (nested fs (.record members.reverse) true) fs
  | fs => .fault fs

/-- A token where a value is expected. -/
def value (frames : List Frame) : Token → Reader
  | .openList => .reading .first (.list [] :: frames)
  | .openRecord => .reading .first (.record [] :: frames)
  | .scalar j => settle j frames
  | .text s => settle ((s.text?.map Json.text).getD (.unreadable true)) frames
  | _ => .fault frames

/-- A token where a name is expected. -/
def name (frames : List Frame) : Token → Reader
  | .text s =>
    match frames with
    | .record members :: fs => .reading .colon (.member members s :: fs)
    | _ => .fault frames
  | _ => .fault frames

def step (frames : List Frame) : Expect → Token → Reader
  | .value, t => value frames t
  | .first, t =>
    match frames, t with
    | .list _ :: _, .closeList | .record _ :: _, .closeRecord => close frames
    | .list _ :: _, t => value frames t
    | _, t => name frames t
  | .name, t => name frames t
  | .colon, .colon => .reading .value frames
  | .colon, _ => .fault frames
  | .more, t =>
    match frames, t with
    | .list _ :: _, .closeList | .record _ :: _, .closeRecord => close frames
    | .list _ :: _, .comma => .reading .value frames
    | .record _ :: _, .comma => .reading .name frames
    | _, _ => .fault frames

/-- The document that the rest of the text leads to. -/
def run (r : Reader) (cs : List Char) : Document :=
  match r with
  | .done d => { d with complete := d.complete && (cs.dropWhile isSpace).isEmpty }
  | .reading expect frames =>
    match _h : Token.next? cs with
    | none => ⟨breakOff (.unreadable false) frames, false⟩
    | some (t, rest) => run (step frames expect t) rest
termination_by cs.length
decreasing_by exact Token.length_next?_lt (by assumption)

end Reader

def readChars (cs : List Char) : Document := Reader.run (.reading .value []) cs

def read (s : String) : Document := readChars s.toList

end BlockPuzzle.Json
