import BlockPuzzle.Json.Basic

/-!
# Writing JSON

## Main definitions

* `Json.write`: the text of a value, without blanks. Only complete values have one that can be read.
-/

namespace BlockPuzzle.Json

def hexDigit (n : Nat) : Char := "0123456789abcdef".toList.getD n '0'

/-- The letter that stands behind a backslash for a character; none for most characters. -/
def escapeLetter? : Char → Option Char
  | '"' => some '"'
  | '\\' => some '\\'
  | '\x08' => some 'b'
  | '\x0c' => some 'f'
  | '\n' => some 'n'
  | '\r' => some 'r'
  | '\t' => some 't'
  | _ => none

/-- A character inside a string. Quotes, backslashes and control characters are escaped. -/
def writeChar (c : Char) : List Char :=
  match escapeLetter? c with
  | some x => ['\\', x]
  | none =>
    if c.toNat < 0x20 then ['\\', 'u', '0', '0', hexDigit (c.toNat / 16), hexDigit (c.toNat % 16)]
    else [c]

def writeText (s : String) : List Char := '"' :: s.toList.flatMap writeChar ++ ['"']

def writeInt : Int → List Char
  | .ofNat n => Nat.toDigits 10 n
  | .negSucc n => '-' :: Nat.toDigits 10 (n + 1)

mutual

def writeChars : Json → List Char
  | .null | .decimal | .unreadable _ => "null".toList
  | .bool true => "true".toList
  | .bool false => "false".toList
  | .int n => writeInt n
  | .text s => writeText s
  | .list items => '[' :: writeItems items ++ [']']
  | .record members => '\x7b' :: writeMembers members ++ ['\x7d']

/-- Items with commas between them. -/
def writeItems : List Json → List Char
  | [] => []
  | [j] => writeChars j
  | j :: js => writeChars j ++ ',' :: writeItems js

/-- Members with commas between them. -/
def writeMembers : List (MemberName × Json) → List Char
  | [] => []
  | [(k, j)] => writeText (k.text?.getD "") ++ ':' :: writeChars j
  | (k, j) :: ms => writeText (k.text?.getD "") ++ ':' :: writeChars j ++ ',' :: writeMembers ms

end

def write (j : Json) : String := String.ofList (writeChars j)

end BlockPuzzle.Json
