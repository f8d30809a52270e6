import BlockPuzzle.Json.Number

/-!
# JSON tokens

## Main definitions

* `Token`: a mark, a scalar or a string.
* `Token.next?`: the first token of a text and the text behind it.
-/

namespace BlockPuzzle.Json

inductive Token where
  | openList | closeList
  | openRecord | closeRecord
  | comma | colon
  | scalar (j : Json)
  /-- A string, which may be the name of a member. -/
  | text (name : MemberName)
  deriving Repr

/-- Space, tab, line feed and carriage return. -/
def isSpace (c : Char) : Bool := c == ' ' || c == '\t' || c == '\n' || c == '\r'

/-! ## Strings -/

/-- What a string is made of. -/
inductive Piece where
  | char (c : Char)
  /-- A character behind a backslash. -/
  | escape (c : Char)
  /-- A code unit written in hexadecimal. -/
  | unit (n : Nat)
  deriving DecidableEq, Repr

def hexValue? (c : Char) : Option Nat :=
  if '0' ≤ c ∧ c ≤ '9' then some (c.toNat - '0'.toNat)
  else if 'a' ≤ c ∧ c ≤ 'f' then some (c.toNat - 'a'.toNat + 10)
  else if 'A' ≤ c ∧ c ≤ 'F' then some (c.toNat - 'A'.toNat + 10)
  else none

def unitOf? (a b c d : Char) : Option Nat := do
  return (((← hexValue? a) * 16 + (← hexValue? b)) * 16 + (← hexValue? c)) * 16 + (← hexValue? d)

/-- The character that a backslash and `c` stand for. -/
def escaped? : Char → Option Char
  | '"' => some '"'
  | '\\' => some '\\'
  | '/' => some '/'
  | 'b' => some '\x08'
  | 'f' => some '\x0c'
  | 'n' => some '\n'
  | 'r' => some '\r'
  | 't' => some '\t'
  | _ => none

/-- The pieces up to the closing quote, latest first, in front of `acc`, and the text behind it. -/
def scanPieces (acc : List Piece) : List Char → Option (List Piece × List Char)
  | [] => none
  | '"' :: cs => some (acc, cs)
  | '\\' :: 'u' :: a :: b :: c :: d :: cs =>
    match unitOf? a b c d with
    | some n => scanPieces (.unit n :: acc) cs
    | none => none
  | '\\' :: c :: cs =>
    match escaped? c with
    | some x => scanPieces (.escape x :: acc) cs
    | none => none
  | c :: cs => if c.toNat < 0x20 ∨ c = '\\' then none else scanPieces (.char c :: acc) cs

def isLead (n : Nat) : Bool := 0xD800 ≤ n && n < 0xDC00

def isTrail (n : Nat) : Bool := 0xDC00 ≤ n && n < 0xE000

/-- The text of pieces that are given latest first, in front of `acc`. A lead and a trail unit make
one character; alone they make none. -/
def assemble? (acc : List Char) : List Piece → Option (List Char)
  | [] => some acc
  | .char c :: ps | .escape c :: ps => assemble? (c :: acc) ps
  | .unit n :: ps =>
    if isTrail n then
      match ps with
      | .unit m :: ps =>
        if isLead m then
          assemble? (Char.ofNat (0x10000 + (m - 0xD800) * 0x400 + (n - 0xDC00)) :: acc) ps
        else none
      | _ => none
    else if isLead n then none
    else assemble? (Char.ofNat n :: acc) ps

def Piece.isChar : Piece → Bool
  | .char _ => true
  | .escape _ | .unit _ => false

/-- The name that is made of pieces given latest first. -/
def nameOf (ps : List Piece) : MemberName :=
  match assemble? [] ps with
  | some cs =>
    if ps.all Piece.isChar then .plain (String.ofList cs) else .escaped (String.ofList cs)
  | none => .unreadable

/-- The string whose opening quote stands before the text. -/
def textToken? (cs : List Char) : Option (Token × List Char) :=
  (scanPieces [] cs).map fun (ps, rest) => (.text (nameOf ps), rest)

/-! ## Tokens -/

/-- The token that begins with `c`. -/
def tokenAt? (c : Char) (cs : List Char) : Option (Token × List Char) :=
  match c, cs with
  | '[', cs => some (.openList, cs)
  | ']', cs => some (.closeList, cs)
  | '\x7b', cs => some (.openRecord, cs)
  | '\x7d', cs => some (.closeRecord, cs)
  | ',', cs => some (.comma, cs)
  | ':', cs => some (.colon, cs)
  | '"', cs => textToken? cs
  | 'n', 'u' :: 'l' :: 'l' :: cs => some (.scalar .null, cs)
  | 't', 'r' :: 'u' :: 'e' :: cs => some (.scalar (.bool true), cs)
  | 'f', 'a' :: 'l' :: 's' :: 'e' :: cs => some (.scalar (.bool false), cs)
  | '-', cs => (unsigned? true cs).map fun (j, rest) => (.scalar j, rest)
  | c, cs => (unsigned? false (c :: cs)).map fun (j, rest) => (.scalar j, rest)

/-- The first token and the text behind it. No token begins where it gives none. -/
def Token.next? (cs : List Char) : Option (Token × List Char) :=
  match cs.dropWhile isSpace with
  | [] => none
  | c :: cs => tokenAt? c cs

/-! ## Tokens take up room -/

theorem length_scanPieces_lt {acc : List Piece} {cs : List Char} {r : List Piece × List Char}
    (h : scanPieces acc cs = some r) : r.2.length < cs.length := by
  fun_induction scanPieces acc cs with
  | case1 => simp at h
  | case2 acc cs => simp at h; simp [← h]
  | case3 acc a b c d cs n hn ih => have := ih h; simp only [List.length_cons]; omega
  | case4 => simp at h
  | case5 acc c cs hc x hx ih => have := ih h; simp only [List.length_cons]; omega
  | case6 => simp at h
  | case7 => simp at h
  | case8 acc c cs hq h1 h2 hc ih => have := ih h; simp only [List.length_cons]; omega

theorem length_tokenAt?_le {c : Char} {cs : List Char} {r : Token × List Char}
    (h : tokenAt? c cs = some r) : r.2.length ≤ cs.length := by
  unfold tokenAt? at h
  split at h
  all_goals
    first
    | (simp only [Option.some.injEq] at h; subst h; simp only [List.length_cons]; omega)
    | skip
  · simp only [textToken?, Option.map_eq_some_iff] at h
    obtain ⟨p, hp, rfl⟩ := h
    exact Nat.le_of_lt (length_scanPieces_lt hp)
  · obtain ⟨n, hn, rfl⟩ := Option.map_eq_some_iff.1 h
    exact Nat.le_of_lt (length_unsigned?_lt hn)
  · obtain ⟨n, hn, rfl⟩ := Option.map_eq_some_iff.1 h
    exact Nat.le_of_lt_succ (length_unsigned?_lt hn)

theorem Token.length_next?_lt {cs : List Char} {r : Token × List Char}
    (h : Token.next? cs = some r) : r.2.length < cs.length := by
  unfold Token.next? at h
  have hd := length_dropWhile_le isSpace cs
  split at h
  · simp at h
  · next c rest he =>
    have := length_tokenAt?_le h
    simp only [he, List.length_cons] at hd
    omega

end BlockPuzzle.Json
