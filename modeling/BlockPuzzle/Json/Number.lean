import BlockPuzzle.Binary64
import BlockPuzzle.Json.Basic
import BlockPuzzle.Width

/-!
# Numbers in JSON

A number is taken in as a significand of 64 bits with a power of ten. Digits that find no room in
the significand count as zeros.

## Main definitions

* `Json.integer?`: the integer that is written by digits alone.
* `Json.inRange`: whether a number is not too great.
* `Json.unsigned?`: the first number of a text and the text behind it.
-/

namespace BlockPuzzle.Json

/-- The digits in front, at least one, and the text behind them. -/
def digits? (cs : List Char) : Option (List Char × List Char) :=
  let ds := cs.takeWhile Char.isDigit
  if ds = [] then none else some (ds, cs.dropWhile Char.isDigit)

/-- Digits without a zero in front. -/
def integerPart? (cs : List Char) : Option (List Char × List Char) :=
  match digits? cs with
  | some ('0' :: _ :: _, _) => none
  | r => r

/-- The digits behind a point; none without a point. -/
def fraction? : List Char → Option (List Char × List Char)
  | '.' :: cs => digits? cs
  | cs => some ([], cs)

/-- The exponent, if there is one. -/
def exponent? : List Char → Option (Option Int × List Char)
  | c :: cs =>
    if c = 'e' ∨ c = 'E' then
      match cs with
      | '-' :: cs =>
        (digits? cs).map fun (ds, rest) => (some (-(Nat.ofDigitChars 10 ds 0 : Int)), rest)
      | '+' :: cs =>
        (digits? cs).map fun (ds, rest) => (some (Nat.ofDigitChars 10 ds 0 : Int), rest)
      | cs => (digits? cs).map fun (ds, rest) => (some (Nat.ofDigitChars 10 ds 0 : Int), rest)
    else some (none, c :: cs)
  | [] => some (none, [])

/-! ## Values -/

/-- The digits of `cs` behind those of `s`, as long as there is room in 64 bits, and the digits for
which there is none. -/
def appendDigits (s : Nat) : List Char → Nat × List Char
  | [] => (s, [])
  | c :: cs =>
    let t := 10 * s + (c.toNat - '0'.toNat)
    if t < Width.long.size then appendDigits t cs else (s, c :: cs)

/-- The integer with the given digits, if it fits in 64 bits. There is no negative zero among
them. -/
def integer? (negative : Bool) (whole : List Char) : Option Int :=
  match appendDigits 0 whole with
  | (n, []) =>
    if negative = false then some n
    else if 0 < n ∧ Width.long.intMin ≤ -n then some (-n)
    else none
  | _ => none

/-- Whether `m * 10 ^ e` is not too great. Both factors are rounded before the product is. -/
def isFinite (m : Nat) (e : Int) : Bool :=
  m == 0 || e < 0 ||
    (e ≤ 308 && Binary64.round m * Binary64.round (Nat.pow 10 e.toNat) < Binary64.bound)

/-- Whether the number with the given digits and exponent is not too great. -/
def inRange (whole fraction : List Char) (exponent : Int) : Bool :=
  let (s, beyond) := appendDigits 0 whole
  let (s, dropped) := appendDigits s fraction
  isFinite s (exponent + beyond.length + dropped.length - fraction.length)

/-- A number without its sign. -/
def unsigned? (negative : Bool) (cs : List Char) : Option (Json × List Char) := do
  let (whole, cs) ← integerPart? cs
  let (fraction, cs) ← fraction? cs
  let (exponent, cs) ← exponent? cs
  let integer := if fraction = [] ∧ exponent = none then integer? negative whole else none
  let value : Json :=
    match integer with
    | some n => .int n
    | none => if inRange whole fraction (exponent.getD 0) then .decimal else .unreadable true
  return (value, cs)

/-! ## Numbers take up room -/

theorem length_dropWhile_le (p : Char → Bool) (cs : List Char) :
    (cs.dropWhile p).length ≤ cs.length :=
  (List.dropWhile_sublist p).length_le

theorem length_digits?_lt {cs : List Char} {r : List Char × List Char} (h : digits? cs = some r) :
    r.2.length < cs.length := by
  simp only [digits?] at h
  split at h
  · simp at h
  · next hne =>
    cases cs with
    | nil => simp at hne
    | cons c cs =>
      by_cases hc : c.isDigit
      · have := length_dropWhile_le Char.isDigit cs
        simp only [Option.some.injEq] at h
        simp only [← h, List.dropWhile_cons, hc, if_true, List.length_cons]
        omega
      · simp [hc] at hne

theorem length_integerPart?_lt {cs : List Char} {r : List Char × List Char}
    (h : integerPart? cs = some r) : r.2.length < cs.length := by
  unfold integerPart? at h
  split at h
  · simp at h
  · exact length_digits?_lt h

theorem length_fraction?_le {cs : List Char} {r : List Char × List Char}
    (h : fraction? cs = some r) : r.2.length ≤ cs.length := by
  unfold fraction? at h
  split at h
  · have := length_digits?_lt h
    simp only [List.length_cons]; omega
  · simp only [Option.some.injEq] at h
    simp [← h]

theorem length_exponent?_le {cs : List Char} {r : Option Int × List Char}
    (h : exponent? cs = some r) : r.2.length ≤ cs.length := by
  unfold exponent? at h
  split at h
  · split at h
    · split at h <;>
      · obtain ⟨x, hx, rfl⟩ := Option.map_eq_some_iff.1 h
        have := length_digits?_lt hx
        simp only [List.length_cons] at *; omega
    · simp only [Option.some.injEq] at h
      simp [← h]
  · simp only [Option.some.injEq] at h
    simp [← h]

theorem length_unsigned?_lt {negative : Bool} {cs : List Char} {r : Json × List Char}
    (h : unsigned? negative cs = some r) : r.2.length < cs.length := by
  simp only [unsigned?, bind, Option.bind_eq_some_iff, pure, Option.some.injEq] at h
  obtain ⟨w, hw, f, hf, e, he, rfl⟩ := h
  have h1 := length_integerPart?_lt hw
  have h2 := length_fraction?_le hf
  have h3 := length_exponent?_le he
  simp only; omega

end BlockPuzzle.Json
