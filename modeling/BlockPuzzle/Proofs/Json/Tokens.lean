import BlockPuzzle.Json.Token
import BlockPuzzle.Json.Writer
import Mathlib.Data.List.Induction

/-!
# The tokens of written values

What is written for an integer or a string is read as one token, and the text behind it is left. For
an integer this asks that the text behind it cannot be taken for more of the number.

## Main definitions

* `Json.Ends`: a text that may stand behind a value.
* `Json.pieceOf`: the piece that is written for a character.
* `Json.isPlain`: a string in which nothing is escaped.

## Main statements

* `Json.Token.next?_writeInt`: an integer of 64 bits is read back.
* `Json.Token.next?_writeText`: so is every string.
-/

namespace BlockPuzzle.Json

/-- The text ends, or it goes on with a comma or with the end of a container. -/
def Ends (rest : List Char) : Prop := ∀ c ∈ rest.head?, c = ',' ∨ c = ']' ∨ c = '\x7d'

@[simp] theorem ends_nil : Ends [] := nofun

@[simp] theorem ends_cons {c : Char} {cs : List Char} :
    Ends (c :: cs) ↔ c = ',' ∨ c = ']' ∨ c = '\x7d' := by
  simp [Ends]

variable {rest : List Char} {n : Nat}

/-! ## Digits -/

/-- There is no zero in front. -/
theorem toDigits_ne_zero_cons (hn : 0 < n) (ds : List Char) : Nat.toDigits 10 n ≠ '0' :: ds := by
  induction n using Nat.strongRecOn generalizing ds with
  | _ n ih =>
    rw [Nat.toDigits_eq_if (by decide)]
    split
    · have hdigit : n = 1 ∨ n = 2 ∨ n = 3 ∨ n = 4 ∨ n = 5 ∨ n = 6 ∨ n = 7 ∨ n = 8 ∨ n = 9 := by
        omega
      rcases hdigit with rfl | rfl | rfl | rfl | rfl | rfl | rfl | rfl | rfl <;> simp
    · intro hcons
      obtain hnil | ⟨es, hes, -⟩ := List.append_eq_cons_iff.1 hcons
      · exact Nat.toDigits_ne_nil hnil.1
      · exact ih (n / 10) (by omega) (by omega) es hes

theorem digits?_append {ds : List Char} (hds : ∀ c ∈ ds, c.isDigit) (hne : ds ≠ [])
    (hrest : Ends rest) : digits? (ds ++ rest) = some (ds, rest) := by
  have hstop : rest.takeWhile Char.isDigit = [] ∧ rest.dropWhile Char.isDigit = rest := by
    cases rest with
    | nil => exact ⟨rfl, rfl⟩
    | cons c cs => obtain rfl | rfl | rfl := ends_cons.1 hrest <;> exact ⟨rfl, rfl⟩
  unfold digits?
  rw [List.takeWhile_append_of_pos hds, List.dropWhile_append_of_pos hds, hstop.1, hstop.2,
    List.append_nil, if_neg hne]

theorem integerPart?_toDigits (n : Nat) (hrest : Ends rest) :
    integerPart? (Nat.toDigits 10 n ++ rest) = some (Nat.toDigits 10 n, rest) := by
  have hdigits : digits? (Nat.toDigits 10 n ++ rest) = some (Nat.toDigits 10 n, rest) :=
    digits?_append (fun c hc => Nat.isDigit_of_mem_toDigits (by decide) (by decide) hc)
      Nat.toDigits_ne_nil hrest
  unfold integerPart?
  rw [hdigits]
  split
  · next c cs r hzero =>
    obtain ⟨hzero, -⟩ := Prod.mk.inj (Option.some.inj hzero)
    obtain rfl | hn := Nat.eq_zero_or_pos n
    · simp at hzero
    · exact absurd hzero (toDigits_ne_zero_cons hn _)
  · rfl

theorem fraction?_of_ends (hrest : Ends rest) : fraction? rest = some ([], rest) := by
  cases rest with
  | nil => rfl
  | cons c cs => obtain rfl | rfl | rfl := ends_cons.1 hrest <;> rfl

theorem exponent?_of_ends (hrest : Ends rest) : exponent? rest = some (none, rest) := by
  cases rest with
  | nil => rfl
  | cons c cs => obtain rfl | rfl | rfl := ends_cons.1 hrest <;> rfl

/-- Where the whole number has room, so has every number in front of it. -/
theorem appendDigits_eq {s : Nat} {cs : List Char}
    (h : Nat.ofDigitChars 10 cs s < Width.long.size) :
    appendDigits s cs = (Nat.ofDigitChars 10 cs s, []) := by
  induction cs generalizing s with
  | nil => rfl
  | cons c cs ih =>
    rw [Nat.ofDigitChars_cons] at h ⊢
    have hroom : 10 * s + (c.toNat - '0'.toNat) < Width.long.size := by
      refine Nat.lt_of_le_of_lt ?_ h
      rw [Nat.ofDigitChars_eq_ofDigitChars_zero]
      exact Nat.le_add_right_of_le (Nat.le_mul_of_pos_left _ (Nat.pow_pos (by decide)))
    rw [appendDigits, if_pos hroom]
    exact ih h

/-! ## Integers -/

/-- An integer that 64 bits can hold, with a sign or without. -/
def IsLong (n : Int) : Prop := Width.long.intMin ≤ n ∧ n < Width.long.size

theorem unsigned?_toDigits {negative : Bool} {m : Int}
    (hm : integer? negative (Nat.toDigits 10 n) = some m) (hrest : Ends rest) :
    unsigned? negative (Nat.toDigits 10 n ++ rest) = some (.int m, rest) := by
  rw [unsigned?, integerPart?_toDigits n hrest]
  simp [fraction?_of_ends hrest, exponent?_of_ends hrest, hm]

theorem appendDigits_toDigits (hn : n < Width.long.size) :
    appendDigits 0 (Nat.toDigits 10 n) = (n, []) := by
  have hvalue : Nat.ofDigitChars 10 (Nat.toDigits 10 n) 0 = n := Nat.ofDigitChars_ten_toDigits
  rw [appendDigits_eq (by rwa [hvalue]), hvalue]

/-- A text that begins with a digit is taken for a number. -/
theorem tokenAt?_of_isDigit {c : Char} (hc : c.isDigit) (cs : List Char) :
    tokenAt? c cs = (unsigned? false (c :: cs)).map fun (j, rest) => (.scalar j, rest) := by
  unfold tokenAt?
  split
  case h_12 => rfl
  all_goals cases hc

theorem Token.next?_of_isDigit {c : Char} (hc : c.isDigit) (cs : List Char) :
    Token.next? (c :: cs) =
      (unsigned? false (c :: cs)).map fun (j, rest) => (.scalar j, rest) := by
  have hspace : isSpace c = false := by
    by_contra hspace
    simp only [isSpace, Bool.not_eq_false, Bool.or_eq_true, beq_iff_eq] at hspace
    rcases hspace with ((rfl | rfl) | rfl) | rfl <;> cases hc
  rw [Token.next?, List.dropWhile_cons_of_neg (by simp [hspace])]
  exact tokenAt?_of_isDigit hc cs

theorem Token.next?_writeInt {m : Int} (hm : IsLong m) (hrest : Ends rest) :
    Token.next? (writeInt m ++ rest) = some (.scalar (.int m), rest) := by
  obtain ⟨hlow, hhigh⟩ := hm
  cases m with
  | ofNat n =>
    have hn : n < Width.long.size := Int.ofNat_lt.1 hhigh
    have hinteger : integer? false (Nat.toDigits 10 n) = some (Int.ofNat n) := by
      rw [integer?, appendDigits_toDigits hn]
      rfl
    have hunsigned := unsigned?_toDigits hinteger hrest
    obtain ⟨c, cs, hcs⟩ := List.exists_cons_of_ne_nil (Nat.toDigits_ne_nil (b := 10) (n := n))
    have hc : c.isDigit := Nat.isDigit_of_mem_toDigits (b := 10) (n := n) (by decide) (by decide)
      (hcs ▸ List.mem_cons_self)
    rw [writeInt, hcs, List.cons_append, Token.next?_of_isDigit hc, ← List.cons_append, ← hcs,
      hunsigned]
    rfl
  | negSucc n =>
    rw [Width.intMin_long] at hlow
    have hn : n + 1 < Width.long.size := by
      simp only [Width.size]
      omega
    have hinteger : integer? true (Nat.toDigits 10 (n + 1)) = some (Int.negSucc n) := by
      rw [integer?, appendDigits_toDigits hn]
      simp
      omega
    have hunsigned := unsigned?_toDigits hinteger hrest
    rw [writeInt, List.cons_append, Token.next?, List.dropWhile_cons_of_neg (by decide)]
    simp [tokenAt?, hunsigned]

/-! ## Strings -/

/-- The piece that is written for a character. -/
def pieceOf (c : Char) : Piece :=
  if (escapeLetter? c).isSome then .escape c else if c.toNat < 0x20 then .unit c.toNat else .char c

/-- Nothing in the string is escaped. -/
def isPlain (s : String) : Bool := s.toList.all fun c => (pieceOf c).isChar

theorem hexValue?_hexDigit (hn : n < 16) : hexValue? (hexDigit n) = some n := by
  have hall : ∀ n < 16, hexValue? (hexDigit n) = some n := by decide
  exact hall n hn

/-- A control character is written as its code unit. -/
theorem unitOf?_hexDigits (hn : n < 0x20) :
    unitOf? '0' '0' (hexDigit (n / 16)) (hexDigit (n % 16)) = some n := by
  have hzero : hexValue? '0' = some 0 := by decide
  rw [unitOf?, hzero, hexValue?_hexDigit (by omega), hexValue?_hexDigit (by omega)]
  simp
  omega

theorem scanPieces_writeChar (acc : List Piece) (c : Char) (cs : List Char) :
    scanPieces acc (writeChar c ++ cs) = scanPieces (pieceOf c :: acc) cs := by
  unfold writeChar pieceOf
  split
  · next x hx =>
    rw [hx, Option.isSome_some, if_pos rfl]
    unfold escapeLetter? at hx
    split at hx <;> cases hx <;> rfl
  · next hnone =>
    have hquote : c ≠ '"' := by rintro rfl; cases hnone
    have hslash : c ≠ '\\' := by rintro rfl; cases hnone
    rw [hnone, Option.isSome_none, if_neg Bool.false_ne_true]
    by_cases hcontrol : c.toNat < 0x20
    · rw [if_pos hcontrol, if_pos hcontrol]
      simp [scanPieces, unitOf?_hexDigits hcontrol]
    · rw [if_neg hcontrol, if_neg hcontrol]
      simp [scanPieces, hslash, hcontrol]

theorem scanPieces_writeText (acc : List Piece) (cs : List Char) :
    scanPieces acc (cs.flatMap writeChar ++ '"' :: rest) =
      some ((cs.map pieceOf).reverse ++ acc, rest) := by
  induction cs generalizing acc with
  | nil => rfl
  | cons c cs ih =>
    rw [List.flatMap_cons, List.append_assoc, scanPieces_writeChar, ih, List.map_cons,
      List.reverse_cons, List.append_assoc]
    rfl

theorem assemble?_pieceOf (acc : List Char) (c : Char) (ps : List Piece) :
    assemble? acc (pieceOf c :: ps) = assemble? (c :: acc) ps := by
  unfold pieceOf
  split
  · rfl
  · split
    · next hcontrol =>
      have htrail : isTrail c.toNat = false := by simp [isTrail]; omega
      have hlead : isLead c.toNat = false := by simp [isLead]; omega
      rw [assemble?.eq_def]
      simp [htrail, hlead, Char.ofNat_toNat]
    · rfl

theorem assemble?_pieces (acc cs : List Char) :
    assemble? acc ((cs.map pieceOf).reverse) = some (cs ++ acc) := by
  induction cs using List.reverseRecOn generalizing acc with
  | nil => rfl
  | append_singleton cs c ih =>
    rw [List.map_append, List.reverse_append, List.map_singleton, List.reverse_singleton,
      List.singleton_append, assemble?_pieceOf, ih, List.append_assoc, List.singleton_append]

/-- The name that is read where a string was written. -/
def nameFor (s : String) : MemberName := if isPlain s then .plain s else .escaped s

@[simp] theorem text?_nameFor (s : String) : (nameFor s).text? = some s := by
  unfold nameFor
  split <;> rfl

theorem nameOf_pieces (s : String) : nameOf ((s.toList.map pieceOf).reverse) = nameFor s := by
  have hplain : (s.toList.map pieceOf).reverse.all Piece.isChar = isPlain s := by
    rw [List.all_reverse, List.all_map]
    rfl
  simp only [nameOf, assemble?_pieces, hplain, List.append_nil, String.ofList_toList, nameFor]

theorem Token.next?_writeText (s : String) (rest : List Char) :
    Token.next? (writeText s ++ rest) = some (.text (nameFor s), rest) := by
  have hscan : scanPieces [] (s.toList.flatMap writeChar ++ '"' :: rest) =
      some ((s.toList.map pieceOf).reverse, rest) := by
    rw [scanPieces_writeText, List.append_nil]
  have hwrite : writeText s ++ rest = '"' :: (s.toList.flatMap writeChar ++ '"' :: rest) := by
    simp [writeText]
  rw [hwrite, Token.next?, List.dropWhile_cons_of_neg (by decide)]
  simp [tokenAt?, textToken?, hscan, nameOf_pieces]

end BlockPuzzle.Json
