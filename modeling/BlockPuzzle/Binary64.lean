/-!
# Natural numbers in binary64

A number is rounded to 53 significant binary digits. From the bound on it is too great.

## Main definitions

* `Binary64.round`: what is left of a number.
* `Binary64.bound`: the least number that is too great.
-/

namespace BlockPuzzle.Binary64

/-- The nearest multiple of `unit`; from the middle between two of them, the even one. -/
def roundToMultiple (unit n : Nat) : Nat :=
  let q := n / unit
  if unit < 2 * (n % unit) ∨ (unit = 2 * (n % unit) ∧ q % 2 = 1) then (q + 1) * unit else q * unit

/-- The number of significant binary digits. -/
def precision : Nat := 53

/-- The nearest number that has no more significant digits. -/
def round (n : Nat) : Nat := roundToMultiple (1 <<< (n.log2 + 1 - precision)) n

/-- Half a unit beyond the greatest number. -/
def bound : Nat := Nat.pow 2 1024 - Nat.pow 2 970

end BlockPuzzle.Binary64
