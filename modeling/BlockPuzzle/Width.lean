/-!
# Machine words

Integers are kept in bytes, words and long words, with one bit for the sign or without it. Where a
sum finds no room an engine breaks off.

## Main definitions

* `Width`: the sizes of words.
* `Width.size`, `Width.intMin`, `Width.intMax`: how far the integers go, without a sign and with
  one.
* `Overflow`: why an engine breaks off.
-/

namespace BlockPuzzle

/-- How much room there is for an integer. -/
inductive Width where
  | byte | word | long
  deriving DecidableEq, Repr

namespace Width

/-- The number of integers that have room. -/
def size : Width → Nat
  | .byte => 256
  | .word => 4294967296
  | .long => 18446744073709551616

/-- The least integer that has room where one bit is for the sign. -/
def intMin (w : Width) : Int := -(w.size / 2)

/-- The greatest integer that has room where one bit is for the sign. -/
def intMax (w : Width) : Int := w.size / 2 - 1

/-- The integer has room where one bit is for the sign. -/
def HasRoom (w : Width) (n : Int) : Prop := w.intMin ≤ n ∧ n ≤ w.intMax

instance (w : Width) (n : Int) : Decidable (w.HasRoom n) := inferInstanceAs (Decidable (_ ∧ _))

theorem size_le (w : Width) : w.size ≤ long.size := by cases w <;> decide

@[simp] theorem intMin_word : word.intMin = -2147483648 := rfl

@[simp] theorem intMax_word : word.intMax = 2147483647 := rfl

@[simp] theorem intMin_long : long.intMin = -9223372036854775808 := rfl

@[simp] theorem intMax_long : long.intMax = 9223372036854775807 := rfl

end Width

/-- What an engine that breaks off could not do. -/
inductive Overflow where
  | add
  deriving DecidableEq, Repr

def Overflow.message : Overflow → String
  | .add => "attempt to add with overflow"

end BlockPuzzle
