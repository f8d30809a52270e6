import BlockPuzzle.Binary64

/-!
# The random source of the mazes

A linear congruential generator whose arithmetic is that of binary64. The maps of the mazes depend
on what is lost by rounding.

## Main definitions

* `Congruential.next`: the state that follows a state.
* `Congruential.seed`: the state from which a level is drawn.
-/

namespace BlockPuzzle.Congruential

/-- The next state, which is also the next number drawn. -/
def next (state : Nat) : Nat :=
  Binary64.round (Binary64.round (state * 1103515245) + 12345) % 2147483648

def draw (state : Nat) : Nat × Nat := (next state, next state)

/-- The state from which level `level` of world `world` is drawn. -/
def seed (level world : Nat) : Nat := level * 137 + world * 31

end BlockPuzzle.Congruential
