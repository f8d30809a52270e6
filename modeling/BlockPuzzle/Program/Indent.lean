import BlockPuzzle.Program.Block

/-!
# Indentation

## Main definitions

* `Block.indents`: how far an editor indents each block of a list.
-/

namespace BlockPuzzle.Block

/-- Markers stand one level out from the body that they end. -/
def shownAt (b : Block) (depth : Nat) : Nat := if b.kind.isMarker then depth - 1 else depth

/-- The depth after a block. It never falls below zero. -/
def depthAfter (b : Block) (depth : Nat) : Nat :=
  match b.kind with
  | .loop | .branch _ => depth + 1
  | .otherwise => depth - 1 + 1
  | .endLoop | .endBranch => depth - 1
  | .move _ | .unknown => depth

/-- The indentation of blocks that begin at the given depth. -/
def indentsFrom (depth : Nat) : List Block → List Nat
  | [] => []
  | b :: bs => b.shownAt depth :: indentsFrom (b.depthAfter depth) bs

def indents (bs : List Block) : List Nat := indentsFrom 0 bs

@[simp] theorem length_indentsFrom (depth : Nat) (bs : List Block) :
    (indentsFrom depth bs).length = bs.length := by
  induction bs generalizing depth with
  | nil => rfl
  | cons b bs ih => simp [indentsFrom, ih]

@[simp] theorem length_indents (bs : List Block) : (indents bs).length = bs.length :=
  length_indentsFrom 0 bs

end BlockPuzzle.Block
