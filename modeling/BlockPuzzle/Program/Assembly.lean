import BlockPuzzle.Program.Markers
import BlockPuzzle.Program.Node

/-!
# From blocks to program trees

A cursor walks over the blocks. Every opener puts a frame on a stack, and what follows is filed into
the innermost frame until the cursor has come to that frame's limit. A frame never reaches beyond
the limit of the frame around it, whichever closers are missing or misplaced.

## Main definitions

* `Frame`: a body that is still being filled.
* `Assembly.step`: one step of the cursor.
* `Node.ofBlocks`: the program tree of a block list.
-/

namespace BlockPuzzle

/-- A body that is still being filled. Both bodies hold their latest node first. -/
structure Frame where
  block : Block
  body : List Node := []
  alternative : Option (List Node) := none
  /-- The first position behind the region that is being filled. -/
  limit : Nat
  /-- The region of the alternative, until it is begun: its start, and the first position behind
  it. -/
  elseRegion : Option (Nat × Nat) := none
  /-- Where the cursor goes on once the frame is closed. -/
  resume : Nat
  deriving Repr

namespace Frame

/-- The frame of the loop at `i`. A loop that is not closed before `limit` reaches to `limit`. -/
def ofLoop (m : Markers) (b : Block) (i limit : Nat) : Frame :=
  let stop := (m.loopEnd? i).filter (· < limit)
  { block := b, limit := stop.getD limit, resume := (stop.map (· + 1)).getD limit }

/-- The frame of the branch at `i`. The first `else` ends its body and the last one begins its
alternative; what lies between the two belongs to neither. -/
def ofBranch (m : Markers) (b : Block) (i limit : Nat) : Frame :=
  let stop := (m.branchEnd? i).filter (· < limit)
  let regionEnd := stop.getD limit
  let elses := (m.elsesOf i).takeWhile (· < regionEnd)
  { block := b
    limit := elses.head?.getD regionEnd
    elseRegion := elses.getLast?.map fun e => (e + 1, regionEnd)
    resume := (stop.map (· + 1)).getD limit }

def push (f : Frame) (n : Node) : Frame :=
  match f.alternative with
  | some ns => { f with alternative := some (n :: ns) }
  | none => { f with body := n :: f.body }

/-- The frame with the cursor in its alternative, which ends at `stop`. -/
def beginAlternative (f : Frame) (stop : Nat) : Frame :=
  { f with alternative := some [], limit := stop, elseRegion := none }

def close (f : Frame) : Node := ⟨f.block, f.body.reverse, f.alternative.map List.reverse⟩

end Frame

/-- The cursor, the open frames, innermost first, and the finished top nodes, latest first. -/
structure Assembly where
  pos : Nat := 0
  frames : List Frame := []
  forest : List Node := []
  deriving Repr

namespace Assembly

/-- Where the region that is being filled ends, in a program of `n` blocks. -/
def limit (a : Assembly) (n : Nat) : Nat := (a.frames.head?.map Frame.limit).getD n

def push (a : Assembly) (n : Node) : Assembly :=
  match a.frames with
  | [] => { a with forest := n :: a.forest }
  | f :: fs => { a with frames := f.push n :: fs }

/-- The region being filled has ended: its frame begins its alternative or is closed. -/
def leave (a : Assembly) : Option Assembly :=
  match a.frames with
  | [] => none
  | f :: fs =>
    match f.elseRegion with
    | some (start, stop) =>
      some { a with pos := start, frames := f.beginAlternative stop :: fs }
    | none => some ({ a with pos := f.resume, frames := fs }.push f.close)

/-- The block under the cursor, at `a.pos`: an opener opens a frame, a marker is passed over, and
any other block is a leaf. -/
def read (a : Assembly) (m : Markers) (n : Nat) (b : Block) : Assembly :=
  let next := { a with pos := a.pos + 1 }
  match b.kind with
  | .loop => { next with frames := Frame.ofLoop m b a.pos (a.limit n) :: a.frames }
  | .branch _ => { next with frames := Frame.ofBranch m b a.pos (a.limit n) :: a.frames }
  | .endLoop | .otherwise | .endBranch => next
  | .move _ | .unknown => next.push (Node.leaf b)

/-- One step; `none` once everything is filed. -/
def step (blocks : Array Block) (m : Markers) (a : Assembly) : Option Assembly :=
  if a.limit blocks.size ≤ a.pos then a.leave
  else (blocks[a.pos]?).map (a.read m blocks.size)

/-- At most `fuel` steps. -/
def run (blocks : Array Block) (m : Markers) : Nat → Assembly → Assembly
  | 0, a => a
  | fuel + 1, a =>
    match a.step blocks m with
    | none => a
    | some b => run blocks m fuel b

/-- Enough steps for every program: each block is read once, and each opener's frame is left twice
at most. -/
def stepBound (bs : List Block) : Nat :=
  bs.length + 2 * bs.countP (·.kind.isOpener) + 1

end Assembly

/-- The program tree of a block list. -/
def Node.ofBlocks (bs : List Block) : List Node :=
  (Assembly.run bs.toArray (Markers.resolve bs) (Assembly.stepBound bs) {}).forest.reverse

end BlockPuzzle
