import BlockPuzzle.Program.Block

/-!
# Matching markers

One pass over a program finds the closer of every opener. Loops and branches are matched apart from
each other, so that they need not be nested within one another.

## Main definitions

* `Markers`: for every position of an opener, the positions of its markers.
* `Markers.resolve`: the markers of a program.
-/

namespace BlockPuzzle

/-- What belongs to the opener at each position of a program. -/
structure Markers where
  loopEnds : Array (Option Nat)
  branchEnds : Array (Option Nat)
  /-- The `else` blocks directly inside each branch, ascending. -/
  elses : Array (List Nat)
  deriving DecidableEq, Repr

namespace Markers

def empty (n : Nat) : Markers :=
  ⟨Array.replicate n none, Array.replicate n none, Array.replicate n []⟩

def loopEnd? (m : Markers) (i : Nat) : Option Nat := m.loopEnds[i]?.join

def branchEnd? (m : Markers) (i : Nat) : Option Nat := m.branchEnds[i]?.join

def elsesOf (m : Markers) (i : Nat) : List Nat := m.elses[i]?.getD []

/-- The markers found so far, and the openers still open, innermost first. -/
structure Scan where
  found : Markers
  openLoops : List Nat := []
  openBranches : List Nat := []
  deriving DecidableEq, Repr

/-- A closer closes the innermost opener of its family; one that finds none is skipped. -/
def Scan.read (s : Scan) (i : Nat) : Kind → Scan
  | .loop => { s with openLoops := i :: s.openLoops }
  | .branch _ => { s with openBranches := i :: s.openBranches }
  | .endLoop =>
    match s.openLoops with
    | [] => s
    | o :: os =>
      { s with found.loopEnds := s.found.loopEnds.setIfInBounds o (some i), openLoops := os }
  | .endBranch =>
    match s.openBranches with
    | [] => s
    | o :: os =>
      { s with found.branchEnds := s.found.branchEnds.setIfInBounds o (some i), openBranches := os }
  | .otherwise =>
    match s.openBranches with
    | [] => s
    | o :: _ => { s with found.elses := s.found.elses.modify o (· ++ [i]) }
  | .move _ | .unknown => s

/-- The scan of the blocks from position `i` on. -/
def Scan.run (s : Scan) (i : Nat) : List Block → Scan
  | [] => s
  | b :: bs => (s.read i b.kind).run (i + 1) bs

def scan (bs : List Block) : Scan := Scan.run { found := empty bs.length } 0 bs

def resolve (bs : List Block) : Markers := (scan bs).found

theorem Scan.run_append (s : Scan) (i : Nat) (xs ys : List Block) :
    s.run i (xs ++ ys) = (s.run i xs).run (i + xs.length) ys := by
  induction xs generalizing s i with
  | nil => rfl
  | cons b bs ih => simp [Scan.run, ih, Nat.add_comm, Nat.add_left_comm]

end Markers

end BlockPuzzle
