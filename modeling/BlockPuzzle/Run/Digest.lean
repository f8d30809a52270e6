import BlockPuzzle.Hash.Sha256
import BlockPuzzle.Run.Report
import BlockPuzzle.Width

/-!
# The digest of a report

A stored solution can be checked by running it again and comparing digests.

## Main definitions

* `Report.bytes`: the bytes that stand for a report.
* `Report.digest`: their SHA-256, in hexadecimal.
-/

namespace BlockPuzzle

/-- A number in four bytes, lowest first, modulo 2^32. -/
def littleEndian (n : Nat) : List UInt8 :=
  [UInt8.ofNat n, UInt8.ofNat (n / 256), UInt8.ofNat (n / 65536), UInt8.ofNat (n / 16777216)]

/-- An integer as the number modulo 2^32 that it is congruent to. -/
def wordOfInt (n : Int) : Nat := (n % Width.word.size).toNat

def Pose.bytes (a : Pose) : List UInt8 :=
  littleEndian (wordOfInt a.position.row) ++ littleEndian (wordOfInt a.position.col) ++
    [UInt8.ofNat a.facing.index]

/-- Each row begins with its length. -/
def Grid.bytes (g : Grid) : List UInt8 :=
  g.rows.flatMap fun row => littleEndian row.length ++ row.map Cell.code

/-- A zero byte ends the name of the action. -/
def Step.bytes (s : Step) : List UInt8 :=
  s.pose.bytes ++ s.grid.bytes ++ littleEndian s.stars ++ littleEndian s.gems ++
    s.action.name.toUTF8.toList ++ [0]

def Report.bytes (r : Report) : List UInt8 :=
  r.trace.flatMap Step.bytes ++
    [r.reachedGoal, r.perfect, r.error.isSome].map (fun b => if b then 1 else 0) ++
    littleEndian r.totalSteps

def Report.digest (r : Report) : String := Sha256.hex r.bytes

end BlockPuzzle
