import BlockPuzzle.Game.Rating
import BlockPuzzle.Level.Lookup
import BlockPuzzle.Level.Sandbox
import BlockPuzzle.Run.Checked
import BlockPuzzle.Wire.Document
import BlockPuzzle.Wire.Level
import BlockPuzzle.Wire.Run

/-!
# The engine by texts

A client that speaks JSON gives texts and gets a text. What goes wrong is a record with the single
member `error`. Only a run that breaks off leaves the client without a text.

## Main definitions

* `Exchange.runProgram`, `Exchange.runProgramWithLimits`: the report of a program on a level.
* `Exchange.structureBlocks`: the tree of a program.
* `Exchange.rateResult`: the rating of a report.
-/

namespace BlockPuzzle.Exchange

def failure (message : String) : String := (Json.object [("error", .text message)]).write

/-- The text of a value, or of the failure that stands in its place. -/
def answer (r : Except Fault Json) : String :=
  match r with
  | .ok j => j.write
  | .error e => failure e.message

/-- The run of the program on the level and under the limits that three texts hold. The first text
that holds none decides. -/
def run (level blocks limits : String) : Except Fault (Except Overflow Report) := do
  let l ← Decoder.ofText Level.ofJson level
  let bs ← Decoder.ofText Block.listOfJson blocks
  let limits ← Decoder.ofText Limits.ofJson limits
  return runBlocks? bs l limits

def runProgramWithLimits (level blocks limits : String) : Except Overflow String :=
  match run level blocks limits with
  | .ok r => r.map fun r => answer (.ok r.toJson)
  | .error e => return answer (.error e)

/-- A run with the limits that hold unless others are given. -/
def runProgram (level blocks : String) : Except Overflow String :=
  runProgramWithLimits level blocks "\x7b\x7d"

def structureBlocks (blocks : String) : String :=
  answer ((Decoder.ofText Block.listOfJson blocks).map fun bs =>
    .list (Node.listToJson (Node.ofBlocks bs)))

def getLevel (id : Nat) : String :=
  match Level.find id with
  | .ok l => l.toJson.write
  | .error e => failure e.message

def newSandbox (rows cols : Nat) : String := (Sandbox.room rows cols).toJson.write

/-- A text that holds no report rates zero. -/
def rateResult (result : String) : Nat :=
  match Decoder.ofText Report.ofJson result with
  | .ok r => r.rating
  | .error _ => 0

def version : String := "0.1.0"

end BlockPuzzle.Exchange
