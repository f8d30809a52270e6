import BlockPuzzle.Level.Lookup
import BlockPuzzle.Level.Sandbox
import BlockPuzzle.Program.Indent
import BlockPuzzle.Run.Checked

/-!
# Editing sessions

A session holds the level that is open and the program that the player builds for it. An operation
changes the session step by step and may end with an error, and then the session goes on as the
steps before have left it.

## Main definitions

* `BlockIds`: where the identifiers of new blocks come from.
* `Session`: the level, the blocks, the identifiers and the limits of its runs.
* `Session.Operation`, `Session.perform`: what is done to a session, and what comes of it.
* `Session.add`, `Session.remove`, `Session.move`, `Session.setParam`: the operations.
-/

namespace BlockPuzzle

/-- The identifiers that begin with `stem`, numbered on from `last`. -/
structure BlockIds where
  stem : String := "block"
  last : Nat := 0
  deriving DecidableEq, Repr

namespace BlockIds

def name (stem : String) (n : Nat) : String := stem ++ "_" ++ toString n

/-- The next identifier, and those that follow it. -/
def next (ids : BlockIds) : String × BlockIds :=
  (name ids.stem (ids.last + 1), { ids with last := ids.last + 1 })

/-- The next `n` identifiers. -/
def take (ids : BlockIds) : Nat → List String
  | 0 => []
  | n + 1 => ids.next.1 :: ids.next.2.take n

end BlockIds

inductive SessionError where
  | programFull (max : Nat)
  | indexOutOfRange (index length : Nat)
  /-- Only loops have a number. -/
  | noParam (kind : Kind)
  deriving DecidableEq, Repr

def SessionError.message : SessionError → String
  | .programFull max => s!"program is full ({max} blocks)"
  | .indexOutOfRange index length => s!"block index {index} out of range for {length} blocks"
  | .noParam kind => "'" ++ kind.name ++ "' blocks take no parameter"

structure Session where
  level : Level
  blocks : List Block := []
  ids : BlockIds := {}
  limits : Limits := {}
  deriving DecidableEq, Repr

namespace Session

/-- An operation has a result or an error, and it changes the session in either case. -/
abbrev Operation (α : Type) := ExceptT SessionError (StateM Session) α

/-- What comes of an operation, and the session that it leaves behind. -/
def perform {α : Type} (s : Session) (op : Operation α) : Except SessionError α × Session :=
  op.run.run s

section

variable {α β : Type} (s : Session)

@[simp] theorem perform_pure (a : α) : s.perform (pure a) = (.ok a, s) := rfl

@[simp] theorem perform_throw (err : SessionError) :
    s.perform (throw err : Operation α) = (.error err, s) := rfl

@[simp] theorem perform_get : s.perform get = (.ok s, s) := rfl

@[simp] theorem perform_modify (f : Session → Session) : s.perform (modify f) = (.ok ⟨⟩, f s) := rfl

@[simp] theorem perform_modifyGet (f : Session → α × Session) :
    s.perform (modifyGet f) = (.ok (f s).1, (f s).2) := rfl

/-- After an error nothing more is done, and what was done before stays. -/
@[simp] theorem perform_bind (op : Operation α) (f : α → Operation β) : s.perform (op >>= f) =
    match s.perform op with
    | (.ok a, t) => t.perform (f a)
    | (.error err, t) => (.error err, t) := by
  unfold perform
  rw [ExceptT.run_bind, StateT.run_bind]
  rcases op.run.run s with ⟨_ | a, t⟩ <;> rfl

@[simp] theorem perform_map (f : α → β) (op : Operation α) :
    s.perform (f <$> op) = ((s.perform op).1.map f, (s.perform op).2) := by
  rw [map_eq_pure_bind, perform_bind]
  rcases s.perform op with ⟨_ | a, t⟩ <;> rfl

@[simp] theorem perform_discard (op : Operation α) :
    s.perform (discard op) = ((s.perform op).1.map fun _ => ⟨⟩, (s.perform op).2) :=
  s.perform_map _ op

end

/-- The most blocks that a program may hold. -/
def maxBlocks : Nat := 20

def minParam : Nat := 1

def maxParam : Nat := 9

/-- A session on a level of the game. -/
def forLevel (id : Nat) : Except LevelError Session := do
  return { level := ← Level.find id }

/-- A session on a painted grid. -/
def sandbox (g : Grid) : Session :=
  { level := Sandbox.level g, ids := { stem := "cblock", last := 1000 } }

def isFull (s : Session) : Bool := maxBlocks ≤ s.blocks.length

/-! ## Questions -/

/-- The block at `index`. -/
def blockAt (s : Session) (index : Nat) : Except SessionError Block :=
  match s.blocks[index]? with
  | some b => .ok b
  | none => .error (.indexOutOfRange index s.blocks.length)

/-- The block at `index`, which has to have a number. -/
def loopAt (s : Session) (index : Nat) : Except SessionError Block := do
  let b ← s.blockAt index
  if b.kind.hasParam then return b else throw (.noParam b.kind)

/-- The number that an editor shows: one if it is missing or zero. -/
def shownParam (b : Block) : Nat :=
  match b.param with
  | some (n + 1) => n + 1
  | _ => minParam

def indents (s : Session) : List Nat := Block.indents s.blocks

/-- The indentation of the block at `index`, which depends only on the blocks up to it. -/
def indent (s : Session) (index : Nat) : Except SessionError Nat := do
  let _ ← s.blockAt index
  return (Block.indents (s.blocks.take (index + 1))).getD index 0

def run (s : Session) : Report := runBlocks s.blocks s.level s.limits

def run? (s : Session) : Except Overflow Report := runBlocks? s.blocks s.level s.limits

/-! ## Operations -/

/-- The answer to a question, if it has one. -/
def ask {α : Type} (question : Session → Except SessionError α) : Operation α := do
  ofExcept (question (← get))

@[simp] theorem perform_ask {α : Type} (s : Session) (question : Session → Except SessionError α) :
    s.perform (ask question) = (question s, s) := by
  cases h : question s <;> simp [ask, ofExcept, h]

/-- Takes the next identifier. -/
def takeId : Operation String := modifyGet fun s => (s.ids.next.1, { s with ids := s.ids.next.2 })

/-- Adds a block at the end. -/
def add (k : Kind) : Operation Block := do
  if (← get).isFull then throw (.programFull maxBlocks)
  let b : Block := ⟨← takeId, k, k.defaultParam?⟩
  modify fun s => { s with blocks := s.blocks ++ [b] }
  return b

def remove (index : Nat) : Operation Block := do
  let b ← ask (·.blockAt index)
  modify fun s => { s with blocks := s.blocks.eraseIdx index }
  return b

/-- Moves the block at `start` to the position `target`, or to the end if that is beyond it. -/
def move (start target : Nat) : Operation PUnit := do
  let b ← ask (·.blockAt start)
  modify fun s => { s with blocks := s.blocks.eraseIdx start }
  modify fun s => { s with blocks := s.blocks.insertIdx (min target s.blocks.length) b }

/-- The session with the number `n` for the block `b` at `index`. -/
def store (s : Session) (index : Nat) (b : Block) (n : Nat) : Session :=
  { s with blocks := s.blocks.set index { b with param := some n } }

/-- Stores a new number for the block `b` at `index`, if there is one, and shows the number that the
block has then. -/
def renumber (index : Nat) (b : Block) : Option Nat → Operation Nat
  | some n => do
    modify fun s => s.store index b n
    return n
  | none => return shownParam b

/-- Gives the loop at `index` the number that takes the place of the one that is shown. -/
def adjust (index : Nat) (change : Nat → Option Nat) : Operation Nat := do
  let b ← ask (·.loopAt index)
  renumber index b (change (shownParam b))

def raised (n : Nat) : Option Nat := if n < maxParam then some (n + 1) else none

def lowered (n : Nat) : Option Nat := if minParam < n then some (n - 1) else none

/-- Sets the number of the block at `index`, within its bounds. -/
def setParam (index n : Nat) : Operation Nat :=
  adjust index fun _ => some (max minParam (min n maxParam))

/-- Raises the number of the block at `index` by one, as far as it goes. -/
def increase (index : Nat) : Operation Nat := adjust index raised

/-- Lowers the number of the block at `index` by one, as far as it goes. -/
def decrease (index : Nat) : Operation Nat := adjust index lowered

def clear : Operation PUnit := modify fun s => { s with blocks := [] }

end Session

end BlockPuzzle
