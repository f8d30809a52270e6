import BlockPuzzle.Game.Session
import BlockPuzzle.Proofs.Results
import Mathlib

/-!
# Editing a program

Whatever is done to the program of a session, the program stays short, its numbers stay within their
bounds, and its blocks can be told apart. An identifier is handed out once, and not again when the
block that had it is gone.

## Main definitions

* `Session.Edit`, `Session.attempt`, `Session.editAll`: what can be done to a program.
* `Session.handedOut`: the identifiers of the blocks that some edits add.
* `Session.Opened`: how a session begins.
* `Session.Change`: the three ways in which an edit changes a session.
* `Session.Sound`: what a session is like, given the identifiers handed out so far.

## Main statements

* `Session.change_edit`: every edit is such a change.
* `Session.Sound.change`, `Session.sound_editAll`: every change, and so every list of edits, keeps a
  session sound.
* `Session.wellFormed_editAll`: the program and its identifiers after any edits.
-/

namespace BlockPuzzle

/-! ## Identifiers -/

namespace BlockIds

theorem name_injective (stem : String) : Function.Injective (name stem) := by
  intro m n h
  have hnumber : toString m = toString n := (String.append_right_inj _).1 h
  exact Nat.repr_injective hnumber

/-- The identifiers behind the next `n`. -/
def skip (ids : BlockIds) (n : Nat) : BlockIds := { ids with last := ids.last + n }

variable (ids : BlockIds) (n : Nat)

theorem take_eq_map : ids.take n = (List.range' (ids.last + 1) n).map (name ids.stem) := by
  induction n generalizing ids with
  | zero => rfl
  | succ n ih => simp [take, next, ih, List.range'_succ]

theorem take_succ : ids.take (n + 1) = ids.take n ++ [(ids.skip n).next.1] := by
  have hlast : ids.last + 1 + n = ids.last + n + 1 := by omega
  simp [take_eq_map, List.range'_1_concat, hlast, skip, next]

theorem nodup_take : (ids.take n).Nodup := by
  have hrange : (List.range' (ids.last + 1) n).Nodup := List.nodup_range'
  rw [take_eq_map]
  exact hrange.map (name_injective ids.stem)

variable {ids n}

theorem mem_take {id : String} :
    id ∈ ids.take n ↔ ∃ k, ids.last < k ∧ k ≤ ids.last + n ∧ id = name ids.stem k := by
  rw [take_eq_map, List.mem_map]
  constructor
  · rintro ⟨k, hk, rfl⟩
    rw [List.mem_range'_1] at hk
    exact ⟨k, by omega, by omega, rfl⟩
  · rintro ⟨k, hlt, hle, rfl⟩
    exact ⟨k, List.mem_range'_1.2 (by omega), rfl⟩

end BlockIds

namespace Session

/-! ## Edits -/

/-- What can be done to the program of a session. -/
inductive Edit where
  | add (k : Kind)
  | remove (index : Nat)
  | move (start target : Nat)
  | setParam (index n : Nat)
  | increase (index : Nat)
  | decrease (index : Nat)
  | clear
  deriving DecidableEq, Repr

/-- The operation that makes an edit, without its result. -/
def attempt : Edit → Operation PUnit
  | .add k => discard (add k)
  | .remove index => discard (remove index)
  | .move start target => move start target
  | .setParam index n => discard (setParam index n)
  | .increase index => discard (increase index)
  | .decrease index => discard (decrease index)
  | .clear => clear

/-- The session that an edit leaves behind, whether it fails or not. -/
def edit (s : Session) (e : Edit) : Session := (s.perform (attempt e)).2

/-- The identifier of the block that an edit adds. -/
def newId? (s : Session) : Edit → Option String
  | .add k => (s.perform (add k)).1.toOption.map Block.id
  | _ => none

/-- The session after some edits, one after the other. -/
def editAll (s : Session) (es : List Edit) : Session := es.foldl edit s

/-- The identifiers of the blocks that some edits add, whatever becomes of the blocks. -/
def handedOut (s : Session) : List Edit → List String
  | [] => []
  | e :: es => (s.newId? e).toList ++ (s.edit e).handedOut es

/-- How a session begins. -/
inductive Opened : Session → Prop
  | new (l : Level) : Opened { level := l }
  | forLevel {id : Nat} {s : Session} (h : Session.forLevel id = .ok s) : Opened s
  | sandbox (g : Grid) : Opened (Session.sandbox g)

/-! ## What an edit does -/

/-- What an edit makes of a session, with the identifiers that it hands out. -/
inductive Change (s : Session) : List String → Session → Prop
  | appended (k : Kind) (hroom : s.isFull = false) :
      Change s [s.ids.next.1]
        { s with blocks := s.blocks ++ [⟨s.ids.next.1, k, k.defaultParam?⟩], ids := s.ids.next.2 }
  /-- Blocks have gone or have moved. -/
  | rearranged {bs : List Block} (h : bs.Subperm s.blocks) : Change s [] { s with blocks := bs }
  /-- A loop has another number. It is too high only if the old one was. -/
  | renumbered {index n : Nat} {b : Block} (hb : s.blocks[index]? = some b)
      (hloop : b.kind.hasParam) (hmin : minParam ≤ n) (hmax : n ≤ max maxParam (shownParam b)) :
      Change s [] (s.store index b n)

section

variable {s t : Session} {b : Block} {index n : Nat}

theorem blockAt_eq_ok : s.blockAt index = .ok b ↔ s.blocks[index]? = some b := by
  unfold blockAt
  split <;> simp_all

theorem loopAt_eq_ok :
    s.loopAt index = .ok b ↔ s.blocks[index]? = some b ∧ b.kind.hasParam := by
  constructor
  · intro h
    obtain ⟨c, hc, h⟩ := exists_of_bind_eq_ok h
    split at h
    · cases h
      exact ⟨blockAt_eq_ok.1 hc, ‹_›⟩
    · cases h
  · rintro ⟨hb, hloop⟩
    rw [loopAt, blockAt_eq_ok.2 hb]
    exact if_pos hloop

theorem map_id_store (hb : s.blocks[index]? = some b) :
    (s.store index b n).blocks.map Block.id = s.blocks.map Block.id := by
  obtain ⟨hlt, rfl⟩ := List.getElem?_eq_some_iff.1 hb
  have hlt' : index < (s.blocks.map Block.id).length := by simpa using hlt
  calc ((s.blocks.set index { s.blocks[index] with param := some n }).map Block.id)
    _ = (s.blocks.map Block.id).set index (s.blocks.map Block.id)[index] := by simp [List.map_set]
    _ = s.blocks.map Block.id := List.set_getElem_self hlt'

theorem perform_add (hroom : s.isFull = false) (k : Kind) :
    s.perform (add k) =
      (.ok ⟨s.ids.next.1, k, k.defaultParam?⟩,
        { s with
          blocks := s.blocks ++ [⟨s.ids.next.1, k, k.defaultParam?⟩]
          ids := s.ids.next.2 }) := by
  simp [add, takeId, hroom, Except.map]

theorem perform_add_of_isFull (hfull : s.isFull) (k : Kind) :
    s.perform (add k) = (.error (.programFull maxBlocks), s) := by
  simp [add, hfull]

theorem change_refl (s : Session) : Change s [] s := .rearranged (.refl _)

theorem change_add (s : Session) (k : Kind) :
    Change s (s.newId? (.add k)).toList (s.perform (add k)).2 := by
  cases hroom : s.isFull with
  | false =>
    rw [newId?, perform_add hroom]
    exact .appended k hroom
  | true =>
    rw [newId?, perform_add_of_isFull hroom]
    exact change_refl s

/-- An operation that begins with a question changes nothing where there is no answer. -/
theorem change_ask {α β : Type} {question : Session → Except SessionError α} {op : α → Operation β}
    (h : ∀ a, question s = .ok a → Change s [] (s.perform (op a)).2) :
    Change s [] (s.perform (ask question >>= op)).2 := by
  rw [perform_bind, perform_ask]
  cases hanswer : question s with
  | ok a => exact h a hanswer
  | error err => exact change_refl s

theorem change_remove (s : Session) (index : Nat) : Change s [] (s.perform (remove index)).2 :=
  change_ask fun _ _ => .rearranged (List.eraseIdx_sublist _ _).subperm

theorem change_move (s : Session) (start target : Nat) :
    Change s [] (s.perform (move start target)).2 := by
  refine change_ask fun b hb => ?_
  obtain ⟨hlt, rfl⟩ := List.getElem?_eq_some_iff.1 (blockAt_eq_ok.1 hb)
  have hinsert := List.perm_insertIdx s.blocks[start] (s.blocks.eraseIdx start)
    (Nat.min_le_right target _)
  exact .rearranged (hinsert.trans (List.getElem_cons_eraseIdx_perm hlt)).subperm

/-- A new number within the bounds, or one below the old number, is one of the changes. -/
theorem change_adjust {change : Nat → Option Nat}
    (h : ∀ old n, change old = some n → minParam ≤ n ∧ n ≤ max maxParam old) (s : Session)
    (index : Nat) : Change s [] (s.perform (adjust index change)).2 := by
  refine change_ask fun b hb => ?_
  obtain ⟨hat, hloop⟩ := loopAt_eq_ok.1 hb
  cases hn : change (shownParam b) with
  | none => exact change_refl s
  | some n =>
    obtain ⟨hmin, hmax⟩ := h _ n hn
    exact .renumbered hat hloop hmin hmax

theorem change_setParam (s : Session) (index n : Nat) :
    Change s [] (s.perform (setParam index n)).2 := by
  refine change_adjust ?_ s index
  rintro old m ⟨⟩
  have hbounds : minParam ≤ maxParam := by decide
  omega

theorem change_increase (s : Session) (index : Nat) :
    Change s [] (s.perform (increase index)).2 := by
  refine change_adjust (fun old n hn => ?_) s index
  obtain ⟨hlt, ⟨⟩⟩ := Option.ite_none_right_eq_some.1 hn
  have hmin : minParam ≤ 1 := by decide
  omega

theorem change_decrease (s : Session) (index : Nat) :
    Change s [] (s.perform (decrease index)).2 := by
  refine change_adjust (fun old n hn => ?_) s index
  obtain ⟨hlt, ⟨⟩⟩ := Option.ite_none_right_eq_some.1 hn
  omega

/-- It does not matter for the session what becomes of the result. -/
theorem Change.discard {α : Type} {op : Operation α} {new : List String}
    (h : Change s new (s.perform op).2) : Change s new (s.perform (discard op)).2 := by
  rwa [perform_discard]

theorem change_edit (s : Session) (e : Edit) : Change s (s.newId? e).toList (s.edit e) := by
  cases e with
  | add k => exact (change_add s k).discard
  | remove index => exact (change_remove s index).discard
  | move start target => exact change_move s start target
  | setParam index n => exact (change_setParam s index n).discard
  | increase index => exact (change_increase s index).discard
  | decrease index => exact (change_decrease s index).discard
  | clear => exact .rearranged List.nil_subperm

end

/-! ## What every change keeps -/

/-- A block as the editor makes it: loops, and no other blocks, have a number, and it is within its
bounds. -/
structure Proper (b : Block) : Prop where
  isSome_param : b.param.isSome = b.kind.hasParam
  bounds : ∀ n ∈ b.param, minParam ≤ n ∧ n ≤ maxParam

theorem proper_new (id : String) (k : Kind) : Proper ⟨id, k, k.defaultParam?⟩ := by
  cases k <;> constructor <;> simp [Kind.defaultParam?, Kind.hasParam, Kind.defaultCount, minParam,
    maxParam]

theorem Proper.shownParam_le {b : Block} (hb : Proper b) : shownParam b ≤ maxParam := by
  unfold shownParam
  split
  · exact (hb.bounds _ ‹_›).2
  · decide

theorem Proper.renumbered {b : Block} {n : Nat} (hb : Proper b) (hloop : b.kind.hasParam)
    (hmin : minParam ≤ n) (hmax : n ≤ max maxParam (shownParam b)) :
    Proper { b with param := some n } := by
  have hshown := hb.shownParam_le
  refine ⟨hloop.symm, ?_⟩
  rintro m ⟨⟩
  omega

/-- A session that began with the identifiers `start` and has handed out those in `given`, which are
the next ones behind `start`. The blocks that are left have some of them, in any order. -/
structure Sound (start : BlockIds) (given : List String) (s : Session) : Prop where
  length_le : s.blocks.length ≤ maxBlocks
  proper : ∀ b ∈ s.blocks, Proper b
  ids_eq : s.ids = start.skip given.length
  given_eq : given = start.take given.length
  held : (s.blocks.map Block.id).Subperm given

variable {start : BlockIds} {given new : List String} {s t : Session}

theorem sound_opened (h : Opened s) : Sound s.ids [] s := by
  have hblocks : s.blocks = [] := by
    cases h with
    | new l => rfl
    | forLevel h =>
      obtain ⟨l, -, h⟩ := exists_of_bind_eq_ok h
      cases h
      rfl
    | sandbox g => rfl
  exact ⟨by simp [hblocks], by simp [hblocks], rfl, rfl, by simp [hblocks]⟩

theorem Sound.change (hs : Sound start given s) (h : Change s new t) :
    Sound start (given ++ new) t := by
  cases h with
  | appended k hroom =>
    have hnext : s.ids.next.1 = (start.skip given.length).next.1 := by rw [hs.ids_eq]
    refine ⟨?_, ?_, ?_, ?_, ?_⟩
    · simp [isFull] at hroom ⊢
      omega
    · simp only [List.forall_mem_append, List.forall_mem_singleton]
      exact ⟨hs.proper, proper_new _ k⟩
    · rw [hs.ids_eq]
      simp [BlockIds.skip, BlockIds.next, Nat.add_assoc]
    · rw [List.length_append, List.length_singleton, BlockIds.take_succ, ← hs.given_eq, hnext]
    · rw [List.map_append]
      exact (List.subperm_append_right _).2 hs.held
  | rearranged hbs =>
    obtain ⟨l, hperm, hsub⟩ := hbs
    rw [List.append_nil]
    refine ⟨?_, ?_, hs.ids_eq, hs.given_eq, ?_⟩
    · exact (List.Subperm.length_le ⟨l, hperm, hsub⟩).trans hs.length_le
    · intro b hb
      exact hs.proper b (hsub.subset (hperm.mem_iff.2 hb))
    · exact .trans ⟨_, hperm.map _, hsub.map _⟩ hs.held
  | renumbered hb hloop hmin hmax =>
    rw [List.append_nil]
    refine ⟨?_, ?_, hs.ids_eq, hs.given_eq, ?_⟩
    · simpa [store] using hs.length_le
    · intro c hc
      rcases List.mem_or_eq_of_mem_set hc with hc | rfl
      · exact hs.proper c hc
      · exact (hs.proper _ (List.mem_of_getElem? hb)).renumbered hloop hmin hmax
    · rw [map_id_store hb]
      exact hs.held

theorem sound_editAll (hs : Sound start given s) (es : List Edit) :
    Sound start (given ++ s.handedOut es) (s.editAll es) := by
  induction es generalizing s given with
  | nil => simpa [handedOut, editAll] using hs
  | cons e es ih =>
    have hedit := hs.change (change_edit s e)
    simpa [handedOut, editAll] using ih hedit

theorem Sound.nodup_given (hs : Sound start given s) : given.Nodup := by
  rw [hs.given_eq]
  exact BlockIds.nodup_take _ _

theorem Sound.nodup_ids (hs : Sound start given s) : (s.blocks.map Block.id).Nodup := by
  obtain ⟨l, hperm, hsub⟩ := hs.held
  exact hperm.nodup_iff.1 (hsub.nodup hs.nodup_given)

theorem Sound.exists_id_eq (hs : Sound start given s) {b : Block} (hb : b ∈ s.blocks) :
    ∃ n, start.last < n ∧ n ≤ s.ids.last ∧ b.id = BlockIds.name start.stem n := by
  have hgiven : b.id ∈ given := hs.held.subset (List.mem_map_of_mem hb)
  rw [hs.given_eq, BlockIds.mem_take] at hgiven
  rw [hs.ids_eq]
  exact hgiven

/-- Whatever is done in a session, it has at most twenty blocks. Loops, and no other blocks, have a
number, and it is between one and nine. The identifier of every block is made of a number that came
up since the session began, and no two blocks share it. No identifier is ever handed out again, and
every number that came up was for one that was handed out. -/
theorem wellFormed_editAll (h : Opened s) (es : List Edit) :
    let t := s.editAll es
    t.blocks.length ≤ 20 ∧
      (∀ b ∈ t.blocks, (b.param.isSome ↔ b.kind = .loop) ∧ ∀ n ∈ b.param, 1 ≤ n ∧ n ≤ 9) ∧
      (∀ b ∈ t.blocks, b.id ∈ s.handedOut es ∧
        ∃ n, s.ids.last < n ∧ n ≤ t.ids.last ∧ b.id = BlockIds.name s.ids.stem n) ∧
      (t.blocks.map Block.id).Nodup ∧
      (s.handedOut es).Nodup ∧
      t.ids.last = s.ids.last + (s.handedOut es).length := by
  intro t
  have ht : Sound s.ids (s.handedOut es) t := sound_editAll (sound_opened h) es
  refine ⟨ht.length_le, ?_, ?_, ht.nodup_ids, ht.nodup_given, ?_⟩
  · intro b hb
    have hproper := ht.proper b hb
    have hloop : b.kind.hasParam ↔ b.kind = .loop := by cases b.kind <;> simp [Kind.hasParam]
    exact ⟨by rw [hproper.isSome_param, hloop], hproper.bounds⟩
  · intro b hb
    exact ⟨ht.held.subset (List.mem_map_of_mem hb), ht.exists_id_eq hb⟩
  · rw [ht.ids_eq]
    rfl

/-- A session in a small room. -/
def inSmallRoom : Session := sandbox (Sandbox.room 2 3)

/-- The program is begun anew; a loop is given too high a number and put at the end; the block
before it goes. Some of the edits fail. -/
def Edit.begunAnew : List Edit :=
  [.add (.move .left), .clear, .add .loop, .add .endLoop, .setParam 0 12, .increase 0,
    .setParam 1 3, .move 0 7, .remove 0, .remove 5, .add (.move .up)]

/-- Numbers that went with their blocks do not come up again. -/
theorem wellFormed_editAll_begunAnew :
    Opened inSmallRoom ∧
      (inSmallRoom.editAll Edit.begunAnew).blocks =
        [⟨"cblock_1002", .loop, some 9⟩, ⟨"cblock_1004", .move .up, none⟩] ∧
      inSmallRoom.handedOut Edit.begunAnew =
        ["cblock_1001", "cblock_1002", "cblock_1003", "cblock_1004"] ∧
      (inSmallRoom.editAll Edit.begunAnew).ids.last = 1004 := by
  have hs : Opened inSmallRoom := .sandbox _
  have hout : inSmallRoom.handedOut Edit.begunAnew =
      ["cblock_1001", "cblock_1002", "cblock_1003", "cblock_1004"] := by decide +kernel
  obtain ⟨-, -, -, -, -, hlast⟩ := wellFormed_editAll hs Edit.begunAnew
  rw [hout] at hlast
  exact ⟨hs, by decide +kernel, hout, hlast⟩

end Session

end BlockPuzzle
