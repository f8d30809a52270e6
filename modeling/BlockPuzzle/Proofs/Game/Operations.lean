import BlockPuzzle.Proofs.Game.Editing

/-!
# The operations of an editing session

Every operation fails for its own reasons only, and then it leaves the session behind as it was.
Where it does not fail it changes what it is for and nothing else.

## Main definitions

* `Session.Reachable`: what a session can come to.
* `Session.FailsOutside`, `Session.FailsOutsideLoops`: when an operation on a block, or on the
  number of a loop, fails.
* `Session.Atomic`: an operation that fails leaves the session as it was.
* `Session.Appends`, `Session.Removes`, `Session.Moves`, `Session.Renumbers`: what an operation
  makes of a session.
* `Session.Exact`: all operations do what they are for.

## Main statements

* `Session.Reachable.exists_sound`: what is reachable is sound.
* `Session.Reachable.exact`: in every session that is reachable all operations do what they are for.
-/

namespace BlockPuzzle

namespace Session

/-- What a session can come to: it begins, its limits are replaced, and its program is edited. -/
inductive Reachable : Session → Prop
  | opened {s : Session} (h : Opened s) : Reachable s
  | limited {s : Session} (h : Reachable s) (limits : Limits) : Reachable { s with limits }
  | edited {s : Session} (h : Reachable s) (e : Edit) : Reachable (s.edit e)

variable {α : Type} {s t : Session} {b : Block} {start index target n : Nat} {k : Kind}

theorem Reachable.exists_sound (h : Reachable s) : ∃ start given, Sound start given s := by
  induction h with
  | opened h => exact ⟨_, _, sound_opened h⟩
  | limited _ limits ih =>
    obtain ⟨start, given, hs⟩ := ih
    exact ⟨start, given, hs.length_le, hs.proper, hs.ids_eq, hs.given_eq, hs.held⟩
  | edited _ e ih =>
    obtain ⟨start, given, hs⟩ := ih
    exact ⟨start, _, hs.change (change_edit _ e)⟩

theorem Reachable.editAll (h : Reachable s) (es : List Edit) : Reachable (s.editAll es) := by
  induction es generalizing s with
  | nil => exact h
  | cons e es ih => exact ih (h.edited e)

/-! ## Failing -/

/-- Where the operation fails, the session that it leaves behind is the old one. -/
def Atomic (s : Session) (op : Operation α) : Prop :=
  ∀ err, (s.perform op).1 = .error err → (s.perform op).2 = s

/-- The operation fails for an index outside the program, with that error, and otherwise not at
all. -/
def FailsOutside (s : Session) (index : Nat) (x : Except SessionError α) : Prop :=
  ∀ err, x = .error err ↔
    s.blocks.length ≤ index ∧ err = .indexOutOfRange index s.blocks.length

/-- The operation fails for an index outside the program, and for a block that is no loop, with an
error for each, and otherwise not at all. -/
def FailsOutsideLoops (s : Session) (index : Nat) (x : Except SessionError α) : Prop :=
  ∀ err, x = .error err ↔
    (s.blocks.length ≤ index ∧ err = .indexOutOfRange index s.blocks.length) ∨
    ∃ b, s.blocks[index]? = some b ∧ b.kind ≠ .loop ∧ err = .noParam b.kind

theorem failsOutside_blockAt (s : Session) (index : Nat) :
    s.FailsOutside index (s.blockAt index) := by
  intro err
  unfold blockAt
  split
  · obtain ⟨hlt, -⟩ := List.getElem?_eq_some_iff.1 ‹_›
    simp [hlt]
  · have hle := List.getElem?_eq_none_iff.1 ‹_›
    simp [hle, eq_comm]

theorem hasParam_iff {k : Kind} : k.hasParam ↔ k = .loop := by cases k <;> simp [Kind.hasParam]

theorem failsOutsideLoops_loopAt (s : Session) (index : Nat) :
    s.FailsOutsideLoops index (s.loopAt index) := by
  intro err
  cases hb : s.blocks[index]? with
  | none =>
    have hle := List.getElem?_eq_none_iff.1 hb
    have hloop : s.loopAt index = .error (.indexOutOfRange index s.blocks.length) := by
      rw [loopAt, blockAt, hb]
      rfl
    simp [hloop, hle, eq_comm]
  | some b =>
    obtain ⟨hlt, -⟩ := List.getElem?_eq_some_iff.1 hb
    have hin : ¬ s.blocks.length ≤ index := by omega
    by_cases hkind : b.kind = .loop
    · have hloop : s.loopAt index = .ok b := loopAt_eq_ok.2 ⟨hb, hasParam_iff.2 hkind⟩
      simp [hloop, hin, hkind]
    · have hloop : s.loopAt index = .error (.noParam b.kind) := by
        rw [loopAt, blockAt, hb]
        exact if_neg (mt hasParam_iff.1 hkind)
      simp [hloop, hin, hkind, @eq_comm _ err]

section

variable {β : Type} {question : Session → Except SessionError α} {op : α → Operation β} {y : β}

theorem exists_of_perform_ask (h : s.perform (ask question >>= op) = (.ok y, t)) :
    ∃ a, question s = .ok a ∧ s.perform (op a) = (.ok y, t) := by
  rw [perform_bind, perform_ask] at h
  cases hanswer : question s with
  | error err =>
    rw [hanswer] at h
    cases h
  | ok a =>
    rw [hanswer] at h
    exact ⟨a, rfl, h⟩

variable (hop : ∀ a, ∃ y t, s.perform (op a) = (.ok y, t))
include hop

/-- Where only the question may fail, the operation fails as it does. -/
theorem fst_perform_ask_eq_error {err : SessionError} :
    (s.perform (ask question >>= op)).1 = .error err ↔ question s = .error err := by
  rw [perform_bind, perform_ask]
  cases question s with
  | error _ => simp
  | ok a =>
    obtain ⟨y, t, ha⟩ := hop a
    simp [ha]

theorem FailsOutside.perform (h : s.FailsOutside index (question s)) :
    s.FailsOutside index (s.perform (ask question >>= op)).1 :=
  fun err => (fst_perform_ask_eq_error hop).trans (h err)

theorem FailsOutsideLoops.perform (h : s.FailsOutsideLoops index (question s)) :
    s.FailsOutsideLoops index (s.perform (ask question >>= op)).1 :=
  fun err => (fst_perform_ask_eq_error hop).trans (h err)

/-- The question comes first, and it changes nothing. -/
theorem atomic_ask : s.Atomic (ask question >>= op) := by
  intro err herror
  have hquestion := (fst_perform_ask_eq_error hop).1 herror
  rw [perform_bind, perform_ask, hquestion]

end

theorem fst_perform_add_eq_error (hs : s.blocks.length ≤ maxBlocks) {err : SessionError} :
    (s.perform (add k)).1 = .error err ↔ s.blocks.length = 20 ∧ err = .programFull 20 := by
  have hfull : s.isFull ↔ s.blocks.length = 20 := by
    simp only [isFull, decide_eq_true_eq]
    simp only [maxBlocks] at *
    omega
  cases hroom : s.isFull with
  | false =>
    rw [perform_add hroom]
    simp [← hfull, hroom]
  | true =>
    rw [perform_add_of_isFull hroom]
    simp [hfull.1 hroom, maxBlocks, eq_comm]

theorem exists_perform_renumber (index : Nat) (b : Block) (n? : Option Nat) :
    ∃ n t, s.perform (renumber index b n?) = (.ok n, t) := by
  cases n? <;> exact ⟨_, _, rfl⟩

theorem failsOutside_remove (s : Session) (index : Nat) :
    s.FailsOutside index (s.perform (remove index)).1 :=
  FailsOutside.perform (fun _ => ⟨_, _, rfl⟩) (failsOutside_blockAt s index)

theorem failsOutside_move (s : Session) (start target : Nat) :
    s.FailsOutside start (s.perform (move start target)).1 :=
  FailsOutside.perform (fun _ => ⟨_, _, rfl⟩) (failsOutside_blockAt s start)

theorem failsOutside_indent (s : Session) (index : Nat) : s.FailsOutside index (s.indent index) :=
  fun err => (error_bind_iff fun _ => ⟨_, rfl⟩).trans (failsOutside_blockAt s index err)

theorem failsOutsideLoops_adjust (s : Session) (index : Nat) (change : Nat → Option Nat) :
    s.FailsOutsideLoops index (s.perform (adjust index change)).1 :=
  FailsOutsideLoops.perform (fun b => exists_perform_renumber index b _)
    (failsOutsideLoops_loopAt s index)

/-! ## What is left behind -/

theorem Atomic.discard {op : Operation α} (h : s.Atomic op) : s.Atomic (discard op) := by
  intro err herror
  rw [perform_discard] at herror ⊢
  cases hresult : (s.perform op).1 with
  | error err' => exact h err' hresult
  | ok a =>
    rw [hresult] at herror
    cases herror

theorem atomic_add (s : Session) (k : Kind) : s.Atomic (add k) := by
  intro err herror
  cases hroom : s.isFull with
  | false =>
    rw [perform_add hroom] at herror
    cases herror
  | true => rw [perform_add_of_isFull hroom]

theorem atomic_adjust (s : Session) (index : Nat) (change : Nat → Option Nat) :
    s.Atomic (adjust index change) := atomic_ask fun b => exists_perform_renumber index b _

theorem atomic_attempt (s : Session) (e : Edit) : s.Atomic (attempt e) := by
  cases e with
  | add k => exact (atomic_add s k).discard
  | remove index => exact Atomic.discard (atomic_ask fun _ => ⟨_, _, rfl⟩)
  | move start target => exact atomic_ask fun _ => ⟨_, _, rfl⟩
  | setParam index n => exact (atomic_adjust s index _).discard
  | increase index => exact (atomic_adjust s index _).discard
  | decrease index => exact (atomic_adjust s index _).discard
  | clear => exact nofun

/-! ## What changes -/

/-- `b` has been put at the end, with the next identifier and the number that its kind begins
with. -/
def Appends (s : Session) (k : Kind) (b : Block) (t : Session) : Prop :=
  b = ⟨BlockIds.name s.ids.stem (s.ids.last + 1), k, k.defaultParam?⟩ ∧
    t = { s with blocks := s.blocks ++ [b], ids := { s.ids with last := s.ids.last + 1 } }

/-- `b` stood at `index` and is gone. -/
def Removes (s : Session) (index : Nat) (b : Block) (t : Session) : Prop :=
  ∃ before after, s.blocks = before ++ b :: after ∧ before.length = index ∧
    t = { s with blocks := before ++ after }

/-- The block at `start` has come to `place`, the others follow each other as they did, and the way
back leads to the old session. -/
structure Moves (s : Session) (start place : Nat) (t : Session) : Prop where
  frame : t = { s with blocks := t.blocks }
  perm : t.blocks.Perm s.blocks
  arrived : ∃ b, s.blocks[start]? = some b ∧ t.blocks[place]? = some b
  others : t.blocks.eraseIdx place = s.blocks.eraseIdx start
  back : t.perform (move place start) = (.ok ⟨⟩, s)

/-- The loop at `index` had a number `old`, and now it has the number `n`, which is `f old`. -/
def Renumbers (s : Session) (index : Nat) (f : Nat → Nat) (n : Nat) (t : Session) : Prop :=
  ∃ b old, s.blocks[index]? = some b ∧ b.kind = .loop ∧ b.param = some old ∧ n = f old ∧
    t = { s with blocks := s.blocks.set index { b with param := some n } }

theorem appends_add (h : s.perform (add k) = (.ok b, t)) : s.Appends k b t := by
  cases hroom : s.isFull with
  | true =>
    rw [perform_add_of_isFull hroom] at h
    cases h
  | false =>
    rw [perform_add hroom] at h
    cases h
    exact ⟨rfl, rfl⟩

theorem removes_remove (h : s.perform (remove index) = (.ok b, t)) : s.Removes index b t := by
  obtain ⟨c, hc, h⟩ := exists_of_perform_ask h
  cases h
  obtain ⟨hlt, rfl⟩ := List.getElem?_eq_some_iff.1 (blockAt_eq_ok.1 hc)
  refine ⟨s.blocks.take index, s.blocks.drop (index + 1), ?_, ?_, ?_⟩
  · rw [List.getElem_cons_drop, List.take_append_drop]
  · exact List.length_take_of_le (Nat.le_of_lt hlt)
  · rw [← List.eraseIdx_eq_take_drop_succ]

theorem perform_move (hlt : start < s.blocks.length) (target : Nat) :
    s.perform (move start target) =
      (.ok ⟨⟩, { s with
        blocks := (s.blocks.eraseIdx start).insertIdx (min target (s.blocks.length - 1))
          s.blocks[start] }) := by
  have hb : s.blockAt start = .ok s.blocks[start] :=
    blockAt_eq_ok.2 (List.getElem?_eq_getElem hlt)
  rw [move, perform_bind, perform_ask, hb]
  simp only [perform_bind, perform_modify, List.length_eraseIdx_of_lt hlt]

theorem moves_move (h : s.perform (move start target) = (.ok ⟨⟩, t)) :
    s.Moves start (min target (s.blocks.length - 1)) t := by
  obtain ⟨b, hb, -⟩ := exists_of_perform_ask h
  obtain ⟨hlt, -⟩ := List.getElem?_eq_some_iff.1 (blockAt_eq_ok.1 hb)
  rw [perform_move hlt] at h
  cases h
  have hlength : (s.blocks.eraseIdx start).length = s.blocks.length - 1 :=
    List.length_eraseIdx_of_lt hlt
  generalize hplace : min target (s.blocks.length - 1) = place
  have hle : place ≤ (s.blocks.eraseIdx start).length := by omega
  have hperm : ((s.blocks.eraseIdx start).insertIdx place s.blocks[start]).Perm s.blocks :=
    (List.perm_insertIdx _ _ hle).trans (List.getElem_cons_eraseIdx_perm hlt)
  have harrived : ((s.blocks.eraseIdx start).insertIdx place s.blocks[start])[place]? =
      some s.blocks[start] := by rw [List.getElem?_insertIdx_self, if_pos hle]
  refine ⟨rfl, hperm, ⟨_, List.getElem?_eq_getElem hlt, harrived⟩,
    List.eraseIdx_insertIdx_self _, ?_⟩
  obtain ⟨hplace', hsame⟩ := List.getElem?_eq_some_iff.1 harrived
  have hback : min start (s.blocks.length - 1) = start := by omega
  rw [perform_move hplace']
  simp only [hsame, hperm.length_eq, List.eraseIdx_insertIdx_self, hback,
    List.insertIdx_eraseIdx_getElem hlt]

theorem store_self (hb : s.blocks[index]? = some b) (hn : b.param = some n) :
    s.store index b n = s := by
  obtain ⟨hlt, rfl⟩ := List.getElem?_eq_some_iff.1 hb
  rw [store, ← hn, List.set_getElem_self hlt]

section

variable (hproper : ∀ b ∈ s.blocks, Proper b)
include hproper

/-- The number of a loop in a program is the one that is shown. -/
theorem exists_param_of_loopAt (h : s.loopAt index = .ok b) :
    ∃ old, b.param = some old ∧ shownParam b = old ∧ minParam ≤ old ∧ old ≤ maxParam := by
  obtain ⟨hat, hloop⟩ := loopAt_eq_ok.1 h
  have hb := hproper b (List.mem_of_getElem? hat)
  obtain ⟨old, hold⟩ := Option.isSome_iff_exists.1 (hb.isSome_param.trans hloop)
  obtain ⟨hmin, hmax⟩ := hb.bounds old hold
  refine ⟨old, hold, ?_, hmin, hmax⟩
  cases old with
  | zero => cases hmin
  | succ n => simp [shownParam, hold]

/-- Where no number takes the place of the old one nothing is stored, which is the same as storing
the old one again. -/
theorem renumbers_adjust {change : Nat → Option Nat} {f : Nat → Nat}
    (hf : ∀ old, minParam ≤ old → old ≤ maxParam → (change old).getD old = f old)
    (h : s.perform (adjust index change) = (.ok n, t)) : s.Renumbers index f n t := by
  obtain ⟨b, hb, h⟩ := exists_of_perform_ask h
  obtain ⟨old, hold, hshown, hmin, hmax⟩ := exists_param_of_loopAt hproper hb
  obtain ⟨hat, hloop⟩ := loopAt_eq_ok.1 hb
  have hnew := hf old hmin hmax
  have hstays := store_self hat hold
  rw [hshown] at h
  refine ⟨b, old, hat, hasParam_iff.1 hloop, hold, ?_⟩
  cases hchange : change old with
  | some m =>
    rw [hchange] at h hnew
    cases h
    exact ⟨hnew, rfl⟩
  | none =>
    rw [hchange, renumber, hshown] at h
    rw [hchange] at hnew
    cases h
    exact ⟨hnew, hstays.symm⟩

theorem renumbers_setParam {m : Nat} (h : s.perform (setParam index m) = (.ok n, t)) :
    s.Renumbers index (fun _ => max 1 (min m 9)) n t :=
  renumbers_adjust hproper (fun _ _ _ => rfl) h

theorem renumbers_increase (h : s.perform (increase index) = (.ok n, t)) :
    s.Renumbers index (fun old => min (old + 1) 9) n t := by
  refine renumbers_adjust hproper (fun old _ hmax => ?_) h
  by_cases hlt : old < maxParam
  · rw [raised, if_pos hlt]
    exact (Nat.min_eq_left hlt).symm
  · rw [raised, if_neg hlt]
    simp only [maxParam, Option.getD_none] at *
    omega

theorem renumbers_decrease (h : s.perform (decrease index) = (.ok n, t)) :
    s.Renumbers index (fun old => max (old - 1) 1) n t := by
  refine renumbers_adjust hproper (fun old hmin _ => ?_) h
  by_cases hlt : minParam < old
  · rw [lowered, if_pos hlt]
    exact (Nat.max_eq_left (Nat.le_sub_one_of_lt hlt)).symm
  · rw [lowered, if_neg hlt]
    simp only [minParam, Option.getD_none] at *
    omega

end

/-! ## All operations -/

/-- The operations fail for their reasons only and leave the session as it was then, and where they
do not fail they do what they are for. -/
structure Exact (s : Session) : Prop where
  add_fails : ∀ k err,
    (s.perform (add k)).1 = .error err ↔ s.blocks.length = 20 ∧ err = .programFull 20
  add : ∀ k b t, s.perform (Session.add k) = (.ok b, t) → s.Appends k b t
  remove_fails : ∀ index, s.FailsOutside index (s.perform (remove index)).1
  remove : ∀ index b t, s.perform (Session.remove index) = (.ok b, t) → s.Removes index b t
  move_fails : ∀ start target, s.FailsOutside start (s.perform (move start target)).1
  move : ∀ start target t, s.perform (Session.move start target) = (.ok ⟨⟩, t) →
    s.Moves start (min target (s.blocks.length - 1)) t
  indent_fails : ∀ index, s.FailsOutside index (s.indent index)
  setParam_fails : ∀ index m, s.FailsOutsideLoops index (s.perform (setParam index m)).1
  setParam : ∀ index m n t, s.perform (setParam index m) = (.ok n, t) →
    s.Renumbers index (fun _ => max 1 (min m 9)) n t
  increase_fails : ∀ index, s.FailsOutsideLoops index (s.perform (increase index)).1
  increase : ∀ index n t, s.perform (increase index) = (.ok n, t) →
    s.Renumbers index (fun old => min (old + 1) 9) n t
  decrease_fails : ∀ index, s.FailsOutsideLoops index (s.perform (decrease index)).1
  decrease : ∀ index n t, s.perform (decrease index) = (.ok n, t) →
    s.Renumbers index (fun old => max (old - 1) 1) n t
  unchanged : ∀ e, s.Atomic (attempt e)

/-- In every session that can come about, every operation fails for its reasons only, the session
that it leaves behind is the old one where it fails, and otherwise nothing changes but what the
operation is for. -/
theorem Reachable.exact (h : Reachable s) : Exact s := by
  obtain ⟨start, given, hs⟩ := h.exists_sound
  exact {
    add_fails := fun _ _ => fst_perform_add_eq_error hs.length_le
    add := fun _ _ _ => appends_add
    remove_fails := failsOutside_remove s
    remove := fun _ _ _ => removes_remove
    move_fails := failsOutside_move s
    move := fun _ _ _ => moves_move
    indent_fails := failsOutside_indent s
    setParam_fails := fun index _ => failsOutsideLoops_adjust s index _
    setParam := fun _ _ _ _ => renumbers_setParam hs.proper
    increase_fails := fun index => failsOutsideLoops_adjust s index _
    increase := fun _ _ _ => renumbers_increase hs.proper
    decrease_fails := fun index => failsOutsideLoops_adjust s index _
    decrease := fun _ _ _ => renumbers_decrease hs.proper
    unchanged := atomic_attempt s }

/-- A loop around one move. -/
def Edit.loopUp : List Edit := [.add .loop, .add (.move .up), .add .endLoop]

/-- The loop is moved beyond the end, from where it comes back. The move in it has no number, and
asking for a higher one changes nothing. -/
theorem exact_loopUp :
    ∃ t, (inSmallRoom.editAll Edit.loopUp).perform (move 0 7) = (.ok ⟨⟩, t) ∧
      t.blocks.map Block.kind = [.move .up, .endLoop, .loop] ∧
      t.perform (move 2 0) = (.ok ⟨⟩, inSmallRoom.editAll Edit.loopUp) ∧
      ((inSmallRoom.editAll Edit.loopUp).perform (increase 1)).1 =
        .error (.noParam (.move .up)) ∧
      ((inSmallRoom.editAll Edit.loopUp).perform (attempt (.increase 1))).2 =
        inSmallRoom.editAll Edit.loopUp := by
  have hopened : Opened inSmallRoom := .sandbox _
  have hexact := Reachable.exact (Reachable.editAll (.opened hopened) Edit.loopUp)
  have hmove : (inSmallRoom.editAll Edit.loopUp).blocks[1]? =
      some ⟨"cblock_1002", .move .up, none⟩ := by decide +kernel
  have herror : ((inSmallRoom.editAll Edit.loopUp).perform (increase 1)).1 =
      .error (.noParam (.move .up)) :=
    (hexact.increase_fails 1 _).2 (.inr ⟨_, hmove, nofun, rfl⟩)
  have hattempt : ((inSmallRoom.editAll Edit.loopUp).perform (attempt (.increase 1))).1 =
      .error (.noParam (.move .up)) := by
    rw [attempt, perform_discard, herror]
    rfl
  exact ⟨_, rfl, by decide, (hexact.move 0 7 _ rfl).back, herror,
    hexact.unchanged (.increase 1) _ hattempt⟩

end Session

end BlockPuzzle
