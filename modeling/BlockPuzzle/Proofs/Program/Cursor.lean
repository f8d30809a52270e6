import BlockPuzzle.Proofs.Program.Filing

/-!
# The way of the cursor

Whichever closers are missing or misplaced, the frames lie inside each other and the cursor never
goes back. Every step uses up a block or the end of a region, so that the cursor comes to the end of
the program with every frame closed.

## Main definitions

* `Frame.Within`, `Frame.Nested`: a frame that stays inside a region, and frames that stay inside
  each other.
* `Assembly.Ordered`: what holds wherever the cursor comes to.
* `Assembly.remaining`: how many steps may still follow.

## Main statements

* `Assembly.Ordered.step`: a step keeps the order, does not go back and uses something up.
* `Assembly.Ordered.steps`: so do any number of steps.
* `Assembly.steps_orderly`: the whole way through a program.
-/

namespace BlockPuzzle

namespace Frame

/-- What a frame has still to fill lies in order, and the cursor goes on behind it at `e` or
before. -/
structure Within (f : Frame) (e : Nat) : Prop where
  limit_le : f.limit ≤ f.resume
  elseRegion : ∀ r ∈ f.elseRegion, f.limit ≤ r.1 ∧ r.1 ≤ r.2 ∧ r.2 ≤ f.resume
  resume_le : f.resume ≤ e

/-- The limit of the innermost of some frames; without a frame, the end of a program of `n`
blocks. -/
def limitOf (n : Nat) (fs : List Frame) : Nat := (fs.head?.map Frame.limit).getD n

/-- Every frame stays inside the limit of the next one out, and the outermost inside the program. -/
def Nested (n : Nat) : List Frame → Prop
  | [] => True
  | f :: fs => f.Within (limitOf n fs) ∧ Nested n fs

/-- How often a frame has still to be left: after its body, and after an alternative that is not yet
begun. -/
def exits (f : Frame) : Nat := if f.elseRegion.isSome then 2 else 1

def exitsAll : List Frame → Nat
  | [] => 0
  | f :: fs => f.exits + exitsAll fs

variable {f : Frame} {fs : List Frame} {s e n : Nat}

@[simp] theorem limit_push (f : Frame) (x : Node) : (f.push x).limit = f.limit := by
  unfold push; split <;> rfl

@[simp] theorem elseRegion_push (f : Frame) (x : Node) : (f.push x).elseRegion = f.elseRegion := by
  unfold push; split <;> rfl

@[simp] theorem resume_push (f : Frame) (x : Node) : (f.push x).resume = f.resume := by
  unfold push; split <;> rfl

@[simp] theorem exits_push (f : Frame) (x : Node) : (f.push x).exits = f.exits := by
  rw [exits, elseRegion_push, exits]

theorem exits_of_some {r : Nat × Nat} (h : f.elseRegion = some r) : f.exits = 2 := by
  simp [exits, h]

theorem exits_of_none (h : f.elseRegion = none) : f.exits = 1 := by
  simp [exits, h]

theorem exits_le (f : Frame) : f.exits ≤ 2 := by
  unfold exits; split <;> omega

theorem Within.push (h : f.Within e) (x : Node) : (f.push x).Within e where
  limit_le := by simpa using h.limit_le
  elseRegion := by simpa using h.elseRegion
  resume_le := by simpa using h.resume_le

theorem Fits.within (h : f.Fits s e) : f.Within e := ⟨h.limit_le, h.elseRegion, h.resume_le⟩

/-- In its alternative a frame stays inside the same region. -/
theorem Within.beginAlternative {r : Nat × Nat} (h : f.Within e) (hr : f.elseRegion = some r) :
    (f.beginAlternative r.2).Within e where
  limit_le := (h.elseRegion r hr).2.2
  elseRegion := nofun
  resume_le := h.resume_le

theorem Nested.limitOf_le (h : Nested n fs) : limitOf n fs ≤ n := by
  induction fs with
  | nil => exact Nat.le_refl n
  | cons f fs ih => exact Nat.le_trans h.1.limit_le (Nat.le_trans h.1.resume_le (ih h.2))

/-- From the innermost frame out, the limits do not decrease, and none lies beyond the program. -/
theorem Nested.pairwise_limits (h : Nested n fs) :
    (fs.map Frame.limit ++ [n]).Pairwise (· ≤ ·) := by
  induction fs with
  | nil => exact List.pairwise_singleton _ n
  | cons f fs ih =>
    rw [List.map_cons, List.cons_append, List.pairwise_cons]
    have hrest := ih h.2
    have hle : f.limit ≤ limitOf n fs := Nat.le_trans h.1.limit_le h.1.resume_le
    refine ⟨?_, hrest⟩
    intro x hx
    cases fs with
    | nil => exact List.mem_singleton.1 hx ▸ hle
    | cons g gs =>
      rcases List.mem_cons.1 hx with rfl | hx
      · exact hle
      · exact Nat.le_trans hle ((List.pairwise_cons.1 hrest).1 x hx)

end Frame

namespace Block

/-- The blocks from a later position on make no more work. -/
theorem work_drop_le (bs : List Block) {s t : Nat} (h : s ≤ t) :
    work (bs.drop t) ≤ work (bs.drop s) := by
  obtain ⟨k, rfl⟩ := Nat.exists_eq_add_of_le h
  have hsub : (bs.drop (s + k)).Sublist (bs.drop s) := by
    rw [← List.drop_drop]
    exact List.drop_sublist _ _
  have hlength := hsub.length_le
  have hcount := hsub.countP_le (p := (·.kind.isOpener))
  simp only [work]
  omega

theorem work_drop {bs : List Block} {b : Block} {s : Nat} (hb : bs[s]? = some b) :
    work (bs.drop s) = work (bs.drop (s + 1)) + if b.kind.isOpener then 3 else 1 := by
  obtain ⟨hs, rfl⟩ := List.getElem?_eq_some_iff.1 hb
  rw [List.drop_eq_getElem_cons hs, work, work, List.length_cons, List.countP_cons]
  split <;> omega

end Block

namespace Assembly

/-- The cursor has not passed the region that it fills, and the frames lie inside each other. -/
structure Ordered (a : Assembly) (n : Nat) : Prop where
  pos_le : a.pos ≤ a.limit n
  nested : Frame.Nested n a.frames

/-- At most so many steps follow: those over the blocks ahead, and those out of the open frames. -/
def remaining (bs : List Block) (a : Assembly) : Nat :=
  Block.work (bs.drop a.pos) + Frame.exitsAll a.frames

variable {bs : List Block} {a a' : Assembly} {n k : Nat}

theorem Ordered.push (h : a.Ordered n) (x : Node) : (a.push x).Ordered n where
  pos_le := by simpa using h.pos_le
  nested := by
    obtain ⟨pos, frames, forest⟩ := a
    cases frames with
    | nil => exact h.nested
    | cons f fs => exact ⟨h.nested.1.push x, h.nested.2⟩

theorem remaining_push (x : Node) : (a.push x).remaining bs = a.remaining bs := by
  obtain ⟨pos, frames, forest⟩ := a
  cases frames <;> simp [push, remaining, Frame.exitsAll]

/-! ## One step -/

/-- Everything that a step can do: begin an alternative, close a frame, or read a block. -/
theorem step_cases {blocks : Array Block} {m : Markers} (h : a.step blocks m = some a') :
    (∃ f fs r, a.frames = f :: fs ∧ f.limit ≤ a.pos ∧ f.elseRegion = some r ∧
      a' = { a with pos := r.1, frames := f.beginAlternative r.2 :: fs }) ∨
    (∃ f fs, a.frames = f :: fs ∧ f.limit ≤ a.pos ∧ f.elseRegion = none ∧
      a' = { a with pos := f.resume, frames := fs }.push f.close) ∨
    ∃ b, a.pos < a.limit blocks.size ∧ blocks[a.pos]? = some b ∧ a' = a.read m blocks.size b := by
  rw [step] at h
  split at h
  · next hle =>
    cases hframes : a.frames with
    | nil => simp [leave, hframes] at h
    | cons f fs =>
      have hlimit : f.limit ≤ a.pos := by simpa [limit, hframes] using hle
      cases helse : f.elseRegion with
      | some r =>
        refine .inl ⟨f, fs, r, rfl, hlimit, helse, ?_⟩
        simpa [leave, hframes, helse] using h.symm
      | none =>
        refine .inr (.inl ⟨f, fs, rfl, hlimit, helse, ?_⟩)
        simpa [leave, hframes, helse] using h.symm
  · next hlt =>
    obtain ⟨b, hb, rfl⟩ := Option.map_eq_some_iff.1 h
    exact .inr (.inr ⟨b, Nat.lt_of_not_le hlt, hb, rfl⟩)

/-- Reading an opener puts its frame into the region at hand, and any other block adds a leaf or
nothing. -/
theorem read_cases {b : Block} (hb : bs[a.pos]? = some b) (hpos : a.pos < a.limit bs.length)
    (hlimit : a.limit bs.length ≤ bs.length) :
    (b.kind.isOpener ∧ ∃ f : Frame, f.Fits (a.pos + 1) (a.limit bs.length) ∧
      a.read (Markers.resolve bs) bs.length b = (a.moveTo (a.pos + 1)).inside f) ∨
    (¬ b.kind.isOpener ∧ (a.read (Markers.resolve bs) bs.length b = a.moveTo (a.pos + 1) ∨
      a.read (Markers.resolve bs) bs.length b = (a.moveTo (a.pos + 1)).push (Node.leaf b))) := by
  cases hk : b.kind with
  | loop =>
    refine .inl ⟨rfl, _, (fits_ofLoop hb hk hpos hlimit).1, ?_⟩
    simp [read, hk, inside, moveTo]
  | branch p =>
    refine .inl ⟨rfl, _, (fits_ofBranch hb hk hpos hlimit).1, ?_⟩
    simp [read, hk, inside, moveTo]
  | endLoop | otherwise | endBranch =>
    exact .inr ⟨Bool.false_ne_true, .inl (by simp [read, hk, moveTo])⟩
  | move d | unknown =>
    exact .inr ⟨Bool.false_ne_true, .inr (by simp [read, hk, moveTo])⟩

/-- From `a` to `a'` the order is kept, the cursor does not go back, and fewer steps are left. -/
structure Advances (bs : List Block) (a a' : Assembly) : Prop where
  ordered : a'.Ordered bs.length
  pos_le : a.pos ≤ a'.pos
  remaining_lt : a'.remaining bs < a.remaining bs

theorem Advances.push (h : Advances bs a a') (x : Node) : Advances bs a (a'.push x) where
  ordered := h.ordered.push x
  pos_le := by simpa using h.pos_le
  remaining_lt := by simpa [remaining_push] using h.remaining_lt

section

variable {f : Frame} {fs : List Frame} {b : Block}

theorem limit_of_frames (h : a.frames = f :: fs) : a.limit n = f.limit := by simp [limit, h]

theorem remaining_of_frames (h : a.frames = f :: fs) (bs : List Block) :
    a.remaining bs = Block.work (bs.drop a.pos) + (f.exits + Frame.exitsAll fs) := by
  simp [remaining, h, Frame.exitsAll]

theorem Ordered.of_frames (h : a.Ordered n) (hframes : a.frames = f :: fs) :
    a.pos ≤ f.limit ∧ f.Within (Frame.limitOf n fs) ∧ Frame.Nested n fs := by
  obtain ⟨hpos, hnested⟩ := h
  rw [hframes] at hnested
  exact ⟨limit_of_frames hframes ▸ hpos, hnested⟩

/-- The frame had two exits and has one left. What is skipped makes the rest only shorter. -/
theorem Ordered.beginAlternative {r : Nat × Nat} (h : a.Ordered bs.length)
    (hframes : a.frames = f :: fs) (hr : f.elseRegion = some r) :
    Advances bs a { a with pos := r.1, frames := f.beginAlternative r.2 :: fs } := by
  obtain ⟨hpos, hwithin, hrest⟩ := h.of_frames hframes
  obtain ⟨hstart, hstop, -⟩ := hwithin.elseRegion r hr
  have hle := Nat.le_trans hpos hstart
  have hwork := Block.work_drop_le bs hle
  refine ⟨⟨hstop, hwithin.beginAlternative hr, hrest⟩, hle, ?_⟩
  rw [remaining_of_frames hframes, remaining_of_frames rfl, Frame.exits_of_some hr,
    Frame.exits_of_none rfl]
  simp only
  omega

theorem Ordered.close (h : a.Ordered bs.length) (hframes : a.frames = f :: fs)
    (hr : f.elseRegion = none) : Advances bs a { a with pos := f.resume, frames := fs } := by
  obtain ⟨hpos, hwithin, hrest⟩ := h.of_frames hframes
  have hle := Nat.le_trans hpos hwithin.limit_le
  have hwork := Block.work_drop_le bs hle
  refine ⟨⟨hwithin.resume_le, hrest⟩, hle, ?_⟩
  rw [remaining_of_frames hframes, Frame.exits_of_none hr, remaining]
  simp only
  omega

theorem Ordered.moveTo_succ (h : a.Ordered bs.length) (hlt : a.pos < a.limit bs.length)
    (hb : bs[a.pos]? = some b) : Advances bs a (a.moveTo (a.pos + 1)) where
  ordered := ⟨hlt, h.nested⟩
  pos_le := Nat.le_succ a.pos
  remaining_lt := by
    have hwork := Block.work_drop hb
    simp only [remaining, moveTo]
    split at hwork <;> omega

theorem Ordered.inside (h : a.Ordered bs.length) (hb : bs[a.pos]? = some b)
    (hopener : b.kind.isOpener) (hf : f.Fits (a.pos + 1) (a.limit bs.length)) :
    Advances bs a ((a.moveTo (a.pos + 1)).inside f) where
  ordered := ⟨hf.le_limit, hf.within, h.nested⟩
  pos_le := Nat.le_succ a.pos
  remaining_lt := by
    -- The opener's three steps are this one and, at most, two exits of the new frame.
    have hwork := Block.work_drop hb
    rw [if_pos hopener] at hwork
    have hexits := f.exits_le
    rw [remaining_of_frames rfl, remaining]
    simp only [Assembly.inside, moveTo]
    omega

end

theorem Ordered.limit_le (h : a.Ordered n) : a.limit n ≤ n := h.nested.limitOf_le

/-- A step keeps the order, does not go back, and leaves fewer steps to follow. -/
theorem Ordered.step (h : a.Ordered bs.length)
    (hstep : a.step bs.toArray (Markers.resolve bs) = some a') : Advances bs a a' := by
  obtain ⟨f, fs, r, hframes, -, hr, rfl⟩ | ⟨f, fs, hframes, -, hr, rfl⟩ | ⟨b, hlt, hb, rfl⟩ :=
    step_cases hstep
  · exact h.beginAlternative hframes hr
  · exact (h.close hframes hr).push f.close
  · rw [List.size_toArray] at hlt ⊢
    rw [List.getElem?_toArray] at hb
    obtain ⟨hopener, f, hf, hread⟩ | ⟨-, hread | hread⟩ := read_cases hb hlt h.limit_le
    · exact hread ▸ h.inside hb hopener hf
    · exact hread ▸ h.moveTo_succ hlt hb
    · exact hread ▸ (h.moveTo_succ hlt hb).push (Node.leaf b)

/-! ## All steps -/

theorem ordered_begin (bs : List Block) : Ordered {} bs.length := ⟨Nat.zero_le _, trivial⟩

theorem remaining_begin (bs : List Block) : remaining bs {} = Block.work bs := by
  simp [remaining, Frame.exitsAll]

/-- So do any number of steps, and they are no more than have been left. -/
theorem Ordered.steps (hsteps : Steps bs.toArray (Markers.resolve bs) a k a')
    (h : a.Ordered bs.length) :
    a'.Ordered bs.length ∧ a.pos ≤ a'.pos ∧ k + a'.remaining bs ≤ a.remaining bs := by
  induction hsteps with
  | refl a => exact ⟨h, Nat.le_refl _, by omega⟩
  | head hstep _ ih =>
    obtain ⟨hordered, hpos, hremaining⟩ := h.step hstep
    obtain ⟨hordered', hpos', hremaining'⟩ := ih hordered
    exact ⟨hordered', Nat.le_trans hpos hpos', by omega⟩

/-- With more fuel than steps are left, a run goes on until there is no step to take. -/
theorem Ordered.exists_steps_run (h : a.Ordered bs.length) {fuel : Nat}
    (hfuel : a.remaining bs < fuel) :
    ∃ k, Steps bs.toArray (Markers.resolve bs) a k (run bs.toArray (Markers.resolve bs) fuel a) ∧
      (run bs.toArray (Markers.resolve bs) fuel a).step bs.toArray (Markers.resolve bs) = none := by
  induction fuel generalizing a with
  | zero => exact absurd hfuel (Nat.not_lt_zero _)
  | succ fuel ih =>
    rw [run]
    cases hstep : a.step bs.toArray (Markers.resolve bs) with
    | none => exact ⟨0, .refl a, hstep⟩
    | some b =>
      have hadvances := h.step hstep
      obtain ⟨k, hsteps, hdone⟩ := ih hadvances.ordered (by have := hadvances.remaining_lt; omega)
      exact ⟨k + 1, .head hstep hsteps, hdone⟩

theorem Ordered.exists_block (h : a.Ordered bs.length) (hlt : a.pos < a.limit bs.length) :
    ∃ b, bs[a.pos]? = some b :=
  ⟨_, List.getElem?_eq_getElem (Nat.lt_of_lt_of_le hlt h.limit_le)⟩

/-- Where there is no step to take, everything has been filed. -/
theorem Ordered.done (h : a.Ordered bs.length)
    (hstep : a.step bs.toArray (Markers.resolve bs) = none) :
    a.frames = [] ∧ a.pos = bs.length := by
  rw [Assembly.step] at hstep
  split at hstep
  · next hle =>
    cases hframes : a.frames with
    | nil =>
      have hlimit : a.limit bs.length = bs.length := by simp [limit, hframes]
      rw [List.size_toArray, hlimit] at hle
      exact ⟨rfl, Nat.le_antisymm (hlimit ▸ h.pos_le) hle⟩
    | cons f fs => cases hr : f.elseRegion <;> simp [leave, hframes, hr] at hstep
  · next hlt =>
    obtain ⟨b, hb⟩ := h.exists_block (by simpa using hlt)
    simp [hb] at hstep

/-- Wherever the cursor comes to in a program, its frames lie inside each other, their limits do not
increase inwards, there is a block to read as long as the region is not at its end, and no step goes
back. There are never more steps than blocks and twice the openers. The run takes all of them, with
no frame left open and the cursor at the end. -/
theorem steps_orderly (bs : List Block) :
    (∀ (k : Nat) (a : Assembly), Steps bs.toArray (Markers.resolve bs) {} k a →
      a.Ordered bs.length ∧
      (a.frames.map Frame.limit ++ [bs.length]).Pairwise (· ≤ ·) ∧
      (a.pos < a.limit bs.length → ∃ b, bs[a.pos]? = some b) ∧
      (∀ a', a.step bs.toArray (Markers.resolve bs) = some a' → a.pos ≤ a'.pos) ∧
      k + 1 ≤ bs.length + 2 * bs.countP (·.kind.isOpener) + 1) ∧
    ∃ k, let done := run bs.toArray (Markers.resolve bs) (stepBound bs) {}
      Steps bs.toArray (Markers.resolve bs) {} k done ∧
        done.step bs.toArray (Markers.resolve bs) = none ∧
        done.frames = [] ∧ done.pos = bs.length := by
  constructor
  · intro k a hsteps
    obtain ⟨hordered, -, hremaining⟩ := (ordered_begin bs).steps hsteps
    rw [remaining_begin, Block.work] at hremaining
    exact ⟨hordered, hordered.nested.pairwise_limits, hordered.exists_block,
      fun a' hstep => (hordered.step hstep).pos_le, by omega⟩
  · have hfuel : remaining bs {} < stepBound bs := by
      rw [remaining_begin]
      exact Nat.lt_succ_self _
    obtain ⟨k, hsteps, hdone⟩ := (ordered_begin bs).exists_steps_run hfuel
    obtain ⟨hordered, -, -⟩ := (ordered_begin bs).steps hsteps
    exact ⟨k, hsteps, hdone, hordered.done hdone⟩

end Assembly

end BlockPuzzle
