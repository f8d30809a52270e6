import BlockPuzzle.Program.Assembly
import BlockPuzzle.Proofs.Program.Reading

/-!
# The cursor reads the program

The cursor with its frames files every region into the innermost frame as the tree that one reads
off it, and it needs no more steps than it is given.

## Main definitions

* `Assembly.Steps`: so many steps of the cursor.
* `Frame.Fits`: a frame whose regions and resume point lie in order within a region.
* `Files`: the cursor files a region as its reading.

## Main statements

* `files`: every region is filed as its reading.
* `Node.ofBlocks_eq_reading`: the tree of a program is its reading.
-/

namespace BlockPuzzle

/-! ## Steps of the cursor -/

namespace Assembly

/-- The cursor takes exactly `k` steps. -/
inductive Steps (blocks : Array Block) (m : Markers) : Assembly → Nat → Assembly → Prop where
  | refl (a : Assembly) : Steps blocks m a 0 a
  | head {a b c : Assembly} {k : Nat} :
      a.step blocks m = some b → Steps blocks m b k c → Steps blocks m a (k + 1) c

variable {blocks : Array Block} {m : Markers} {a b c : Assembly}

theorem Steps.single (h : a.step blocks m = some b) : Steps blocks m a 1 b := .head h (.refl b)

theorem Steps.trans {j k : Nat} (h : Steps blocks m a j b) (g : Steps blocks m b k c) :
    Steps blocks m a (j + k) c := by
  induction h with
  | refl => simpa using g
  | @head _ _ _ j hstep _ ih =>
    rw [show j + 1 + k = j + k + 1 by omega]
    exact .head hstep (ih g)

/-- With enough fuel the cursor runs until nothing is left to do. -/
theorem Steps.run_eq {k fuel : Nat} (h : Steps blocks m a k b) (hb : b.step blocks m = none)
    (hk : k ≤ fuel) : run blocks m fuel a = b := by
  induction h generalizing fuel with
  | refl a => cases fuel <;> simp [run, hb]
  | head hstep _ ih =>
    obtain ⟨fuel, rfl⟩ : ∃ n, fuel = n + 1 := ⟨fuel - 1, by omega⟩
    rw [run, hstep]
    exact ih hb (by omega)

/-- The assembly with a list of nodes filed into the innermost body. -/
def file (a : Assembly) (ns : List Node) : Assembly := ns.foldl push a

def moveTo (a : Assembly) (p : Nat) : Assembly := { a with pos := p }

@[simp] theorem pos_push (a : Assembly) (n : Node) : (a.push n).pos = a.pos := by
  unfold push; split <;> rfl

@[simp] theorem limit_push (a : Assembly) (x : Node) (n : Nat) :
    (a.push x).limit n = a.limit n := by
  unfold push limit Frame.push
  split
  · rfl
  · next f fs h => rw [h]; cases f.alternative <;> rfl

@[simp] theorem pos_moveTo (a : Assembly) (p : Nat) : (a.moveTo p).pos = p := rfl

@[simp] theorem limit_moveTo (a : Assembly) (p n : Nat) : (a.moveTo p).limit n = a.limit n := rfl

theorem push_moveTo (a : Assembly) (p : Nat) (n : Node) :
    (a.moveTo p).push n = (a.push n).moveTo p := by
  unfold push moveTo; split <;> simp_all

theorem file_moveTo (a : Assembly) (p : Nat) (ns : List Node) :
    (a.moveTo p).file ns = (a.file ns).moveTo p := by
  induction ns generalizing a with
  | nil => rfl
  | cons n ns ih => exact (congrArg (file · ns) (push_moveTo a p n)).trans (ih (a.push n))

end Assembly

/-! ## Filling one frame -/

namespace Frame

/-- The frame with a list of nodes filed into it. -/
def file (f : Frame) (ns : List Node) : Frame := ns.foldl push f

theorem file_of_none {f : Frame} (h : f.alternative = none) (ns : List Node) :
    f.file ns = { f with body := ns.reverse ++ f.body } := by
  induction ns generalizing f with
  | nil => rfl
  | cons n ns ih =>
    have hpush : f.push n = { f with body := n :: f.body } := by simp [push, h]
    calc f.file (n :: ns) = file { f with body := n :: f.body } ns := congrArg (file · ns) hpush
      _ = { f with body := ns.reverse ++ n :: f.body } := ih (f := { f with body := n :: f.body }) h
      _ = _ := by simp

theorem file_of_some {f : Frame} {xs : List Node} (h : f.alternative = some xs) (ns : List Node) :
    f.file ns = { f with alternative := some (ns.reverse ++ xs) } := by
  induction ns generalizing f xs with
  | nil => simp [file, ← h]
  | cons n ns ih =>
    have hpush : f.push n = { f with alternative := some (n :: xs) } := by simp [push, h]
    calc f.file (n :: ns) = file { f with alternative := some (n :: xs) } ns :=
          congrArg (file · ns) hpush
      _ = _ := by rw [ih rfl]; simp

end Frame

namespace Assembly

/-- The assembly inside a new frame. -/
def inside (a : Assembly) (f : Frame) : Assembly := { a with frames := f :: a.frames }

@[simp] theorem limit_inside (a : Assembly) (f : Frame) (n : Nat) :
    (a.inside f).limit n = f.limit :=
  rfl

theorem file_inside (a : Assembly) (f : Frame) (ns : List Node) :
    (a.inside f).file ns = a.inside (f.file ns) := by
  induction ns generalizing f with
  | nil => rfl
  | cons n ns ih => exact ih (f.push n)

theorem file_of_frames_nil {a : Assembly} (h : a.frames = []) (ns : List Node) :
    a.file ns = { a with forest := ns.reverse ++ a.forest } := by
  induction ns generalizing a with
  | nil => rfl
  | cons n ns ih =>
    have hpush : a.push n = { a with forest := n :: a.forest } := by simp [push, h]
    calc a.file (n :: ns) = file { a with forest := n :: a.forest } ns := congrArg (file · ns) hpush
      _ = { a with forest := ns.reverse ++ n :: a.forest } :=
        ih (a := { a with forest := n :: a.forest }) h
      _ = _ := by simp

end Assembly

/-! ## Filing a region -/

/-- How many steps the cursor takes over a region at most. -/
def Block.work (bs : List Block) : Nat := bs.length + 2 * bs.countP (·.kind.isOpener)

theorem Block.work_between (bs : List Block) {s m e : Nat} (hs : s ≤ m) (he : m ≤ e) :
    work (between bs s e) = work (between bs s m) + work (between bs m e) := by
  rw [← between_append hs he]
  simp [work]; omega

/-- From position `s` on, the cursor files the nodes of the region up to `e` and comes to its
end. -/
def Files (bs : List Block) (s e : Nat) : Prop :=
  ∀ a : Assembly, a.pos = s → a.limit bs.length = e → ∃ k ≤ Block.work (Block.between bs s e),
    Assembly.Steps bs.toArray (Markers.resolve bs) a k
      ((a.file (Node.reading (Block.between bs s e))).moveTo e)

/-- A new frame whose regions and resume point lie in order within the region from `s` to `e`. -/
structure Frame.Fits (f : Frame) (s e : Nat) : Prop where
  body : f.body = []
  alternative : f.alternative = none
  le_limit : s ≤ f.limit
  limit_le : f.limit ≤ f.resume
  elseRegion : ∀ r ∈ f.elseRegion, f.limit ≤ r.1 ∧ r.1 ≤ r.2 ∧ r.2 ≤ f.resume
  resume_le : f.resume ≤ e

/-- The node that a frame becomes. -/
def Frame.node (bs : List Block) (s : Nat) (f : Frame) : Node :=
  ⟨f.block, Node.reading (Block.between bs s f.limit),
    f.elseRegion.map fun r => Node.reading (Block.between bs r.1 r.2)⟩

section

variable {bs : List Block} {s e : Nat} {f : Frame}

theorem step_of_limit_le {blocks : Array Block} {m : Markers} {a : Assembly}
    (h : a.limit blocks.size ≤ a.pos) : a.step blocks m = a.leave := by
  rw [Assembly.step, if_pos h]

theorem leave_inside_of_none {a : Assembly} (h : f.elseRegion = none) :
    (a.inside f).leave = some ((a.push f.close).moveTo f.resume) := by
  simp only [Assembly.leave, Assembly.inside, h]
  exact congrArg some (Assembly.push_moveTo a f.resume f.close)

theorem leave_inside_of_some {a : Assembly} {r : Nat × Nat} (h : f.elseRegion = some r) :
    (a.inside f).leave = some ((a.moveTo r.1).inside (f.beginAlternative r.2)) := by
  simp only [Assembly.leave, Assembly.inside, h]
  rfl

theorem Frame.Fits.file_eq (hf : f.Fits s e) (ns : List Node) :
    f.file ns = { f with body := ns.reverse } := by
  rw [Frame.file_of_none hf.alternative, hf.body, List.append_nil]

theorem Frame.file_beginAlternative (p : Nat) (xs : List Node) :
    (f.beginAlternative p).file xs =
      { f.beginAlternative p with alternative := some xs.reverse } := by
  have hempty : (f.beginAlternative p).alternative = some [] := rfl
  rw [Frame.file_of_some hempty, List.append_nil]

/-- A frame is closed after at most two more steps than the cursor takes inside. -/
theorem steps_close (hf : f.Fits s e) (hbody : Files bs s f.limit)
    (helse : ∀ r ∈ f.elseRegion, Files bs r.1 r.2) (a : Assembly) :
    ∃ k ≤ Block.work (Block.between bs s f.resume) + 2,
      Assembly.Steps bs.toArray (Markers.resolve bs) ((a.moveTo s).inside f) k
        ((a.push (f.node bs s)).moveTo f.resume) := by
  obtain ⟨j, hj, inBody⟩ := hbody ((a.moveTo s).inside f) rfl rfl
  rw [Assembly.file_inside, hf.file_eq] at inBody
  have hwork := Block.work_between bs hf.le_limit hf.limit_le
  -- The frame with its body filled, and the cursor at its limit.
  generalize hns : Node.reading (Block.between bs s f.limit) = ns at inBody
  let g : Frame := { f with body := ns.reverse }
  have hleave : ((a.moveTo f.limit).inside g).step bs.toArray (Markers.resolve bs) =
      ((a.moveTo f.limit).inside g).leave := step_of_limit_le (Nat.le_refl f.limit)
  cases hr : f.elseRegion with
  | none =>
    have hnode : g.close = f.node bs s := by
      simp [g, Frame.close, Frame.node, hf.alternative, hr, hns]
    rw [leave_inside_of_none (show g.elseRegion = none from hr), hnode,
      Assembly.push_moveTo] at hleave
    exact ⟨j + 1, by omega, inBody.trans (.single hleave)⟩
  | some r =>
    obtain ⟨hle, hr', hresume⟩ := hf.elseRegion r hr
    obtain ⟨k, hk, inAlternative⟩ :=
      helse r hr ((a.moveTo r.1).inside (g.beginAlternative r.2)) rfl rfl
    rw [Assembly.file_inside, Frame.file_beginAlternative] at inAlternative
    generalize hxs : Node.reading (Block.between bs r.1 r.2) = xs at inAlternative
    let c : Frame := { g.beginAlternative r.2 with alternative := some xs.reverse }
    have hclose : ((a.moveTo r.2).inside c).step bs.toArray (Markers.resolve bs) =
        ((a.moveTo r.2).inside c).leave := step_of_limit_le (Nat.le_refl r.2)
    have hnode : c.close = f.node bs s := by
      simp [c, g, Frame.beginAlternative, Frame.close, Frame.node, hr, hns, hxs]
    rw [leave_inside_of_none (show c.elseRegion = none from rfl), hnode,
      Assembly.push_moveTo] at hclose
    rw [leave_inside_of_some (show g.elseRegion = some r from hr)] at hleave
    have hgap := Block.work_between bs hle (Nat.le_trans hr' hresume)
    have hrest := Block.work_between bs hr' hresume
    exact ⟨j + (1 + (k + 1)), by omega,
      inBody.trans (.trans (.single hleave) (inAlternative.trans (.single hclose)))⟩

/-! ## The frames of openers -/

variable {b : Block}

/-- Within a region, the closer that the markers know is the one that scanning the region finds. -/
theorem closerOf?_filter_lt {g : Family} (hb : bs[s]? = some b) (hopens : b.kind.opens g)
    (e : Nat) : ((Markers.resolve bs).closerOf? g s).filter (· < e) =
      (g.closer? 0 (Block.between bs (s + 1) e)).map (· + (s + 1)) := by
  rw [Markers.closerOf?_resolve hb hopens, Block.between, Family.closer?_take]
  cases g.closer? 0 (bs.drop (s + 1)) with
  | none => rfl
  | some j =>
    have hlt : j + (s + 1) < e ↔ j < e - (s + 1) := by omega
    simp only [Option.map_some, Option.filter, hlt]
    split <;> rfl

theorem elsesOf_takeWhile_lt (hb : bs[s]? = some b) (hopens : b.kind.opens .branch) (e : Nat) :
    ((Markers.resolve bs).elsesOf s).takeWhile (· < e) =
      (Block.ownElses 0 (Block.between bs (s + 1) e)).map (· + (s + 1)) := by
  rw [Markers.elsesOf_resolve hb hopens, Block.between, Block.ownElses_take, List.takeWhile_map]
  congr 2
  funext j
  simp; omega

/-- Where the region behind an opener ends, and where the cursor goes on behind it. -/
structure Ends (g : Family) (bs : List Block) (s e stop resume : Nat) : Prop where
  le_stop : s ≤ stop
  stop_le : stop ≤ resume
  resume_le : resume ≤ e
  region : g.region (Block.between bs s e) = Block.between bs s stop
  after : g.after (Block.between bs s e) = Block.between bs resume e

theorem ends_of_closer? (g : Family) (hs : s ≤ e) (he : e ≤ bs.length) {x : Option Nat}
    (hx : x = (g.closer? 0 (Block.between bs s e)).map (· + s)) :
    Ends g bs s e (x.getD e) ((x.map (· + 1)).getD e) := by
  have hlength : (Block.between bs s e).length = e - s := Block.length_between he
  subst hx
  cases hj : g.closer? 0 (Block.between bs s e) with
  | none =>
    refine ⟨hs, Nat.le_refl e, Nat.le_refl e, ?_, ?_⟩
    · simp [Family.region, hj]
    · simp [Family.after, hj, Block.between_self]
  | some j =>
    have hlt := Family.closer?_lt hj
    refine ⟨by simp, by simp, by simp; omega, ?_, ?_⟩
    · rw [Family.region, hj, Option.getD_some, Block.take_between (by omega), Nat.add_comm]
      rfl
    · rw [Family.after, hj, Option.map_some, Option.getD_some, Block.drop_between,
        show s + (j + 1) = j + s + 1 by omega]
      rfl

/-- How the own `else` blocks of a branch cut its region: the body, and the alternative if any. -/
structure Cuts (bs : List Block) (s e limit : Nat) (elseRegion : Option (Nat × Nat)) : Prop where
  le_limit : s ≤ limit
  limit_le : limit ≤ e
  elseRegion_le : ∀ r ∈ elseRegion, limit ≤ r.1 ∧ r.1 ≤ r.2 ∧ r.2 = e
  body : (Block.between bs s e).take ((Block.ownElses 0 (Block.between bs s e)).head?.getD
    (Block.between bs s e).length) = Block.between bs s limit
  alternative : ((Block.ownElses 0 (Block.between bs s e)).getLast?.map fun j =>
    (Block.between bs s e).drop (j + 1)) = elseRegion.map fun r => Block.between bs r.1 r.2

theorem cuts_ownElses (hs : s ≤ e) (he : e ≤ bs.length) {xs : List Nat}
    (hx : xs = (Block.ownElses 0 (Block.between bs s e)).map (· + s)) :
    Cuts bs s e (xs.head?.getD e) (xs.getLast?.map fun j => (j + 1, e)) := by
  have hlength : (Block.between bs s e).length = e - s := Block.length_between he
  have hlt {j : Nat} (hj : j ∈ Block.ownElses 0 (Block.between bs s e)) : s + j < e := by
    have := Block.ownElses_lt hj; omega
  have hsorted := Block.pairwise_ownElses 0 (Block.between bs s e)
  subst hx
  cases ho : Block.ownElses 0 (Block.between bs s e) with
  | nil => exact ⟨hs, Nat.le_refl e, by simp, by simp [ho], by simp [ho]⟩
  | cons j js =>
    obtain ⟨last, hlast⟩ : ∃ last, (j :: js).getLast? = some last := ⟨_, List.getLast?_cons⟩
    have hmem := List.mem_of_getLast? hlast
    have hfirst : s + j < e := hlt (by simp [ho])
    have hend : s + last < e := hlt (ho ▸ hmem)
    have hle : j ≤ last := by
      rcases List.mem_cons.1 hmem with rfl | hjs
      · exact Nat.le_refl last
      · exact Nat.le_of_lt ((List.pairwise_cons.1 (ho ▸ hsorted)).1 last hjs)
    refine ⟨?_, ?_, ?_, ?_, ?_⟩
    · simp
    · simp; omega
    · intro r hr
      rw [List.getLast?_map, hlast, Option.map_some, Option.map_some, Option.mem_some_iff] at hr
      subst hr
      exact ⟨by simp; omega, by simp; omega, rfl⟩
    · rw [ho, List.head?_cons, Option.getD_some, Block.take_between (by omega), Nat.add_comm]
      rfl
    · rw [ho, List.getLast?_map, hlast, Option.map_some, Block.drop_between]
      simp only [Option.map_some, Option.some.injEq]
      congr 1
      omega

theorem fits_ofLoop (hb : bs[s]? = some b) (hk : b.kind = .loop) (hs : s < e)
    (he : e ≤ bs.length) :
    (Frame.ofLoop (Markers.resolve bs) b s e).Fits (s + 1) e ∧
      Node.reading (Block.between bs s e) =
        (Frame.ofLoop (Markers.resolve bs) b s e).node bs (s + 1) ::
          Node.reading (Block.between bs (Frame.ofLoop (Markers.resolve bs) b s e).resume e) := by
  obtain ⟨hle, hstop, hresume, hregion, hafter⟩ :=
    ends_of_closer? .loop hs he (closerOf?_filter_lt hb (by simp [hk, Kind.opens]) e)
  refine ⟨⟨rfl, rfl, hle, hstop, by simp [Frame.ofLoop], hresume⟩, ?_⟩
  rw [Block.between_cons hb hs, Node.reading_cons_of_loop hk, hregion, hafter]
  rfl

theorem fits_ofBranch {p : Predicate} (hb : bs[s]? = some b) (hk : b.kind = .branch p) (hs : s < e)
    (he : e ≤ bs.length) :
    (Frame.ofBranch (Markers.resolve bs) b s e).Fits (s + 1) e ∧
      Node.reading (Block.between bs s e) =
        (Frame.ofBranch (Markers.resolve bs) b s e).node bs (s + 1) ::
          Node.reading (Block.between bs (Frame.ofBranch (Markers.resolve bs) b s e).resume e) := by
  have hopens : b.kind.opens .branch := by simp [hk, Kind.opens]
  obtain ⟨hle, hstop, hresume, hregion, hafter⟩ :=
    ends_of_closer? .branch hs he (closerOf?_filter_lt hb hopens e)
  obtain ⟨hlimit, hlimitLe, helse, hbody, halternative⟩ :=
    cuts_ownElses hle (by omega) (elsesOf_takeWhile_lt hb hopens _)
  refine ⟨⟨rfl, rfl, hlimit, Nat.le_trans hlimitLe hstop, ?_, hresume⟩, ?_⟩
  · intro r hr
    obtain ⟨hr, hr', hr''⟩ := helse r hr
    exact ⟨hr, hr', hr'' ▸ hstop⟩
  · have hreading := congrArg (Option.map Node.reading) halternative
    rw [Option.map_map, Option.map_map] at hreading
    rw [Block.between_cons hb hs, Node.reading_cons_of_branch hk, hregion, hafter, hbody]
    exact congrArg (List.cons · _) (congrArg (Node.mk b _) hreading)

/-- At an opener the cursor fills the new frame and files the rest of the region. -/
theorem steps_inside (hb : bs[s]? = some b) (hopener : b.kind.isOpener) (hs : s < e)
    (hf : f.Fits (s + 1) e) (hreading : Node.reading (Block.between bs s e) =
      f.node bs (s + 1) :: Node.reading (Block.between bs f.resume e))
    (ih : ∀ p q, s < p → p ≤ q → q ≤ e → Files bs p q) {a : Assembly}
    (hlimit : a.limit bs.length = e)
    (hstep : a.step bs.toArray (Markers.resolve bs) = some ((a.moveTo (s + 1)).inside f)) :
    ∃ k ≤ Block.work (Block.between bs s e), Assembly.Steps bs.toArray (Markers.resolve bs) a k
      ((a.file (Node.reading (Block.between bs s e))).moveTo e) := by
  have hresume := Nat.le_trans hf.le_limit hf.limit_le
  have hbody : Files bs (s + 1) f.limit :=
    ih _ _ (Nat.lt_succ_self s) hf.le_limit (Nat.le_trans hf.limit_le hf.resume_le)
  have helse : ∀ r ∈ f.elseRegion, Files bs r.1 r.2 := by
    intro r hr
    obtain ⟨h, h', h''⟩ := hf.elseRegion r hr
    exact ih _ _ (Nat.lt_of_lt_of_le hf.le_limit h) h' (Nat.le_trans h'' hf.resume_le)
  obtain ⟨j, hj, hclose⟩ := steps_close hf hbody helse a
  obtain ⟨k, hk, hrest⟩ := ih f.resume e hresume hf.resume_le (Nat.le_refl e)
    ((a.push (f.node bs (s + 1))).moveTo f.resume) rfl (by simpa using hlimit)
  rw [Assembly.file_moveTo] at hrest
  have hwork := Block.work_between bs hresume hf.resume_le
  have hfirst : Block.work (Block.between bs s e) =
      Block.work (Block.between bs (s + 1) e) + 3 := by
    rw [Block.between_cons hb hs]
    simp [Block.work, hopener]; omega
  rw [hreading]
  exact ⟨j + k + 1, by omega, .head hstep (hclose.trans hrest)⟩

/-- At any other block the cursor files what the block stands for, if anything, and the rest. -/
theorem steps_past (hb : bs[s]? = some b) (hopener : ¬ b.kind.isOpener) (hs : s < e)
    {ns : List Node} (hreading : Node.reading (Block.between bs s e) =
      ns ++ Node.reading (Block.between bs (s + 1) e))
    (hrest : Files bs (s + 1) e) {a : Assembly} (hlimit : (a.file ns).limit bs.length = e)
    (hstep : a.step bs.toArray (Markers.resolve bs) = some ((a.file ns).moveTo (s + 1))) :
    ∃ k ≤ Block.work (Block.between bs s e), Assembly.Steps bs.toArray (Markers.resolve bs) a k
      ((a.file (Node.reading (Block.between bs s e))).moveTo e) := by
  obtain ⟨k, hk, hsteps⟩ := hrest ((a.file ns).moveTo (s + 1)) rfl hlimit
  have hfile : a.file (Node.reading (Block.between bs s e)) =
      (a.file ns).file (Node.reading (Block.between bs (s + 1) e)) := by
    rw [hreading]
    exact List.foldl_append
  have hfirst : Block.work (Block.between bs s e) =
      Block.work (Block.between bs (s + 1) e) + 1 := by
    rw [Block.between_cons hb hs]
    simp [Block.work, hopener]; omega
  rw [Assembly.file_moveTo, ← hfile] at hsteps
  exact ⟨k + 1, by omega, .head hstep hsteps⟩

end

/-! ## The whole program -/

/-- The cursor files every region as its reading. -/
theorem files (bs : List Block) {s e : Nat} (hs : s ≤ e) (he : e ≤ bs.length) : Files bs s e := by
  induction hn : e - s using Nat.strongRecOn generalizing s e with
  | ind n ih =>
    intro a hpos hlimit
    rcases Nat.eq_or_lt_of_le hs with rfl | hlt
    · refine ⟨0, Nat.zero_le _, ?_⟩
      rw [Block.between_self, Node.reading, ← hpos]
      exact .refl a
    obtain ⟨b, hb⟩ : ∃ b, bs[s]? = some b := ⟨bs[s], List.getElem?_eq_getElem (by omega)⟩
    have hstep : a.step bs.toArray (Markers.resolve bs) =
        some (a.read (Markers.resolve bs) bs.length b) := by
      rw [Assembly.step, if_neg (by simp [hlimit, hpos]; omega)]
      simp [hpos, hb]
    have inner (p q : Nat) (hp : s < p) (hq : p ≤ q) (hqe : q ≤ e) : Files bs p q :=
      ih (q - p) (by omega) hq (by omega) rfl
    have hrest : Files bs (s + 1) e := inner (s + 1) e (Nat.lt_succ_self s) hlt (Nat.le_refl e)
    have hcons := Block.between_cons hb hlt
    cases hk : b.kind with
    | loop =>
      obtain ⟨hf, hreading⟩ := fits_ofLoop hb hk hlt he
      apply steps_inside hb (by simp [hk, Kind.isOpener]) hlt hf hreading inner hlimit
      rw [hstep]
      simp [Assembly.read, hk, hpos, hlimit, Assembly.inside, Assembly.moveTo]
    | branch p =>
      obtain ⟨hf, hreading⟩ := fits_ofBranch hb hk hlt he
      apply steps_inside hb (by simp [hk, Kind.isOpener]) hlt hf hreading inner hlimit
      rw [hstep]
      simp [Assembly.read, hk, hpos, hlimit, Assembly.inside, Assembly.moveTo]
    | endLoop | otherwise | endBranch =>
      have hreading : Node.reading (Block.between bs s e) =
          [] ++ Node.reading (Block.between bs (s + 1) e) := by
        rw [hcons, Node.reading_cons_of_isMarker (by simp [hk, Kind.isMarker]), List.nil_append]
      apply steps_past hb (by simp [hk, Kind.isOpener]) hlt hreading hrest hlimit
      rw [hstep]
      simp [Assembly.read, hk, hpos, Assembly.moveTo, Assembly.file]
    | move d | unknown =>
      have hreading : Node.reading (Block.between bs s e) =
          [Node.leaf b] ++ Node.reading (Block.between bs (s + 1) e) := by
        rw [hcons, Node.reading_cons_of_leaf (by simp [hk, Kind.isOpener])
          (by simp [hk, Kind.isMarker]), List.singleton_append]
      apply steps_past hb (by simp [hk, Kind.isOpener]) hlt hreading hrest
        (by simpa [Assembly.file] using hlimit)
      rw [hstep, Assembly.file, List.foldl_cons, List.foldl_nil, ← Assembly.push_moveTo]
      simp [Assembly.read, hk, hpos, Assembly.moveTo]

/-- With enough fuel the cursor comes to the end of the program, closes every frame and leaves the
reading of the program behind. -/
theorem Assembly.run_of_stepBound_le (bs : List Block) {fuel : Nat} (h : stepBound bs ≤ fuel) :
    run bs.toArray (Markers.resolve bs) fuel {} =
      { pos := bs.length, frames := [], forest := (Node.reading bs).reverse } := by
  obtain ⟨k, hk, hsteps⟩ := files bs (Nat.zero_le _) (Nat.le_refl bs.length) {} rfl rfl
  rw [Block.between_zero] at hk hsteps
  have hfuel : k ≤ fuel := by
    simp only [stepBound, Block.work] at h hk
    omega
  rw [file_of_frames_nil rfl] at hsteps
  have hdone := hsteps.run_eq (step_of_limit_le (by simp [limit, moveTo])) hfuel
  rw [hdone, moveTo, List.append_nil]

/-- What the cursor leaves behind, in the order of the program. -/
theorem Node.ofBlocks_eq (bs : List Block) : ofBlocks bs = reading bs := by
  rw [ofBlocks, Assembly.run_of_stepBound_le bs (Nat.le_refl _), List.reverse_reverse]

/-- The tree of a program is the one that is read off it by scanning ahead. -/
theorem Node.ofBlocks_eq_reading (bs : List Block) : Node.ofBlocks bs = Node.reading bs :=
  Node.ofBlocks_eq bs

/-- A branch that is opened in a loop ends with the loop, and what would close it is skipped. -/
example : Node.ofBlocks [⟨"a", .loop, none⟩, ⟨"b", .branch .onStar, none⟩, ⟨"c", .endLoop, none⟩,
      ⟨"d", .move .up, none⟩, ⟨"e", .endBranch, none⟩] =
    [⟨⟨"a", .loop, none⟩, [Node.leaf ⟨"b", .branch .onStar, none⟩], none⟩,
      Node.leaf ⟨"d", .move .up, none⟩] := rfl

end BlockPuzzle
