import BlockPuzzle.Proofs.Json.Reading
import BlockPuzzle.Wire.Document

/-!
# Records that are read back

The parts of a record are put together one after the other, and so is the proof that they are read
back: every part takes the member that was written for it, and no part before it knows its name.

## Main definitions

* `Fields.Ignores`: no part has a name.
* `Fields.Reads`: the parts of a record take some members and give a value.

## Main statements

* `Fields.Reads.part`, `Fields.Reads.leftOut`: one part more, written or left out.
* `Fields.Reads.decode_object`, `Fields.Reads.decodeAround_object`: what a record gives.
* `Decoder.ofText_write`: what is taken out of a written value is taken out of its text.
-/

namespace BlockPuzzle

/-! ## Values -/

theorem Json.complete_ofNat {w : Width} {n depth : Nat} (hn : n < w.size) :
    Complete depth (.ofNat n) := by
  have hsize := w.size_le
  refine .int ⟨?_, by omega⟩
  rw [Width.intMin_long]
  omega

theorem Json.complete_int {w : Width} {n : Int} {depth : Nat} (hn : w.HasRoom n) :
    Complete depth (.int n) := by
  have hsize := w.size_le
  simp only [Width.HasRoom, Width.intMin, Width.intMax] at hn
  refine .int ⟨?_, by omega⟩
  rw [Width.intMin]
  omega

namespace Decoder

variable {α : Type} {d : Decoder α} {w : Width}

theorem ofText_write {j : Json} (h : j.Complete Json.maxNesting) (d : Decoder α) :
    ofText d j.write = d j := by
  rw [ofText, Json.read_write h]
  cases d j <;> rfl

theorem text_text (s : String) : text (.text s) = .ok s := rfl

theorem bool_bool (b : Bool) : bool (.bool b) = .ok b := rfl

theorem nat_ofNat {n : Nat} (hn : n < w.size) : nat w (.ofNat n) = .ok n := by
  have hroom : (0 : Int) ≤ n ∧ (n : Int) ≤ w.size - 1 := by omega
  rw [nat, Json.ofNat, int, if_pos hroom]
  rfl

theorem signed_int {n : Int} (hn : w.HasRoom n) : signed w (.int n) = .ok n := if_pos hn

theorem list_map {encode : α → Json} {as : List α} (h : ∀ a ∈ as, d (encode a) = .ok a) :
    list d (.list (as.map encode)) = .ok as := by
  rw [list]
  induction as with
  | nil => rfl
  | cons a as ih =>
    rw [List.forall_mem_cons] at h
    rw [List.map_cons, List.mapM_cons, h.1, ih h.2]
    rfl

theorem optional_map {encode : α → Json} {o : Option α} (h : ∀ a ∈ o, d (encode a) = .ok a)
    (hnull : ∀ a, encode a ≠ .null) : optional d ((o.map encode).getD .null) = .ok o := by
  cases o with
  | none => rfl
  | some a =>
    have hsome : optional d (encode a) = (d (encode a)).map some := by
      unfold optional
      split
      · next hj => exact absurd hj (hnull a)
      · rfl
    exact hsome.trans (congrArg (Except.map some) (h a rfl))

theorem lookup_text {find : String → Option α} {a : α} {s : String} (h : find s = some a)
    (embedded : Bool) : lookup find (tag embedded) (.text s) = .ok a := by
  simp [lookup, tag, bind, Except.bind, h, pure, Except.pure]

end Decoder

/-! ## Records -/

namespace Fields

variable {α β : Type} {f : Fields (α → β)} {g : Fields α} {a : α} {b : α → β} {name : String}
  {ms ms' : List (String × Json)} {m : String × Json} {d : Decoder α} {j : Json}

/-- No part has the name. -/
def Ignores (f : Fields α) (name : String) : Prop := ∀ j s, f.put name j s = none

@[simp] theorem ignores_pure (a : α) (name : String) : (pure a).Ignores name := fun _ _ => rfl

@[simp] theorem ignores_part {other : String} {missing unlisted : Option α} :
    (part other d missing unlisted).Ignores name ↔ name ≠ other := by
  constructor
  · rintro h rfl
    have hput := h .null none
    simp [part] at hput
  · exact fun hne _ _ => if_neg hne

@[simp] theorem ignores_required {other : String} :
    (required other d).Ignores name ↔ name ≠ other := ignores_part

@[simp] theorem ignores_default {other : String} :
    (default other d a).Ignores name ↔ name ≠ other := ignores_part

@[simp] theorem ignores_nullable {other : String} :
    (nullable other d).Ignores name ↔ name ≠ other := ignores_part

@[simp] theorem ignores_also : (f.also g).Ignores name ↔ f.Ignores name ∧ g.Ignores name := by
  constructor
  · intro h
    constructor
    · intro j s
      have hput := h j (s, g.empty)
      cases hf : f.put name j s with
      | none => rfl
      | some r => simp [also, hf] at hput
    · intro j s
      have hput := h j (f.empty, s)
      cases hf : f.put name j f.empty with
      | none => simpa [also, hf] using hput
      | some r => simp [also, hf] at hput
  · rintro ⟨hf, hg⟩ j s
    simp [also, hf j s.1, hg j s.2]

/-- The members are taken one after the other, each for some part. -/
inductive Fills (f : Fields α) : f.Slots → List (String × Json) → f.Slots → Prop where
  | nil (s : f.Slots) : Fills f s [] s
  | cons {m : String × Json} {ms : List (String × Json)} {s s' s'' : f.Slots}
    (hput : f.put m.1 m.2 s = some (.ok s')) (hrest : Fills f s' ms s'') : Fills f s (m :: ms) s''

theorem Fills.append {s s' s'' : g.Slots} (h : g.Fills s ms s') (h' : g.Fills s' ms' s'') :
    g.Fills s (ms ++ ms') s'' := by
  induction h with
  | nil => exact h'
  | cons hput _ ih => exact .cons hput (ih h')

theorem Fills.left {s s' : f.Slots} (h : f.Fills s ms s') (t : g.Slots) :
    (f.also g).Fills (s, t) ms (s', t) := by
  induction h with
  | nil s => exact .nil _
  | cons hput _ ih =>
    refine .cons ?_ ih
    simp [also, hput]
    rfl

theorem Fills.right {t t' : g.Slots} (h : g.Fills t ms t') (hnew : ∀ m ∈ ms, f.Ignores m.1)
    (s : f.Slots) : (f.also g).Fills (s, t) ms (s, t') := by
  induction h with
  | nil t => exact .nil _
  | cons hput _ ih =>
    rw [List.forall_mem_cons] at hnew
    refine .cons ?_ (ih hnew.2)
    simp [also, hnew.1 _ s, hput]
    rfl

/-- The parts take the members and give `a`. -/
def Reads (f : Fields α) (ms : List (String × Json)) (a : α) : Prop :=
  ∃ s, f.Fills f.empty ms s ∧ f.close s = .ok a

namespace Reads

theorem pure (a : α) : (Fields.pure a).Reads [] a := ⟨(), .nil _, rfl⟩

theorem also (hf : f.Reads ms b) (hg : g.Reads ms' a) (hnew : ∀ m ∈ ms', f.Ignores m.1) :
    (f.also g).Reads (ms ++ ms') (b a) := by
  obtain ⟨s, hs, hb⟩ := hf
  obtain ⟨t, ht, ha⟩ := hg
  refine ⟨(s, t), (hs.left g.empty).append (ht.right hnew s), ?_⟩
  simp [Fields.also, hb, ha]
  rfl

/-- One part more, with the member that was written for it. -/
theorem part (missing unlisted : Option α) (hf : f.Reads ms b) (hd : d j = .ok a)
    (hnew : f.Ignores name) :
    (f.also (Fields.part name d missing unlisted)).Reads (ms ++ [(name, j)]) (b a) := by
  refine hf.also ⟨some a, .cons ?_ (.nil _), rfl⟩ (by simpa using hnew)
  simp [Fields.part, hd]
  rfl

theorem required (hf : f.Reads ms b) (name : String) (hd : d j = .ok a)
    (hnew : f.Ignores name := by simp) :
    (f.also (.required name d)).Reads (ms ++ [(name, j)]) (b a) :=
  hf.part none none hd hnew

theorem default (hf : f.Reads ms b) (name : String) (missing : α) (hd : d j = .ok a)
    (hnew : f.Ignores name := by simp) :
    (f.also (.default name d missing)).Reads (ms ++ [(name, j)]) (b a) :=
  hf.part (some missing) (some missing) hd hnew

theorem nullable {f : Fields (Option α → β)} {b : Option α → β} {a : Option α}
    (hf : f.Reads ms b) (name : String) (hd : Decoder.optional d j = .ok a)
    (hnew : f.Ignores name := by simp) :
    (f.also (.nullable name d)).Reads (ms ++ [(name, j)]) (b a) :=
  hf.part (some none) none hd hnew

/-- One part more, which was left out. -/
theorem leftOut (hf : f.Reads ms b) (name : String) (d : Decoder α) (a : α) :
    (f.also (.default name d a)).Reads ms (b a) := by
  have hmissing : (Fields.default name d a).Reads [] a := ⟨none, .nil _, rfl⟩
  simpa using hf.also hmissing nofun

end Reads

/-- The members of a record whose names are all plain. -/
theorem putAll_of_fills {s s' : g.Slots} (h : g.Fills s ms s') :
    g.putAll s (ms.map fun m => (.plain m.1, m.2)) = .ok s' := by
  induction h with
  | nil => rfl
  | cons hput _ ih =>
    rw [List.map_cons, putAll]
    simpa [Json.MemberName.read, Json.MemberName.text?, bind, Except.bind, hput] using ih

theorem Reads.ofMembers (h : g.Reads ms a) :
    g.ofMembers (ms.map fun m => (.plain m.1, m.2)) = .ok a := by
  obtain ⟨s, hs, ha⟩ := h
  rw [Fields.ofMembers, putAll_of_fills hs]
  exact ha

theorem Reads.decode_object (h : g.Reads ms a) : g.decode (.object ms) = .ok a := h.ofMembers

/-! ## Records in records -/

theorem putOwn_of_fills {s s' : f.Slots} (h : f.Fills s ms s')
    (kept : List (Json.MemberName × Json)) :
    f.putOwn s kept (ms.map fun m => (.plain m.1, m.2)) = .ok (s', kept) := by
  induction h with
  | nil => rfl
  | cons hput _ ih =>
    rw [List.map_cons, putOwn]
    simpa [Json.MemberName.read, Json.MemberName.text?, bind, Except.bind, hput] using ih

/-- Members that are no parts of `f` are kept. -/
theorem putOwn_of_ignores (hnew : ∀ m ∈ ms', f.Ignores m.1) (hread : ∀ m ∈ ms', m.2.readable)
    (s : f.Slots) (kept rest : List (Json.MemberName × Json)) :
    f.putOwn s kept ((ms'.map fun m => (.plain m.1, m.2)) ++ rest) =
      f.putOwn s ((ms'.map fun m => (.plain m.1, m.2)).reverse ++ kept) rest := by
  induction ms' generalizing kept with
  | nil => rfl
  | cons m ms' ih =>
    rw [List.forall_mem_cons] at hnew hread
    rw [List.map_cons, List.cons_append, List.reverse_cons, List.append_assoc, putOwn]
    simpa [Json.MemberName.read, Json.MemberName.text?, bind, Except.bind, hnew.1 _ s, hread.1]
      using ih hnew.2 hread.2 _

/-- A record whose first members make a value of their own. -/
theorem Reads.decodeAround_object (hf : f.Reads ms b) (hg : g.Reads ms' a)
    (hnew : ∀ m ∈ ms', f.Ignores m.1) (hread : ∀ m ∈ ms', m.2.readable) :
    f.decodeAround g (.object (ms' ++ ms)) = .ok (b a) := by
  obtain ⟨s, hs, hb⟩ := hf
  rw [Json.object, List.map_append, decodeAround, putOwn_of_ignores hnew hread, putOwn_of_fills hs]
  simp [bind, Except.bind, hb, hg.ofMembers, Pure.pure, Except.pure]

end Fields

end BlockPuzzle
