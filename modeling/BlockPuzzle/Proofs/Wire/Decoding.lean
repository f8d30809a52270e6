import BlockPuzzle.Proofs.Json.Items
import BlockPuzzle.Proofs.Results
import BlockPuzzle.Proofs.Wire.Board
import BlockPuzzle.Proofs.Wire.Program

/-!
# What is taken out of texts

Whatever a text holds, the values that are taken out of it keep to what their decoders ask for:
numbers fit into their words, and a grid has no more cells than the text has characters.

The parts of a record come in any order, so that what holds of the parts read so far is kept by
every member.

## Main definitions

* `Decoder.Gives`: what holds of all values that a decoder takes out.
* `Fields.Gives`: what holds of all records.
* `Grid.FitsInto`, `Level.FitsInto`: a grid, and a level, for which a text has room.

## Main statements

* `Fields.Gives.also`, `Fields.Gives.decode`: records are as their parts are.
* `Decoder.Gives.ofText`: the number of items is bounded by the length of the text.
* `Level.gives_ofJson`, `Block.gives_ofJson`: what a text can give for a level and for a block.
-/

namespace BlockPuzzle

variable {α β : Type} {n : Nat} {d : Decoder α} {P : α → Prop}

/-! ## Values -/

/-- All values that are taken out of JSON with at most `n` items satisfy `P`. -/
def Decoder.Gives (n : Nat) (d : Decoder α) (P : α → Prop) : Prop :=
  ∀ j a, j.items ≤ n → d j = .ok a → P a

namespace Decoder

theorem gives_true (n : Nat) (d : Decoder α) : d.Gives n fun _ => True := fun _ _ _ _ => trivial

theorem gives_int (n : Nat) (low high : Int) :
    (int low high).Gives n fun i => low ≤ i ∧ i ≤ high := by
  intro j i _ h
  cases j with
  | int m =>
    rw [int] at h
    split at h
    · next hroom =>
      cases h
      exact hroom
    · cases h
  | _ => cases h

theorem gives_signed (n : Nat) (w : Width) : (signed w).Gives n w.HasRoom := gives_int n _ _

theorem gives_nat (n : Nat) (w : Width) : Gives n (nat w) (· < w.size) := by
  intro j m hj h
  obtain ⟨i, hint, rfl⟩ := exists_of_map_eq_ok h
  have hroom := gives_int n _ _ j i hj hint
  omega

theorem Gives.optional (hd : d.Gives n P) : (optional d).Gives n fun o => ∀ a ∈ o, P a := by
  intro j o hj h
  unfold Decoder.optional at h
  split at h
  · cases h
    exact nofun
  · obtain ⟨a, ha, rfl⟩ := exists_of_map_eq_ok h
    intro b hb
    cases hb
    exact hd j a hj ha

/-- A list is taken out item by item. -/
theorem exists_of_list {j : Json} {as : List α} (h : list d j = .ok as) :
    ∃ js, j = .list js ∧ List.Forall₂ (fun k a => d k = .ok a) js as := by
  cases j with
  | list js => exact ⟨js, rfl, forall₂_of_mapM_eq_ok h⟩
  | _ => cases h

theorem Gives.list (hd : d.Gives n P) : (list d).Gives n fun as => ∀ a ∈ as, P a := by
  intro j as hj h
  obtain ⟨js, rfl, hall⟩ := exists_of_list h
  rw [Json.items] at hj
  clear h
  induction hall with
  | nil => exact List.forall_mem_nil _
  | @cons k a js as hk _ ih =>
    rw [Json.itemsAll] at hj
    exact List.forall_mem_cons.2 ⟨hd k a (by omega) hk, ih (by omega)⟩

theorem length_of_list {j : Json} {as : List α} (h : list d j = .ok as) : as.length ≤ j.items := by
  obtain ⟨js, rfl, hall⟩ := exists_of_list h
  rw [← hall.length_eq, Json.items]
  exact Json.length_le_itemsAll js

/-- The lists in a list have items of their own. -/
theorem length_flatten_of_list {j : Json} {rows : List (List α)}
    (h : list (list d) j = .ok rows) : rows.flatten.length + rows.length ≤ j.items := by
  obtain ⟨js, rfl, hall⟩ := exists_of_list h
  rw [Json.items]
  clear h
  induction hall with
  | nil => exact Nat.zero_le _
  | @cons k row js rows hk _ ih =>
    have hrow := length_of_list hk
    rw [List.flatten_cons, List.length_append, List.length_cons, Json.itemsAll]
    omega

theorem ofText_eq_ok {s : String} {a : α} :
    ofText d s = .ok a ↔ d (Json.read s).value = .ok a ∧ (Json.read s).complete := by
  rw [ofText]
  cases d (Json.read s).value with
  | error e => simp [bind, Except.bind]
  | ok b =>
    cases (Json.read s).complete <;> simp [bind, Except.bind, pure, Except.pure]

/-- What is taken out of a text is taken out of JSON that has no more items than the text has
characters. -/
theorem Gives.ofText {s : String} {a : α} (hd : d.Gives s.length P) (h : ofText d s = .ok a) :
    P a :=
  hd _ a (Json.items_read_le s) (ofText_eq_ok.1 h).1

end Decoder

/-! ## Records -/

namespace Fields

variable {f : Fields (α → β)} {g : Fields α} {R : β → Prop}

/-- Of the parts that have been read something holds that every member keeps and that makes the
record satisfy `P`. No member has more than `n` items. -/
structure Gives (n : Nat) (g : Fields α) (P : α → Prop) : Prop where
  members : ∃ Kept : g.Slots → Prop, Kept g.empty ∧
    (∀ name j s s', j.items ≤ n → Kept s → g.put name j s = some (.ok s') → Kept s') ∧
    ∀ s a, Kept s → g.close s = .ok a → P a
  items : ∀ js a rest, (∀ j ∈ js, j.items ≤ n) → g.ofItems js = .ok (a, rest) →
    P a ∧ ∀ j ∈ rest, j.items ≤ n

namespace Gives

theorem pure {a : α} (h : P a) : (Fields.pure a).Gives n P where
  members := by
    refine ⟨fun _ => True, trivial, fun _ _ _ _ _ _ _ => trivial, ?_⟩
    intro s b _ hclose
    cases hclose
    exact h
  items js b rest hjs hb := by
    cases hb
    exact ⟨h, hjs⟩

theorem part (name : String) {missing unlisted : Option α} (hd : d.Gives n P)
    (hmissing : ∀ a ∈ missing, P a) (hunlisted : ∀ a ∈ unlisted, P a) :
    (Fields.part name d missing unlisted).Gives n P where
  members := by
    refine ⟨fun (slot : Option α) => ∀ a ∈ slot, P a, nofun, ?_, ?_⟩
    · intro k j slot slot' hj hslot hput
      simp only [Fields.part] at hput
      split at hput
      · cases slot with
        -- A part that is given twice is a fault.
        | some b => cases hput
        | none =>
          obtain ⟨b, hb, rfl⟩ := exists_of_map_eq_ok (Option.some.inj hput)
          intro a ha
          cases ha
          exact hd j b hj hb
      · cases hput
    · intro slot a hslot hclose
      cases slot with
      | some b =>
        cases hclose
        exact hslot a rfl
      | none =>
        cases missing with
        | none => cases hclose
        | some b =>
          cases hclose
          exact hmissing _ rfl
  items := by
    intro js a rest hjs hitems
    cases js with
    | nil =>
      cases unlisted with
      | none => cases hitems
      | some b =>
        cases hitems
        exact ⟨hunlisted _ rfl, hjs⟩
    | cons j js =>
      rw [List.forall_mem_cons] at hjs
      obtain ⟨b, hb, hitems⟩ := exists_of_bind_eq_ok hitems
      cases hitems
      exact ⟨hd j a hjs.1 hb, hjs.2⟩

theorem also (hf : f.Gives n fun b => ∀ a, P a → R (b a)) (hg : g.Gives n P) :
    (f.also g).Gives n R where
  members := by
    obtain ⟨KeptF, hemptyF, hputF, hcloseF⟩ := hf.members
    obtain ⟨KeptG, hemptyG, hputG, hcloseG⟩ := hg.members
    -- A member is taken by one of the two, and what the other has read stays.
    refine ⟨fun s => KeptF s.1 ∧ KeptG s.2, ⟨hemptyF, hemptyG⟩, ?_, ?_⟩
    · rintro name j ⟨s, t⟩ u hj ⟨hs, ht⟩ hput
      simp only [Fields.also] at hput
      split at hput
      · next r hr =>
        obtain ⟨s', rfl, rfl⟩ := exists_of_map_eq_ok (Option.some.inj hput)
        exact ⟨hputF name j s s' hj hs hr, ht⟩
      · obtain ⟨r, hr, hput⟩ := Option.map_eq_some_iff.1 hput
        obtain ⟨t', rfl, rfl⟩ := exists_of_map_eq_ok hput
        exact ⟨hs, hputG name j t t' hj ht hr⟩
    · rintro ⟨s, t⟩ b ⟨hs, ht⟩ hclose
      obtain ⟨b', hb, hclose⟩ := exists_of_bind_eq_ok hclose
      obtain ⟨a, ha, hclose⟩ := exists_of_bind_eq_ok hclose
      cases hclose
      exact hcloseF s b' hs hb a (hcloseG t a ht ha)
  items := by
    intro js b rest hjs hitems
    obtain ⟨⟨b', js'⟩, hb, hitems⟩ := exists_of_bind_eq_ok hitems
    obtain ⟨⟨a, js''⟩, ha, hitems⟩ := exists_of_bind_eq_ok hitems
    cases hitems
    obtain ⟨hresult, hjs'⟩ := hf.items js b' js' hjs hb
    obtain ⟨hpart, hrest⟩ := hg.items js' a rest hjs' ha
    exact ⟨hresult a hpart, hrest⟩

theorem required (hf : f.Gives n fun b => ∀ a, P a → R (b a)) (name : String)
    (hd : d.Gives n P) : (f.also (.required name d)).Gives n R :=
  hf.also (part name hd nofun nofun)

theorem default {a : α} (hf : f.Gives n fun b => ∀ a, P a → R (b a)) (name : String)
    (hd : d.Gives n P) (ha : P a) : (f.also (.default name d a)).Gives n R := by
  have hmissing : ∀ b ∈ some a, P b := by
    intro b hb
    cases hb
    exact ha
  exact hf.also (part name hd hmissing hmissing)

theorem nullable {f : Fields (Option α → β)}
    (hf : f.Gives n fun b => ∀ o : Option α, (∀ a ∈ o, P a) → R (b o)) (name : String)
    (hd : d.Gives n P) : (f.also (.nullable name d)).Gives n R := by
  have hmissing : ∀ o ∈ some (none : Option α), ∀ a ∈ o, P a := by
    intro o ho
    cases ho
    exact nofun
  exact hf.also (part name hd.optional hmissing nofun)

end Gives

theorem putAll_induction {Kept : g.Slots → Prop} {ms : List (Json.MemberName × Json)}
    {s s' : g.Slots}
    (hput : ∀ name j s s', j.items ≤ n → Kept s → g.put name j s = some (.ok s') → Kept s')
    (hms : Json.itemsIn ms ≤ n) (hs : Kept s) (h : g.putAll s ms = .ok s') : Kept s' := by
  induction ms generalizing s with
  | nil =>
    cases h
    exact hs
  | cons m ms ih =>
    obtain ⟨name, j⟩ := m
    rw [Json.itemsIn] at hms
    have ih' {s : g.Slots} := @ih s (by omega)
    obtain ⟨k, -, h⟩ := exists_of_bind_eq_ok h
    split at h
    · next r hr =>
      obtain ⟨t, rfl, h⟩ := exists_of_bind_eq_ok h
      exact ih' (hput k j s t (by omega) hs hr) h
    · obtain ⟨-, -, h⟩ := exists_of_bind_eq_ok h
      exact ih' hs h

/-- Records are as their parts are. -/
theorem Gives.decode (hg : g.Gives n P) : g.decode.Gives n P := by
  intro j a hj h
  cases j with
  | record ms =>
    obtain ⟨Kept, hempty, hput, hclose⟩ := hg.members
    obtain ⟨s, hs, h⟩ := exists_of_bind_eq_ok h
    exact hclose s a (putAll_induction hput hj hempty hs) h
  | list js =>
    have hjs : ∀ k ∈ js, k.items ≤ n := by
      intro k hk
      have := Json.items_lt_itemsAll hk
      rw [Json.items] at hj
      omega
    obtain ⟨⟨b, rest⟩, hb, h⟩ := exists_of_bind_eq_ok h
    dsimp only at h
    split at h
    · cases h
      exact (hg.items js a rest hjs hb).1
    · cases h
  | _ => cases h

end Fields

/-! ## Levels and programs -/

/-- A text of `n` characters has room for the grid. -/
def Grid.FitsInto (n : Nat) (g : Grid) : Prop := g.rows.flatten.length + g.height ≤ n

theorem Grid.gives_ofJson (n : Nat) : Decoder.Gives n Grid.ofJson (Grid.FitsInto n) := by
  intro j g hj h
  obtain ⟨rows, hrows, rfl⟩ := exists_of_map_eq_ok h
  exact Nat.le_trans (Decoder.length_flatten_of_list hrows) hj

/-- All numbers have room in their words, and a text of `n` characters has room for the grid. -/
structure Level.FitsInto (n : Nat) (l : Level) : Prop extends l.Fits where
  grid : l.grid.FitsInto n

theorem Level.gives_ofJson (n : Nat) : Level.ofJson.Gives n (Level.FitsInto n) := by
  have hgives : Level.fields.Gives n (Level.FitsInto n) := by
    refine Fields.Gives.pure ?_
      |>.default "id" (Decoder.gives_nat n .word) (by decide)
      |>.default "world_id" (Decoder.gives_nat n .word) (by decide)
      |>.default "title" (Decoder.gives_true n _) trivial
      |>.required "grid" (Grid.gives_ofJson n)
      |>.required "start_row" (Decoder.gives_signed n .word)
      |>.required "start_col" (Decoder.gives_signed n .word)
      |>.default "start_dir" (Decoder.gives_true n _) trivial
      |>.default "available_blocks" (Decoder.gives_true n _) trivial
      |>.default "optimal_steps" (Decoder.gives_nat n .word) (by decide)
      |>.default "hint" (Decoder.gives_true n _) trivial
    intro id hid world hworld title _ grid hgrid row hrow col hcol facing _ palette _ steps hsteps
      hint _
    exact {
      id := hid
      world := hworld
      start := ⟨hrow, hcol⟩
      optimalSteps := hsteps
      grid := hgrid }
  exact hgives.decode

theorem Block.gives_ofJson (n : Nat) : Block.ofJson.Gives n Block.Fits := by
  have hgives : (Block.fields false).Gives n Block.Fits := by
    refine Fields.Gives.pure ?_
      |>.required "id" (Decoder.gives_true n _)
      |>.required "type" (Decoder.gives_true n _)
      |>.default "param" (Decoder.gives_nat n .byte).optional nofun
    intro id _ kind _ param hparam
    exact hparam
  exact hgives.decode

end BlockPuzzle
