import BlockPuzzle.Proofs.Wire.Decoding
import BlockPuzzle.Wire.Progress

/-!
# Progress is read back

Every part of a progress may be missing in a text and is filled in then, so that a part that was
lost would not be noticed when the text is read. None is: whatever a progress holds is read back,
the ratings under the numbers of their levels and in the order of these.

## Main definitions

* `Ratings.Fits`, `Streak.Fits`, `EarnedBadge.Fits`, `Progress.Fits`: all numbers have room.

## Main statements

* `Ratings.level?_toDigits`: a number is read back where it is the name of a member.
* `Progress.load_save`: a saved progress is loaded as it was.
* `Progress.fits_of_load`: the numbers of every progress that is loaded have room.
-/

namespace BlockPuzzle

open Json (Complete)

variable {n : Nat}

/-! ## Ratings -/

namespace Ratings

/-- The numbers of the levels and their ratings have room. -/
def Fits (r : Ratings) : Prop := ∀ e ∈ r.entries, e.1 < Width.word.size ∧ e.2 < Width.byte.size

instance (r : Ratings) : Decidable r.Fits := inferInstanceAs (Decidable (∀ e ∈ r.entries, _))

variable {r : Ratings} {es : List (Nat × Nat)} {level stars : Nat}

theorem fits_empty : empty.Fits := List.forall_mem_nil _

theorem Fits.insert (h : r.Fits) (hlevel : level < Width.word.size)
    (hstars : stars < Width.byte.size) : (r.insert level stars).Fits := by
  intro e he
  obtain rfl | he := mem_insertEntry he
  · exact ⟨hlevel, hstars⟩
  · exact h e he

/-! ### Numbers as names -/

theorem isDigit_of_mem_toDigits {c : Char} (hc : c ∈ Nat.toDigits 10 n) : c.isDigit :=
  Nat.isDigit_of_mem_toDigits (by decide) (by decide) hc

theorem level?_toDigits (hn : n < Width.word.size) :
    level? (String.ofList (Nat.toDigits 10 n)) = some n := by
  have hvalue : Nat.ofDigitChars 10 (Nat.toDigits 10 n) 0 = n := Nat.ofDigitChars_ten_toDigits
  have hdigits : (Nat.toDigits 10 n).all Char.isDigit :=
    List.all_eq_true.2 fun c hc => isDigit_of_mem_toDigits hc
  have hzero : (Nat.toDigits 10 n).head? = some '0' → Nat.toDigits 10 n = ['0'] := by
    intro hhead
    obtain ⟨ds, hds⟩ := List.head?_eq_some_iff.1 hhead
    obtain rfl | hpos := Nat.eq_zero_or_pos n
    · rfl
    · exact absurd hds (Json.toDigits_ne_zero_cons hpos ds)
  have hname : Nat.toDigits 10 n ≠ [] ∧ (Nat.toDigits 10 n).all Char.isDigit ∧
      ((Nat.toDigits 10 n).head? = some '0' → Nat.toDigits 10 n = ['0']) ∧
      n < Width.word.size :=
    ⟨Nat.toDigits_ne_nil, hdigits, hzero, hn⟩
  simp only [level?, String.toList_ofList, hvalue]
  exact if_pos hname

theorem lt_of_level? {name : String} (h : level? name = some n) : n < Width.word.size := by
  simp only [level?] at h
  split at h
  · next hname =>
    cases h
    exact hname.2.2.2
  · cases h

theorem isPlain_toDigits (n : Nat) : Json.isPlain (String.ofList (Nat.toDigits 10 n)) := by
  rw [Json.isPlain, String.toList_ofList, List.all_eq_true]
  intro c hc
  have hdigit := isDigit_of_mem_toDigits hc
  have hletter : Json.escapeLetter? c = none := by
    unfold Json.escapeLetter?
    split <;> first | rfl | cases hdigit
  have hcontrol : ¬ c.toNat < 0x20 := by
    simp only [Char.isDigit, Bool.and_eq_true, decide_eq_true_eq] at hdigit
    have hle : '0'.toNat ≤ c.toNat := hdigit.1
    have hzero : '0'.toNat = 48 := rfl
    omega
  rw [Json.pieceOf, hletter, Option.isSome_none, if_neg Bool.false_ne_true, if_neg hcontrol]
  rfl

/-! ### Entries in their order -/

/-- A level behind all others is put at the end. -/
theorem insertEntry_of_forall_lt (h : ∀ e ∈ es, e.1 < level) :
    insertEntry level stars es = es ++ [(level, stars)] := by
  induction es with
  | nil => rfl
  | cons e es ih =>
    obtain ⟨he, hes⟩ := List.forall_mem_cons.1 h
    rw [insertEntry, if_neg (by omega), if_neg (by omega), ih hes, List.cons_append]

theorem ofMembers_entries (hsorted : (r.entries ++ es).Pairwise (·.1 < ·.1))
    (hfits : ∀ e ∈ es, e.1 < Width.word.size ∧ e.2 < Width.byte.size) :
    ofMembers r (es.map fun e => (.plain (String.ofList (Nat.toDigits 10 e.1)), .ofNat e.2)) =
      .ok ⟨r.entries ++ es, hsorted⟩ := by
  induction es generalizing r with
  | nil => simp [ofMembers]
  | cons e es ih =>
    obtain ⟨he, hes⟩ := List.forall_mem_cons.1 hfits
    have hlast : (r.insert e.1 e.2).entries = r.entries ++ [e] := by
      refine insertEntry_of_forall_lt ?_
      intro x hx
      exact (List.pairwise_append.1 hsorted).2.2 x hx e List.mem_cons_self
    have hlevel : (Json.MemberName.plain (String.ofList (Nat.toDigits 10 e.1))).plain?.bind level? =
        some e.1 := level?_toDigits he.1
    have hrest : (r.insert e.1 e.2).entries ++ es = r.entries ++ e :: es := by
      rw [hlast, List.append_assoc, List.singleton_append]
    rw [List.map_cons, ofMembers, hlevel]
    simp only [Decoder.nat_ofNat he.2, bind, Except.bind]
    rw [ih (hrest ▸ hsorted) hes]
    simp only [hrest]

theorem ofJson_toJson (h : r.Fits) : ofJson r.toJson = .ok r := by
  have hread : ofMembers empty
      (r.entries.map fun e => (.plain (String.ofList (Nat.toDigits 10 e.1)), .ofNat e.2)) = .ok r :=
    ofMembers_entries (r := empty) r.sorted h
  rw [toJson, Json.object, List.map_map, ofJson]
  exact hread

theorem complete_toJson (h : r.Fits) (depth : Nat) : Complete (depth + 1) r.toJson := by
  refine .object ?_ ?_ <;> rw [List.forall_mem_map] <;> intro e he
  · exact isPlain_toDigits e.1
  · exact Json.complete_ofNat (h e he).2

theorem Fits.ofMembers {r' : Ratings} {ms : List (Json.MemberName × Json)} (hr : r.Fits)
    (h : r.ofMembers ms = .ok r') : r'.Fits := by
  induction ms generalizing r with
  | nil =>
    cases h
    exact hr
  | cons m ms ih =>
    obtain ⟨name, j⟩ := m
    rw [Ratings.ofMembers] at h
    split at h
    · next level hlevel =>
      obtain ⟨s, -, hname⟩ := Option.bind_eq_some_iff.1 hlevel
      obtain ⟨stars, hstars, h⟩ := exists_of_bind_eq_ok h
      have hfits := Decoder.gives_nat j.items .byte j stars (Nat.le_refl _) hstars
      exact ih (hr.insert (lt_of_level? hname) hfits) h
    · cases h

theorem gives_ofJson (n : Nat) : Decoder.Gives n ofJson Fits := by
  intro j r _ h
  cases j with
  | record ms => exact fits_empty.ofMembers h
  | _ => cases h

end Ratings

/-! ## Streaks and badges -/

namespace Streak

/-- The count and the day have room. -/
structure Fits (s : Streak) : Prop where
  count : s.count < Width.word.size
  lastDay : ∀ day ∈ s.lastDay, Width.long.HasRoom day

variable {s : Streak}

theorem ofJson_toJson (h : s.Fits) : ofJson s.toJson = .ok s := by
  have hday : Decoder.optional (Decoder.signed .long) ((s.lastDay.map Json.int).getD .null) =
      .ok s.lastDay :=
    Decoder.optional_map (fun day hday => Decoder.signed_int (h.lastDay day hday)) nofun
  have hread := Fields.Reads.pure Streak.mk
    |>.required "count" (Decoder.nat_ofNat h.count)
    |>.nullable "last_day" hday
  exact hread.decode_object

theorem complete_toJson (h : s.Fits) (depth : Nat) : Complete (depth + 1) s.toJson := by
  have hday : Complete depth ((s.lastDay.map Json.int).getD .null) := by
    cases hlast : s.lastDay with
    | none => exact .null
    | some day => exact Json.complete_int (h.lastDay day hlast)
  refine .object ?_ ?_ <;> simp only [List.forall_mem_cons]
  · decide
  · exact ⟨Json.complete_ofNat h.count, hday, List.forall_mem_nil _⟩

theorem gives_ofJson (n : Nat) : ofJson.Gives n Fits := by
  have hgives : fields.Gives n Fits := by
    refine Fields.Gives.pure ?_
      |>.required "count" (Decoder.gives_nat n .word)
      |>.nullable "last_day" (Decoder.gives_signed n .long)
    intro count hcount lastDay hday
    exact ⟨hcount, hday⟩
  exact hgives.decode

end Streak

namespace EarnedBadge

/-- The day has room. -/
def Fits (b : EarnedBadge) : Prop := Width.long.HasRoom b.day

instance (b : EarnedBadge) : Decidable b.Fits := inferInstanceAs (Decidable (Width.HasRoom _ _))

variable {b : EarnedBadge}

theorem ofJson_toJson (h : b.Fits) : ofJson b.toJson = .ok b := by
  have hread := Fields.Reads.pure EarnedBadge.mk
    |>.required "id" (Decoder.text_text b.id)
    |>.required "name" (Decoder.text_text b.name)
    |>.required "icon" (Decoder.text_text b.icon)
    |>.required "earned_day" (Decoder.signed_int h)
  exact hread.decode_object

theorem complete_toJson (h : b.Fits) (depth : Nat) : Complete (depth + 1) b.toJson := by
  refine .object ?_ ?_ <;> simp only [List.forall_mem_cons]
  · decide
  · exact ⟨.text _, .text _, .text _, Json.complete_int h, List.forall_mem_nil _⟩

theorem gives_ofJson (n : Nat) : ofJson.Gives n Fits := by
  have hgives : fields.Gives n Fits := by
    refine Fields.Gives.pure ?_
      |>.required "id" (Decoder.gives_true n _)
      |>.required "name" (Decoder.gives_true n _)
      |>.required "icon" (Decoder.gives_true n _)
      |>.required "earned_day" (Decoder.gives_signed n .long)
    intro id _ name _ icon _ day hday
    exact hday
  exact hgives.decode

end EarnedBadge

/-! ## Progress -/

namespace Progress

/-- All numbers have room. -/
structure Fits (p : Progress) : Prop where
  completed : ∀ l ∈ p.completed, l < Width.word.size
  stars : p.stars.Fits
  streak : p.streak.Fits
  unlockedWorlds : ∀ w ∈ p.unlockedWorlds, w < Width.word.size
  badges : ∀ b ∈ p.badges, b.Fits

variable {p : Progress} {s : String}

theorem ofJson_toJson (h : p.Fits) : ofJson p.toJson = .ok p := by
  have hcompleted : Decoder.list (Decoder.nat .word) (.list (p.completed.map Json.ofNat)) =
      .ok p.completed :=
    Decoder.list_map fun l hl => Decoder.nat_ofNat (h.completed l hl)
  have hworlds : Decoder.list (Decoder.nat .word) (.list (p.unlockedWorlds.map Json.ofNat)) =
      .ok p.unlockedWorlds :=
    Decoder.list_map fun w hw => Decoder.nat_ofNat (h.unlockedWorlds w hw)
  have hbadges : Decoder.list EarnedBadge.ofJson (.list (p.badges.map EarnedBadge.toJson)) =
      .ok p.badges :=
    Decoder.list_map fun b hb => EarnedBadge.ofJson_toJson (h.badges b hb)
  have hread := Fields.Reads.pure Progress.mk
    |>.default "completed" [] hcompleted
    |>.default "stars" .empty (Ratings.ofJson_toJson h.stars)
    |>.default "streak" {} (Streak.ofJson_toJson h.streak)
    |>.default "unlocked_worlds" [1] hworlds
    |>.default "full_unlock" false (Decoder.bool_bool p.fullUnlock)
    |>.default "badges" [] hbadges
  exact hread.decode_object

theorem complete_toJson (h : p.Fits) (depth : Nat) : Complete (depth + 3) p.toJson := by
  refine .object ?_ ?_ <;> simp only [List.forall_mem_cons]
  · decide
  · exact ⟨.list_map fun l hl => Json.complete_ofNat (h.completed l hl),
      Ratings.complete_toJson h.stars _, Streak.complete_toJson h.streak _,
      .list_map fun w hw => Json.complete_ofNat (h.unlockedWorlds w hw), .bool _,
      .list_map fun b hb => EarnedBadge.complete_toJson (h.badges b hb) depth,
      List.forall_mem_nil _⟩

theorem load_save (h : p.Fits) : load p.save = .ok p := by
  rw [load, save, Decoder.ofText_write (complete_toJson h 124)]
  exact ofJson_toJson h

theorem fits_empty : ({} : Progress).Fits where
  completed := nofun
  stars := Ratings.fits_empty
  streak := ⟨by decide, nofun⟩
  unlockedWorlds := by decide
  badges := nofun

theorem gives_ofJson (n : Nat) : ofJson.Gives n Fits := by
  have hgives : fields.Gives n Fits := by
    refine Fields.Gives.pure ?_
      |>.default "completed" (Decoder.gives_nat n .word).list fits_empty.completed
      |>.default "stars" (Ratings.gives_ofJson n) fits_empty.stars
      |>.default "streak" (Streak.gives_ofJson n) fits_empty.streak
      |>.default "unlocked_worlds" (Decoder.gives_nat n .word).list fits_empty.unlockedWorlds
      |>.default "full_unlock" (Decoder.gives_true n _) trivial
      |>.default "badges" (EarnedBadge.gives_ofJson n).list fits_empty.badges
    intro completed hcompleted stars hstars streak hstreak worlds hworlds full _ badges hbadges
    exact ⟨hcompleted, hstars, hstreak, hworlds, hbadges⟩
  exact hgives.decode

theorem fits_of_load (h : load s = .ok p) : p.Fits := (gives_ofJson s.length).ofText h

end Progress

end BlockPuzzle
