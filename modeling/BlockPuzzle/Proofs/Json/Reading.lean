import BlockPuzzle.Json.Reader
import BlockPuzzle.Proofs.Json.Tokens

/-!
# Reading what was written

A value is written without regard to what is around it. So whatever containers are open when its
text is read, the reader comes to its end and puts it into the innermost of them.

## Main definitions

* `Json.Complete`: a value of which nothing is lost when it is written.
* `Json.Reader.Takes`: a text that the reader takes for a value.

## Main statements

* `Json.Complete.takes`: the reader takes in a written value as a whole.
* `Json.read_write`: the document of a written value is that value.
-/

namespace BlockPuzzle.Json

/-- A value of which nothing is lost when it is written: its integers have room in 64 bits, names
need no escapes, and no more than `depth` containers lie inside each other. -/
inductive Complete : Nat → Json → Prop where
  | null {depth : Nat} : Complete depth .null
  | bool {depth : Nat} (b : Bool) : Complete depth (.bool b)
  | int {depth : Nat} {n : Int} (hn : IsLong n) : Complete depth (.int n)
  | text {depth : Nat} (s : String) : Complete depth (.text s)
  | list {depth : Nat} {items : List Json} (hitems : ∀ j ∈ items, Complete depth j) :
    Complete (depth + 1) (.list items)
  | object {depth : Nat} {members : List (String × Json)}
    (hnames : ∀ m ∈ members, isPlain m.1) (hmembers : ∀ m ∈ members, Complete depth m.2) :
    Complete (depth + 1) (object members)

theorem Complete.list_map {α : Type} {depth : Nat} {encode : α → Json} {as : List α}
    (h : ∀ a ∈ as, Complete depth (encode a)) : Complete (depth + 1) (.list (as.map encode)) :=
  .list (List.forall_mem_map.2 h)

theorem writeItems_cons_cons (j k : Json) (js : List Json) :
    writeItems (j :: k :: js) = writeChars j ++ ',' :: writeItems (k :: js) := by
  rw [writeItems]
  exact nofun

theorem writeMembers_cons_cons (m m' : MemberName × Json) (ms : List (MemberName × Json)) :
    writeMembers (m :: m' :: ms) =
      writeText (m.1.text?.getD "") ++ ':' :: writeChars m.2 ++ ',' :: writeMembers (m' :: ms) := by
  rw [writeMembers]
  exact nofun

namespace Reader

variable {j : Json} {frames : List Frame} {expect : Expect} {cs rest : List Char} {t : Token}

theorem run_of_next? (h : Token.next? cs = some (t, rest)) :
    run (.reading expect frames) cs = run (step frames expect t) rest := by
  rw [run]
  split
  · next hnone => rw [h] at hnone; cases hnone
  · next t' rest' hsome =>
    obtain ⟨rfl, rfl⟩ := Prod.mk.inj (Option.some.inj (h.symm.trans hsome))
    rfl

theorem nested_of_length_lt {w : Bool} (h : frames.length < maxNesting) :
    nested frames j w = j := by
  have hdrop : frames.drop (maxNesting - 1) = [] := List.drop_eq_nil_of_le (by omega)
  rw [nested, hdrop]
  rfl

/-- Where the text begins, a value may begin. Whatever may stand behind it, the reader puts `j`
where it belongs, unless too many containers are open. -/
structure Takes (depth : Nat) (cs : List Char) (j : Json) : Prop where
  first : ∀ rest, Ends rest → ∃ t cs', Token.next? (cs ++ rest) = some (t, cs') ∧ t ≠ .closeList
  run : ∀ frames rest, frames.length + depth ≤ maxNesting → Ends rest →
    Reader.run (.reading .value frames) (cs ++ rest) = Reader.run (settle j frames) rest

/-- A value that is a single token. -/
theorem Takes.of_next? {depth : Nat}
    (h : ∀ rest, Ends rest → Token.next? (cs ++ rest) = some (t, rest))
    (hvalue : ∀ frames, value frames t = settle j frames) : Takes depth cs j where
  first rest hrest := by
    refine ⟨t, rest, h rest hrest, ?_⟩
    rintro rfl
    have hnil := hvalue []
    simp [value, fault, settle] at hnil
  run frames rest _ hrest := by
    rw [run_of_next? (h rest hrest)]
    exact congrArg (Reader.run · rest) (hvalue frames)

theorem takes_int (depth : Nat) {n : Int} (hn : IsLong n) : Takes depth (writeInt n) (.int n) :=
  .of_next? (fun _ hrest => Token.next?_writeInt hn hrest) fun _ => rfl

theorem takes_text (depth : Nat) (s : String) : Takes depth (writeText s) (.text s) := by
  refine .of_next? (fun rest _ => Token.next?_writeText s rest) fun frames => ?_
  rw [value, text?_nameFor]
  rfl

/-! ## Lists -/

/-- The items of a list, from one of them on. -/
theorem run_items {depth : Nat} {items acc : List Json}
    (hitems : ∀ i ∈ j :: items, Takes depth (writeChars i) i)
    (hframes : frames.length + 1 + depth ≤ maxNesting) (rest : List Char) :
    run (.reading .value (.list acc :: frames)) (writeItems (j :: items) ++ ']' :: rest) =
      run (settle (.list (acc.reverse ++ j :: items)) frames) rest := by
  induction items generalizing j acc with
  | nil =>
    have hrun := (hitems j List.mem_cons_self).run (.list acc :: frames) (']' :: rest) hframes
      (by simp)
    have hnext : Token.next? (']' :: rest) = some (.closeList, rest) := rfl
    have hclose : close (.list (j :: acc) :: frames) =
        settle (.list (acc.reverse ++ [j])) frames := by
      rw [close, nested_of_length_lt (by omega), List.reverse_cons]
    rw [writeItems, hrun, settle, run_of_next? hnext, ← hclose]
    rfl
  | cons k items ih =>
    have hrun := (hitems j List.mem_cons_self).run (.list acc :: frames)
      (',' :: (writeItems (k :: items) ++ ']' :: rest)) hframes (by simp)
    have hnext (cs : List Char) : Token.next? (',' :: cs) = some (.comma, cs) := rfl
    have hread : acc.reverse ++ j :: k :: items = (j :: acc).reverse ++ k :: items := by simp
    rw [writeItems_cons_cons, List.append_assoc, List.cons_append, hrun, settle,
      run_of_next? (hnext _), hread]
    exact ih fun i hi => hitems i (List.mem_cons_of_mem _ hi)

/-- The first item of a list is read as a value, since it does not begin with the end of the
list. -/
theorem run_first_item {depth : Nat} {items : List Json}
    (hitems : ∀ i ∈ j :: items, Takes depth (writeChars i) i) (frames : List Frame)
    (rest : List Char) :
    run (.reading .first (.list [] :: frames)) (writeItems (j :: items) ++ ']' :: rest) =
      run (.reading .value (.list [] :: frames)) (writeItems (j :: items) ++ ']' :: rest) := by
  obtain ⟨t, cs, hnext, hopen⟩ : ∃ t cs,
      Token.next? (writeItems (j :: items) ++ ']' :: rest) = some (t, cs) ∧ t ≠ .closeList := by
    have hfirst := (hitems j List.mem_cons_self).first
    cases items with
    | nil => exact hfirst (']' :: rest) (by simp)
    | cons k items =>
      rw [writeItems_cons_cons, List.append_assoc]
      exact hfirst _ (by simp)
  rw [run_of_next? hnext, run_of_next? hnext]
  cases t <;> first | rfl | exact absurd rfl hopen

theorem takes_list {depth : Nat} {items : List Json}
    (hitems : ∀ i ∈ items, Takes depth (writeChars i) i) :
    Takes (depth + 1) (writeChars (.list items)) (.list items) where
  first rest _ := ⟨.openList, _, rfl, nofun⟩
  run frames rest hframes _ := by
    have hnext (cs : List Char) : Token.next? ('[' :: cs) = some (.openList, cs) := rfl
    have hwrite : writeChars (.list items) ++ rest = '[' :: (writeItems items ++ ']' :: rest) := by
      simp [writeChars]
    rw [hwrite, run_of_next? (hnext _)]
    cases items with
    | nil =>
      have hend : Token.next? (']' :: rest) = some (.closeList, rest) := rfl
      have hclose : close (.list [] :: frames) = settle (.list []) frames := by
        rw [close, nested_of_length_lt (by omega), List.reverse_nil]
      exact (run_of_next? hend).trans (congrArg (Reader.run · rest) hclose)
    | cons j items =>
      have hlength : frames.length + 1 + depth ≤ maxNesting := by omega
      exact (run_first_item hitems frames rest).trans (run_items hitems hlength rest)

/-! ## Records -/

/-- The name and the value of a member, where a name may stand. -/
theorem run_member {depth : Nat} {name : String} {acc : List (MemberName × Json)}
    (hname : isPlain name) (hj : Takes depth (writeChars j) j)
    (hframes : frames.length + 1 + depth ≤ maxNesting)
    (hexpect : expect = .first ∨ expect = .name) (hrest : Ends rest) :
    run (.reading expect (.record acc :: frames))
        (writeText name ++ ':' :: (writeChars j ++ rest)) =
      run (.reading .more (.record ((.plain name, j) :: acc) :: frames)) rest := by
  have hnext (cs : List Char) : Token.next? (writeText name ++ cs) =
      some (.text (.plain name), cs) := by
    rw [Token.next?_writeText, nameFor, if_pos hname]
  have hcolon (cs : List Char) : Token.next? (':' :: cs) = some (.colon, cs) := rfl
  have hstep : step (.record acc :: frames) expect (.text (.plain name)) =
      .reading .colon (.member acc (.plain name) :: frames) := by
    obtain rfl | rfl := hexpect <;> rfl
  rw [run_of_next? (hnext _), hstep, run_of_next? (hcolon _)]
  exact hj.run (.member acc (.plain name) :: frames) rest hframes hrest

/-- The members of a record, from one of them on. -/
theorem run_members {depth : Nat} {m : String × Json} {ms : List (String × Json)}
    {acc : List (MemberName × Json)} (hnames : ∀ m' ∈ m :: ms, isPlain m'.1)
    (hmembers : ∀ m' ∈ m :: ms, Takes depth (writeChars m'.2) m'.2)
    (hframes : frames.length + 1 + depth ≤ maxNesting)
    (hexpect : expect = .first ∨ expect = .name) (rest : List Char) :
    run (.reading expect (.record acc :: frames))
        (writeMembers ((m :: ms).map fun m => (.plain m.1, m.2)) ++ '\x7d' :: rest) =
      run (settle (.record (acc.reverse ++ (m :: ms).map fun m => (.plain m.1, m.2))) frames)
        rest := by
  induction ms generalizing m acc expect with
  | nil =>
    have hwrite : writeMembers [(.plain m.1, m.2)] ++ '\x7d' :: rest =
        writeText m.1 ++ ':' :: (writeChars m.2 ++ '\x7d' :: rest) := by
      simp [writeMembers, MemberName.text?]
    have hend : Token.next? ('\x7d' :: rest) = some (.closeRecord, rest) := rfl
    have hclose : close (.record ((.plain m.1, m.2) :: acc) :: frames) =
        settle (.record (acc.reverse ++ [(.plain m.1, m.2)])) frames := by
      rw [close, nested_of_length_lt (by omega), List.reverse_cons]
    rw [List.map_singleton, hwrite, run_member (hnames m List.mem_cons_self)
      (hmembers m List.mem_cons_self) hframes hexpect (by simp), run_of_next? hend, ← hclose]
    rfl
  | cons m' ms ih =>
    have hwrite : writeMembers ((m :: m' :: ms).map fun m => (.plain m.1, m.2)) ++ '\x7d' :: rest =
        writeText m.1 ++ ':' :: (writeChars m.2 ++
          ',' :: (writeMembers ((m' :: ms).map fun m => (.plain m.1, m.2)) ++ '\x7d' :: rest)) := by
      simp [writeMembers_cons_cons, MemberName.text?]
    have hnext (cs : List Char) : Token.next? (',' :: cs) = some (.comma, cs) := rfl
    have hread : acc.reverse ++ (m :: m' :: ms).map (fun m => (.plain m.1, m.2)) =
        ((.plain m.1, m.2) :: acc).reverse ++ (m' :: ms).map fun m => (.plain m.1, m.2) := by
      simp
    rw [hwrite, run_member (hnames m List.mem_cons_self) (hmembers m List.mem_cons_self) hframes
      hexpect (by simp), run_of_next? (hnext _), hread]
    exact ih (fun m'' hm => hnames m'' (List.mem_cons_of_mem _ hm))
      (fun m'' hm => hmembers m'' (List.mem_cons_of_mem _ hm)) (.inr rfl)

theorem takes_object {depth : Nat} {members : List (String × Json)}
    (hnames : ∀ m ∈ members, isPlain m.1)
    (hmembers : ∀ m ∈ members, Takes depth (writeChars m.2) m.2) :
    Takes (depth + 1) (writeChars (object members)) (object members) where
  first rest _ := ⟨.openRecord, _, rfl, nofun⟩
  run frames rest hframes _ := by
    have hnext (cs : List Char) : Token.next? ('\x7b' :: cs) = some (.openRecord, cs) := rfl
    have hwrite : writeChars (object members) ++ rest =
        '\x7b' :: (writeMembers (members.map fun m => (.plain m.1, m.2)) ++ '\x7d' :: rest) := by
      simp [object, writeChars]
    rw [hwrite, run_of_next? (hnext _)]
    cases members with
    | nil =>
      have hend : Token.next? ('\x7d' :: rest) = some (.closeRecord, rest) := rfl
      have hclose : close (.record [] :: frames) = settle (.record []) frames := by
        rw [close, nested_of_length_lt (by omega), List.reverse_nil]
      exact (run_of_next? hend).trans (congrArg (Reader.run · rest) hclose)
    | cons m ms =>
      have hlength : frames.length + 1 + depth ≤ maxNesting := by omega
      exact run_members hnames hmembers hlength (.inl rfl) rest

end Reader

/-- The reader takes in a written value as a whole. -/
theorem Complete.takes {depth : Nat} {j : Json} (h : Complete depth j) :
    Reader.Takes depth (writeChars j) j := by
  induction h with
  | null => exact .of_next? (fun _ _ => rfl) fun _ => rfl
  | bool b =>
    cases b with
    | true => exact .of_next? (fun _ _ => rfl) fun _ => rfl
    | false => exact .of_next? (fun _ _ => rfl) fun _ => rfl
  | int hn => exact Reader.takes_int _ hn
  | text s => exact Reader.takes_text _ s
  -- The items are read with the list among the open containers, which leaves one less for them.
  | list _ ih => exact Reader.takes_list ih
  | object hnames _ ih => exact Reader.takes_object hnames ih

theorem read_write {j : Json} (h : Complete maxNesting j) : read j.write = ⟨j, true⟩ := by
  have hrun := h.takes.run [] [] (by simp) ends_nil
  rw [List.append_nil] at hrun
  rw [read, write, String.toList_ofList, readChars, hrun, Reader.settle, Reader.run]
  rfl

end BlockPuzzle.Json
