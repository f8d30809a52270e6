import BlockPuzzle.Json.Reader

/-!
# How much a text holds

Every item of a list takes up room in the text that it is read from. So whatever a text holds, the
lists in it have no more items than the text has characters. This is also true of a text that goes
wrong, where a piece that is unreadable may be one item more.

## Main definitions

* `Json.items`: how many items all lists in a value have.
* `Json.Reader.items`: how many items a reader has come upon.

## Main statements

* `Json.Reader.items_step_le`: one token brings one item at most.
* `Json.items_read_le`: a text has room for all items in it.
-/

namespace BlockPuzzle.Json

mutual

/-- How many items all lists in a value have. -/
def items : Json → Nat
  | .null | .bool _ | .int _ | .decimal | .text _ | .unreadable _ => 0
  | .list js => itemsAll js
  | .record ms => itemsIn ms

/-- The items of a list and of the lists in them. -/
def itemsAll : List Json → Nat
  | [] => 0
  | j :: js => j.items + 1 + itemsAll js

/-- The items of all lists in the members of a record. -/
def itemsIn : List (MemberName × Json) → Nat
  | [] => 0
  | (_, j) :: ms => j.items + itemsIn ms

end

variable {j : Json} {js : List Json} {ms : List (MemberName × Json)} {f : Frame}
  {frames : List Frame} {t : Token} {cs rest : List Char}

theorem itemsAll_reverseAux (js ks : List Json) :
    itemsAll (js.reverseAux ks) = itemsAll js + itemsAll ks := by
  induction js generalizing ks with
  | nil => simp [itemsAll]
  | cons j js ih => simp only [List.reverseAux_cons, ih, itemsAll]; omega

@[simp] theorem itemsAll_reverse (js : List Json) : itemsAll js.reverse = itemsAll js :=
  itemsAll_reverseAux js []

theorem itemsIn_reverseAux (ms ns : List (MemberName × Json)) :
    itemsIn (ms.reverseAux ns) = itemsIn ms + itemsIn ns := by
  induction ms generalizing ns with
  | nil => simp [itemsIn]
  | cons m ms ih => simp only [List.reverseAux_cons, ih, itemsIn]; omega

@[simp] theorem itemsIn_reverse (ms : List (MemberName × Json)) :
    itemsIn ms.reverse = itemsIn ms :=
  itemsIn_reverseAux ms []

theorem items_lt_itemsAll (h : j ∈ js) : j.items < itemsAll js := by
  induction js with
  | nil => cases h
  | cons k js ih =>
    rw [itemsAll]
    obtain rfl | h := List.mem_cons.1 h
    · omega
    · have := ih h
      omega

theorem length_le_itemsAll (js : List Json) : js.length ≤ itemsAll js := by
  induction js with
  | nil => exact Nat.zero_le _
  | cons j js ih => rw [List.length_cons, itemsAll]; omega

/-! ## Tokens -/

/-- A token has no lists in it. -/
def Token.items : Token → Nat
  | .scalar j => j.items
  | _ => 0

theorem items_unsigned? {negative : Bool} {r : Json × List Char}
    (h : unsigned? negative cs = some r) : r.1.items = 0 := by
  simp only [unsigned?, bind, Option.bind_eq_some_iff, pure, Option.some.injEq] at h
  obtain ⟨w, -, f, -, e, -, rfl⟩ := h
  dsimp only
  split
  · rfl
  · split <;> rfl

theorem Token.items_next? (h : Token.next? cs = some (t, rest)) : t.items = 0 := by
  unfold Token.next? at h
  split at h
  · cases h
  · unfold tokenAt? at h
    split at h
    all_goals
      first
      | (cases h; rfl)
      | skip
    · obtain ⟨r, -, hr⟩ := Option.map_eq_some_iff.1 h
      cases hr
      rfl
    · obtain ⟨r, hread, hr⟩ := Option.map_eq_some_iff.1 h
      cases hr
      exact items_unsigned? hread
    · obtain ⟨r, hread, hr⟩ := Option.map_eq_some_iff.1 h
      cases hr
      exact items_unsigned? hread

/-! ## Open containers -/

/-- What the container will bring into the one around it. One item is for itself, or for the piece
with which it breaks off. -/
def Frame.items : Frame → Nat
  | .list js => itemsAll js + 1
  | .record ms | .member ms _ => itemsIn ms + 1

namespace Reader

/-- What all open containers will bring. -/
def held : List Frame → Nat
  | [] => 0
  | f :: fs => f.items + held fs

/-- How many items the reader has come upon. -/
def items : Reader → Nat
  | .reading _ frames => held frames
  | .done d => d.value.items

theorem items_nested_le (frames : List Frame) (j : Json) (w : Bool) :
    (nested frames j w).items ≤ j.items := by
  unfold nested
  split
  · exact Nat.le_refl _
  · exact Nat.zero_le _

theorem items_frame_breakOff_le (j : Json) (f : Frame) :
    (f.breakOff j).items ≤ j.items + f.items := by
  cases f <;>
    simp only [Frame.breakOff, Json.items, itemsAll_reverse, itemsIn_reverse, itemsAll, itemsIn,
      Frame.items] <;> omega

theorem items_breakOff_le (j : Json) (frames : List Frame) :
    (breakOff j frames).items ≤ j.items + held frames := by
  induction frames generalizing j with
  | nil => exact Nat.le_refl _
  | cons f fs ih =>
    have hrest := ih (nested fs (f.breakOff j) false)
    have hnested := items_nested_le fs (f.breakOff j) false
    have hframe := items_frame_breakOff_le j f
    rw [breakOff, held]
    omega

theorem items_fault_le (frames : List Frame) : (fault frames).items ≤ held frames := by
  simpa [fault, items, Json.items] using items_breakOff_le (.unreadable false) frames

theorem items_settle_le (j : Json) (frames : List Frame) :
    (settle j frames).items ≤ j.items + 1 + held frames := by
  unfold settle
  split
  · simp only [items]
    omega
  · simp only [items, held, Frame.items, itemsAll]
    omega
  · simp only [items, held, Frame.items, itemsIn]
    omega
  · next ms fs =>
    have := items_fault_le (.record ms :: fs)
    omega

/-- The container becomes an item of the one around it, for which it has kept room. -/
theorem items_close_le (frames : List Frame) : (close frames).items ≤ held frames := by
  unfold close
  split
  · next js fs =>
    have hsettle := items_settle_le (nested fs (.list js.reverse) true) fs
    have hnested := items_nested_le fs (.list js.reverse) true
    simp only [Json.items, itemsAll_reverse] at hnested
    simp only [held, Frame.items]
    omega
  · next ms fs =>
    have hsettle := items_settle_le (nested fs (.record ms.reverse) true) fs
    have hnested := items_nested_le fs (.record ms.reverse) true
    simp only [Json.items, itemsIn_reverse] at hnested
    simp only [held, Frame.items]
    omega
  · exact items_fault_le frames

theorem items_value_le (frames : List Frame) (t : Token) :
    (value frames t).items ≤ held frames + t.items + 1 := by
  have hfault := items_fault_le frames
  cases t with
  | openList => simp only [value, items, held, Frame.items, itemsAll]; omega
  | openRecord => simp only [value, items, held, Frame.items, itemsIn]; omega
  | scalar j =>
    have := items_settle_le j frames
    simp only [value, Token.items]
    omega
  | text s =>
    have hsettle := items_settle_le ((s.text?.map Json.text).getD (.unreadable true)) frames
    have htext : ((s.text?.map Json.text).getD (.unreadable true)).items = 0 := by
      cases s.text? <;> rfl
    simp only [value]
    omega
  | _ => simp only [value]; omega

theorem items_name_le (frames : List Frame) (t : Token) :
    (name frames t).items ≤ held frames := by
  have hfault := items_fault_le frames
  unfold name
  split
  · split
    · exact Nat.le_refl _
    · exact hfault
  · exact hfault

/-- One token brings one item at most. -/
theorem items_step_le (frames : List Frame) (expect : Expect) (t : Token) :
    (step frames expect t).items ≤ held frames + t.items + 1 := by
  have hfault := items_fault_le frames
  have hvalue := items_value_le frames t
  have hname := items_name_le frames t
  have hclose := items_close_le frames
  unfold step
  split
  · exact hvalue
  · split <;> omega
  · omega
  · simp only [items]
    omega
  · omega
  · split <;> simp only [items] at * <;> omega

theorem items_run_le (r : Reader) (cs : List Char) :
    (run r cs).value.items ≤ r.items + cs.length := by
  fun_induction run r cs with
  | case1 cs d => exact Nat.le_add_right _ _
  | case2 cs expect frames hnone =>
    have := items_breakOff_le (.unreadable false) frames
    simp only [Json.items, items] at *
    omega
  | case3 cs expect frames t rest hnext ih =>
    -- The item that a token may bring is paid for by the first character of the token.
    have hstep := items_step_le frames expect t
    have htoken := Token.items_next? hnext
    have hless := Token.length_next?_lt hnext
    simp only [items] at *
    omega

end Reader

/-- A text has room for all items in it. -/
theorem items_read_le (s : String) : (read s).value.items ≤ s.length := by
  have hrun := Reader.items_run_le (.reading .value []) s.toList
  rw [Reader.items, Reader.held, Nat.zero_add, String.length_toList] at hrun
  exact hrun

end BlockPuzzle.Json
