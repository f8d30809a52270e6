import BlockPuzzle.Exchange
import BlockPuzzle.Proofs.Run.Targets
import BlockPuzzle.Proofs.Wire.Reports

/-!
# The engine by texts agrees with the engine

A client that gives texts gets the report that the values in these texts lead to, or else a record
that says what went wrong. The two are told apart by their members: a report has a member `error`,
too, but never that one alone. There is no text exactly where the run breaks off, and that can only
happen at the very edge of the range of positions.

## Main definitions

* `Decoder.Accepts`: a text holds a value.
* `Exchange.Answers`, `Exchange.Fails`: a text that holds a report, and one that says what went
  wrong.
* `Exchange.Agrees`: a text, or none, as a run leads to it.

## Main statements

* `Exchange.answers_answer`, `Exchange.fails_answer`: what is answered is one of the two.
* `Exchange.answers_agree`: the texts that a client gets, for all texts that it may give.
* `Exchange.runProgramWithLimits_edge`: the levels on which there may be none.
-/

namespace BlockPuzzle

/-- The text holds a value. -/
def Decoder.Accepts {α : Type} (d : Decoder α) (s : String) : Prop := ∃ a, ofText d s = .ok a

/-! ## Trees -/

namespace Node

variable {bs : List Block} {b : Block}

theorem mem_of_mem_preorder (h : b ∈ preorderAll (ofBlocks bs)) : b ∈ bs := by
  have hsome : some b ∈ (Block.kept bs).map (bs[·]?) := by
    rw [← map_some_preorder_ofBlocks]
    exact List.mem_map_of_mem h
  obtain ⟨i, -, hi⟩ := List.mem_map.1 hsome
  exact List.mem_of_getElem? hi

end Node

namespace Exchange

/-- The text holds the report `r` and is rated as `r` is. -/
structure Answers (out : String) (r : Report) : Prop where
  report : Decoder.ofText Report.ofJson out = .ok r
  rating : rateResult out = r.rating

/-- There is no text where the run breaks off. Otherwise there is one that holds the report, if its
numbers have room. -/
structure Agrees (text : Except Overflow String) (run : Except Overflow Report) : Prop where
  error_iff : ∀ o, text = .error o ↔ run = .error o
  ok : ∀ r, run = .ok r → r.Fits → ∃ out, text = .ok out ∧ Answers out r

/-- The text is a record with the single member `error`, and it holds no report. -/
structure Fails (out : String) : Prop where
  record : ∃ message, Json.read out = ⟨.object [("error", .text message)], true⟩
  rating : rateResult out = 0

variable {level blocks limits : String} {l : Level} {bs : List Block} {lim : Limits} {r : Report}
  {x : Except Overflow Report}

/-! ## Answers -/

theorem answers_answer (h : r.Fits) : Answers (answer (.ok r.toJson)) r := by
  have hread : Decoder.ofText Report.ofJson (answer (.ok r.toJson)) = .ok r := by
    rw [answer, Decoder.ofText_write (Report.complete_toJson h 122)]
    exact Report.ofJson_toJson h
  refine ⟨hread, ?_⟩
  rw [rateResult, hread]

/-- Where nothing but an error is given, the trace is missed once the error has been looked at. -/
theorem ofJson_error (message : String) :
    Report.ofJson (.object [("error", .text message)]) =
      (Decoder.optional RunError.ofJson (.text message)).bind fun _ => .error .malformed := by
  cases h : Decoder.optional RunError.ofJson (.text message) <;>
    simp [Report.ofJson, Report.fields, Json.object, Fields.decode, Fields.ofMembers, Fields.putAll,
      Fields.also, Fields.required, Fields.nullable, Fields.part, Fields.pure, Json.MemberName.read,
      Json.MemberName.text?, bind, Except.bind, Except.map, h]

theorem exists_ofJson_error (message : String) :
    ∃ e, Report.ofJson (.object [("error", .text message)]) = .error e := by
  rw [ofJson_error]
  cases Decoder.optional RunError.ofJson (.text message) with
  | error e => exact ⟨e, rfl⟩
  | ok _ => exact ⟨.malformed, rfl⟩

theorem read_failure (message : String) :
    Json.read (failure message) = ⟨.object [("error", .text message)], true⟩ := by
  have hcomplete : Json.Complete (126 + 1) (.object [("error", .text message)]) := by
    refine .object ?_ ?_ <;> simp only [List.forall_mem_cons]
    · decide
    · exact ⟨.text message, List.forall_mem_nil _⟩
  exact Json.read_write hcomplete

theorem fails_answer (e : Fault) : Fails (answer (.error e)) := by
  have hread := read_failure e.message
  obtain ⟨e', he'⟩ := exists_ofJson_error e.message
  refine ⟨⟨e.message, hread⟩, ?_⟩
  have hnone : Decoder.ofText Report.ofJson (answer (.error e)) = .error e' := by
    rw [answer, Decoder.ofText, hread]
    simp [he', bind, Except.bind]
  rw [rateResult, hnone]

/-! ## Runs -/

theorem run_eq_ok (hl : Decoder.ofText Level.ofJson level = .ok l)
    (hbs : Decoder.ofText Block.listOfJson blocks = .ok bs)
    (hlim : Decoder.ofText Limits.ofJson limits = .ok lim) :
    run level blocks limits = .ok (runBlocks? bs l lim) := by
  rw [run, hl, hbs, hlim]
  rfl

theorem exists_of_run (h : run level blocks limits = .ok x) :
    ∃ l bs lim, Decoder.ofText Level.ofJson level = .ok l ∧
      Decoder.ofText Block.listOfJson blocks = .ok bs ∧
      Decoder.ofText Limits.ofJson limits = .ok lim ∧ runBlocks? bs l lim = x := by
  obtain ⟨l, hl, h⟩ := exists_of_bind_eq_ok h
  obtain ⟨bs, hbs, h⟩ := exists_of_bind_eq_ok h
  obtain ⟨lim, hlim, h⟩ := exists_of_bind_eq_ok h
  exact ⟨l, bs, lim, hl, hbs, hlim, Except.ok.inj h⟩

theorem ofText_defaults : Decoder.ofText Limits.ofJson "\x7b\x7d" = .ok {} := by decide +kernel

theorem runProgramWithLimits_eq (hl : Decoder.ofText Level.ofJson level = .ok l)
    (hbs : Decoder.ofText Block.listOfJson blocks = .ok bs)
    (hlim : Decoder.ofText Limits.ofJson limits = .ok lim) :
    runProgramWithLimits level blocks limits =
      (runBlocks? bs l lim).map fun r => answer (.ok r.toJson) := by
  rw [runProgramWithLimits, run_eq_ok hl hbs hlim]

theorem agrees_map (x : Except Overflow Report) :
    Agrees (x.map fun r => answer (.ok r.toJson)) x where
  error_iff o := by cases x <;> simp [Except.map]
  ok := by
    rintro r rfl hfits
    exact ⟨_, rfl, answers_answer hfits⟩

theorem fails_runProgramWithLimits (h : ¬ (Decoder.Accepts Level.ofJson level ∧
    Decoder.Accepts Block.listOfJson blocks ∧ Decoder.Accepts Limits.ofJson limits)) :
    ∃ out, runProgramWithLimits level blocks limits = .ok out ∧ Fails out := by
  rw [runProgramWithLimits]
  cases hrun : run level blocks limits with
  | ok x =>
    obtain ⟨l, bs, lim, hl, hbs, hlim, -⟩ := exists_of_run hrun
    exact absurd ⟨⟨l, hl⟩, ⟨bs, hbs⟩, ⟨lim, hlim⟩⟩ h
  | error e => exact ⟨_, rfl, fails_answer e⟩

theorem ofText_structureBlocks (hbs : Decoder.ofText Block.listOfJson blocks = .ok bs)
    (hlevels : Node.levelsAll (Node.ofBlocks bs) ≤ 63) :
    Decoder.ofText Node.forestOfJson (structureBlocks blocks) = .ok (Node.ofBlocks bs) := by
  have hfits : ∀ b ∈ bs, b.Fits := (Block.gives_ofJson _).list.ofText hbs
  have hnodes : ∀ b ∈ Node.preorderAll (Node.ofBlocks bs), b.Fits :=
    fun b hb => hfits b (Node.mem_of_mem_preorder hb)
  rw [structureBlocks, hbs]
  refine (Decoder.ofText_write (.list (Node.complete_listToJson _ 63 hnodes hlevels)) _).trans ?_
  exact Node.ofItems_listToJson _ hnodes

/-- Whatever texts are given: if they hold a level, a program and limits, what is answered holds the
report of the program on the level, under these limits or under the usual ones, and is rated as that
report is, and there is no answer exactly where the run breaks off; and the tree that is answered
for the program runs as the program does, wherever no more than 63 nodes lie inside each other. If
one of the texts holds no such value, what is answered is a record with the single member `error`,
which is rated zero.

The numbers of a report are written as words and have to have room there. They always have where the
text of the level is no longer than 2^31 characters and the steps of the run can be counted in a
word. On a level that has room no run breaks off. -/
theorem answers_agree (level blocks limits : String) :
    (∀ l bs lim, Decoder.ofText Level.ofJson level = .ok l →
        Decoder.ofText Block.listOfJson blocks = .ok bs →
        Decoder.ofText Limits.ofJson limits = .ok lim →
        Agrees (runProgramWithLimits level blocks limits) (runBlocks? bs l lim)) ∧
      (∀ l bs, Decoder.ofText Level.ofJson level = .ok l →
        Decoder.ofText Block.listOfJson blocks = .ok bs →
        Agrees (runProgram level blocks) (runBlocks? bs l)) ∧
      (∀ l bs lim r, Decoder.ofText Level.ofJson level = .ok l →
        2 * level.length ≤ Width.word.size → runBlocks? bs l lim = .ok r →
        r.totalSteps < Width.word.size → r.Fits) ∧
      (∀ l : Level, l.HasRoom → ∀ bs lim, ∃ r, runBlocks? bs l lim = .ok r) ∧
      (∀ bs, Decoder.ofText Block.listOfJson blocks = .ok bs →
        Node.levelsAll (Node.ofBlocks bs) ≤ 63 →
        ∃ ns, Decoder.ofText Node.forestOfJson (structureBlocks blocks) = .ok ns ∧
          ∀ l lim, runNodes? ns l lim = runBlocks? bs l lim) ∧
      (¬ (Decoder.Accepts Level.ofJson level ∧ Decoder.Accepts Block.listOfJson blocks ∧
          Decoder.Accepts Limits.ofJson limits) →
        ∃ out, runProgramWithLimits level blocks limits = .ok out ∧ Fails out) ∧
      (¬ (Decoder.Accepts Level.ofJson level ∧ Decoder.Accepts Block.listOfJson blocks) →
        ∃ out, runProgram level blocks = .ok out ∧ Fails out) := by
  refine ⟨?_, ?_, ?_, ?_, ?_, fails_runProgramWithLimits, ?_⟩
  · intro l bs lim hl hbs hlim
    rw [runProgramWithLimits_eq hl hbs hlim]
    exact agrees_map _
  · intro l bs hl hbs
    rw [runProgram, runProgramWithLimits_eq hl hbs ofText_defaults]
    exact agrees_map _
  · intro l bs lim r hl hlevel hr hsteps
    obtain ⟨-, rfl⟩ := runNodes?_eq_ok.1 hr
    exact ((Level.gives_ofJson _).ofText hl).fits_runNodes hlevel hsteps
  · exact fun l hroom bs lim => ⟨_, runNodes?_of_hasRoom hroom (Node.ofBlocks bs) lim⟩
  · intro bs hbs hlevels
    exact ⟨Node.ofBlocks bs, ofText_structureBlocks hbs hlevels, fun _ _ => rfl⟩
  · intro hnot
    refine fails_runProgramWithLimits fun ⟨hl, hbs, _⟩ => ?_
    exact hnot ⟨hl, hbs⟩

/-- A star between the start and the goal, with the start given last, behind a member that nobody
asks for. -/
def starText : String :=
  "\x7b\"grid\": [[\"start\", \"star\", \"goal\"]], \"note\": [null], \"start_row\": 0, " ++
    "\"start_col\": 0\x7d"

/-- A loop that is not closed around a move to the right. -/
def loopText : String :=
  "[\x7b\"id\": \"a\", \"type\": \"repeat\", \"param\": 2\x7d, [\"b\", \"move_right\"]]"

def loopRight : List Block := [⟨"a", .loop, some 2⟩, ⟨"b", .move .right, none⟩]

def oneStar : Level := { grid := ⟨[[.start, .star, .goal]]⟩, start := ⟨⟨0, 0⟩, .right⟩ }

theorem hasRoom_oneStar : oneStar.HasRoom := ⟨by decide, by decide, by decide⟩

/-- A perfect run, the same run from the tree, one that ends at the star, and a text that breaks
off. -/
theorem answers_agree_starText :
    (∃ out, runProgram starText loopText = .ok out ∧ rateResult out = 3) ∧
      (∃ out, runProgramWithLimits starText loopText "[0]" = .ok out ∧ rateResult out = 0) ∧
      (∃ ns, Decoder.ofText Node.forestOfJson (structureBlocks loopText) = .ok ns ∧
        runNodes? ns oneStar = .ok (runBlocks loopRight oneStar)) ∧
      ∃ out message, runProgram starText "[" = .ok out ∧
        Json.read out = ⟨.object [("error", .text message)], true⟩ := by
  have hl : Decoder.ofText Level.ofJson starText = .ok oneStar := by decide +kernel
  have hbs : Decoder.ofText Block.listOfJson loopText = .ok loopRight := by decide +kernel
  have hlim : Decoder.ofText Limits.ofJson "[0]" = .ok { maxSteps := 0 } := by decide +kernel
  have hnone : ¬ Decoder.Accepts Block.listOfJson "[" := by
    rintro ⟨bs, hbs⟩
    have herror : Decoder.ofText Block.listOfJson "[" = .error .malformed := by decide +kernel
    rw [herror] at hbs
    cases hbs
  have hlength : 2 * starText.length ≤ Width.word.size := by decide +kernel
  have hruns (lim : Limits) : runBlocks? loopRight oneStar lim =
      .ok (runBlocks loopRight oneStar lim) :=
    runNodes?_of_hasRoom hasRoom_oneStar (Node.ofBlocks loopRight) lim
  obtain ⟨hlimited, husual, hfits, -, htree, -, -⟩ := answers_agree starText loopText "[0]"
  obtain ⟨-, -, -, -, -, -, hfails⟩ := answers_agree starText "[" ""
  obtain ⟨ns, hns, hsame⟩ := htree loopRight hbs (by decide +kernel)
  refine ⟨?_, ?_, ⟨ns, hns, (hsame _ _).trans (hruns _)⟩, ?_⟩
  · obtain ⟨out, hout, hanswers⟩ := (husual _ _ hl hbs).ok _ (hruns _)
      (hfits _ _ _ _ hl hlength (hruns _) (totalSteps_lt (by decide)))
    refine ⟨out, hout, hanswers.rating.trans ?_⟩
    decide +kernel
  · obtain ⟨out, hout, hanswers⟩ := (hlimited _ _ _ hl hbs hlim).ok _ (hruns _)
      (hfits _ _ _ _ hl hlength (hruns _) (by decide +kernel))
    refine ⟨out, hout, hanswers.rating.trans ?_⟩
    decide +kernel
  · obtain ⟨out, hout, hfail⟩ := hfails fun h => hnone h.2
    obtain ⟨message, hmessage⟩ := hfail.record
    exact ⟨out, message, hout, hmessage⟩

/-! ## The edge of the range -/

/-- Where no run on the level breaks off, there is always an answer. -/
theorem exists_of_hasRoom (hl : Decoder.ofText Level.ofJson level = .ok l) (hroom : l.HasRoom)
    (blocks limits : String) : ∃ out, runProgramWithLimits level blocks limits = .ok out := by
  rw [runProgramWithLimits]
  cases hrun : run level blocks limits with
  | error e => exact ⟨_, rfl⟩
  | ok x =>
    obtain ⟨l', bs, lim, hl', -, -, rfl⟩ := exists_of_run hrun
    obtain rfl : l' = l := Except.ok.inj (hl'.symm.trans hl)
    rw [runBlocks?, runNodes?_of_hasRoom hroom]
    exact ⟨_, rfl⟩

/-- On a grid with fewer than 2^31 rows and columns, a run breaks off if and only if it computes a
neighbour of the start that has no room, and otherwise what is answered is its report with exact
positions. Where all neighbours of the start have room, so has every position that any run computes,
and there is an answer to all programs and limits. -/
theorem runProgramWithLimits_edge (hl : Decoder.ofText Level.ofJson level = .ok l)
    (hheight : l.grid.height ≤ Width.word.intMax) (hwidth : l.grid.width ≤ Width.word.intMax) :
    (∀ blocks limits bs lim, Decoder.ofText Block.listOfJson blocks = .ok bs →
      Decoder.ofText Limits.ofJson limits = .ok lim →
      (runProgramWithLimits level blocks limits = .error .add ↔
        ∃ d, l.start.position.step d ∈ Run.targets lim (Node.ofBlocks bs) l ∧
          ¬ (l.start.position.step d).InRange) ∧
      ∀ out, runProgramWithLimits level blocks limits = .ok out →
        out = answer (.ok (runBlocks bs l lim).toJson)) ∧
    (l.start.position.Inside →
      (∀ lim ns, ∀ p ∈ Run.targets lim ns l, p.InRange) ∧
      ∀ blocks limits, ∃ out, runProgramWithLimits level blocks limits = .ok out) := by
  refine ⟨?_, fun hstart => ?_⟩
  · intro blocks limits bs lim hbs hlim
    rw [runProgramWithLimits_eq hl hbs hlim]
    refine ⟨?_, ?_⟩
    · rw [(agrees_map _).error_iff, runBlocks?, runNodes?_eq_error]
      constructor
      · rintro ⟨p, hp, hout⟩
        obtain hrange | ⟨d, rfl⟩ := Run.inRange_or_of_mem_targets hheight hwidth hp
        · exact absurd hrange hout
        · exact ⟨d, hp, hout⟩
      · rintro ⟨d, hp, hout⟩
        exact ⟨_, hp, hout⟩
    · intro out hout
      obtain ⟨r, hr, rfl⟩ := exists_of_map_eq_ok hout
      obtain ⟨-, rfl⟩ := runNodes?_eq_ok.1 hr
      rfl
  · have hroom : l.HasRoom := ⟨hheight, hwidth, hstart⟩
    exact ⟨fun _ _ _ hp => Run.inRange_of_mem_targets hroom hp, exists_of_hasRoom hl hroom⟩

/-- A single cell, far above a start in the last row but one that has room. -/
def nearEdgeText : String :=
  "\x7b\"grid\":[[\"path\"]],\"start_row\":2147483646,\"start_col\":0\x7d"

/-- The same with the start in the last row that has room. -/
def edgeText : String :=
  "\x7b\"grid\":[[\"path\"]],\"start_row\":2147483647,\"start_col\":0\x7d"

def downText : String := "[\x7b\"id\":\"a\",\"type\":\"move_down\"\x7d]"

/-- The level whose single cell lies far above a start in the given row. -/
def farStart (row : Int) : Level := { grid := ⟨[[.path]]⟩, start := ⟨⟨row, 0⟩, .right⟩ }

/-- A bump in the last row but one is reported. -/
theorem runProgramWithLimits_edge_nearEdge :
    ∃ out, runProgramWithLimits nearEdgeText downText "\x7b\x7d" = .ok out ∧
      out = answer (.ok (runBlocks [⟨"a", .move .down, none⟩] (farStart 2147483646)).toJson) := by
  have hl : Decoder.ofText Level.ofJson nearEdgeText = .ok (farStart 2147483646) := by
    decide +kernel
  have hbs : Decoder.ofText Block.listOfJson downText = .ok [⟨"a", .move .down, none⟩] := by
    decide +kernel
  obtain ⟨hruns, hinside⟩ := runProgramWithLimits_edge hl (by decide) (by decide)
  obtain ⟨-, hanswered⟩ := hinside (by decide)
  obtain ⟨out, hout⟩ := hanswered downText "\x7b\x7d"
  exact ⟨out, hout, (hruns _ _ _ _ hbs ofText_defaults).2 out hout⟩

/-- One step down from the last row leads to a position that has no room, and there is no answer. -/
theorem runProgram_edgeText :
    Decoder.ofText Level.ofJson edgeText = .ok (farStart 2147483647) ∧
      Decoder.ofText Block.listOfJson downText = .ok [⟨"a", .move .down, none⟩] ∧
      Run.targets {} (Node.ofBlocks [⟨"a", .move .down, none⟩]) (farStart 2147483647) =
        [⟨2147483648, 0⟩] ∧
      ¬ (⟨2147483648, 0⟩ : Position).InRange ∧
      (runProgram edgeText downText).mapError Overflow.message =
        .error "attempt to add with overflow" := by
  decide +kernel

end Exchange

end BlockPuzzle
