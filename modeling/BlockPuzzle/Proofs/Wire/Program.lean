import BlockPuzzle.Proofs.Program.Listing
import BlockPuzzle.Proofs.Wire.Fields
import BlockPuzzle.Wire.Program

/-!
# Blocks and program trees are read back

A block is read back where its number fits into a byte. The record of a node is read member by
member: those of its block are kept until the record ends, its bodies are read at once.

## Main definitions

* `Block.Fits`: the number of a block has room.
* `Node.levels`, `Node.levelsAll`: how many nodes lie inside each other at most.

## Main statements

* `Block.ofJson_toJson`, `Node.ofItems_listToJson`: a block and a list of nodes are taken out of
  what was put down for them, whatever bodies the nodes have.
* `Node.complete_listToJson`: with every level of nodes go two containers.
-/

namespace BlockPuzzle

open Json (Complete)

/-! ## Blocks -/

namespace Block

/-- The number, if there is one, has room. -/
def Fits (b : Block) : Prop := ∀ n ∈ b.param, n < Width.byte.size

instance (b : Block) : Decidable b.Fits := inferInstanceAs (Decidable (∀ n ∈ b.param, _))

variable {b : Block}

theorem decoder_toJson (k : Kind) (embedded : Bool) : Kind.decoder embedded k.toJson = .ok k :=
  congrArg Except.ok (Kind.ofName_name k)

theorem reads_members (h : b.Fits) (embedded : Bool) : (fields embedded).Reads b.members b := by
  have hread := Fields.Reads.pure Block.mk
    |>.required "id" (Decoder.text_text b.id)
    |>.required "type" (decoder_toJson b.kind embedded)
  obtain ⟨id, kind, param⟩ := b
  cases param with
  | none => exact hread.leftOut "param" _ none
  | some n =>
    have hparam : Decoder.optional (Decoder.nat .byte) (.ofNat n) = .ok (some n) :=
      Decoder.optional_map (o := some n) (fun m hm => Decoder.nat_ofNat (h m hm)) nofun
    exact hread.default "param" none hparam

theorem ofJson_toJson (h : b.Fits) : ofJson b.toJson = .ok b :=
  (reads_members h false).decode_object

theorem isPlain_members (b : Block) : ∀ m ∈ b.members, Json.isPlain m.1 := by
  obtain ⟨id, kind, param⟩ := b
  cases param <;>
    simp only [members, Option.map_none, Option.map_some, Option.toList_none, Option.toList_some,
      List.cons_append, List.nil_append, List.forall_mem_cons] <;> decide

theorem complete_members (h : b.Fits) (depth : Nat) : ∀ m ∈ b.members, Complete depth m.2 := by
  obtain ⟨id, kind, param⟩ := b
  cases param with
  | none =>
    simp only [members, Option.map_none, Option.toList_none, List.append_nil, List.forall_mem_cons]
    exact ⟨.text _, .text _, List.forall_mem_nil _⟩
  | some n =>
    simp only [members, Option.map_some, Option.toList_some, List.cons_append, List.nil_append,
      List.forall_mem_cons]
    exact ⟨.text _, .text _, Json.complete_ofNat (h n rfl), List.forall_mem_nil _⟩

theorem complete_toJson (h : b.Fits) (depth : Nat) : Complete (depth + 1) b.toJson :=
  .object b.isPlain_members (complete_members h depth)

end Block

/-! ## Nodes -/

namespace Node

/-! ### One member more -/

variable {d : Draft} {name : String} {j : Json} {ms : List (Json.MemberName × Json)}
  {body alternative : List Node}

theorem ofMembers_keep (hbody : name ≠ "children") (halternative : name ≠ "else_children")
    (hread : j.readable) :
    ofMembers d ((.plain name, j) :: ms) =
      ofMembers { d with kept := (.plain name, j) :: d.kept } ms := by
  rw [ofMembers.eq_def]
  simp [Json.MemberName.read, Json.MemberName.text?, bind, Except.bind, hbody, halternative, hread]

theorem ofMembers_body (hbody : ofItems (listToJson body) = .ok body) (hfirst : d.body = none) :
    ofMembers d ((.plain "children", .list (listToJson body)) :: ms) =
      ofMembers { d with body := some body } ms := by
  rw [ofMembers.eq_def]
  simp [Json.MemberName.read, Json.MemberName.text?, bind, Except.bind, hfirst, forestOfJson, hbody]

theorem ofMembers_alternative (halternative : ofItems (listToJson alternative) = .ok alternative)
    (hfirst : d.alternative = none) :
    ofMembers d ((.plain "else_children", .list (listToJson alternative)) :: ms) =
      ofMembers { d with alternative := some (some alternative) } ms := by
  rw [ofMembers.eq_def]
  simp [Json.MemberName.read, Json.MemberName.text?, bind, Except.bind, hfirst, forestOfJson,
    halternative]

/-- The members of a block are kept, latest first. -/
theorem ofMembers_block (b : Block) :
    ofMembers {} ((b.members.map fun m => (.plain m.1, m.2)) ++ ms) =
      ofMembers { kept := (b.members.map fun m => (.plain m.1, m.2)).reverse } ms := by
  obtain ⟨id, kind, param⟩ := b
  have hkeep {d : Draft} {ms : List (Json.MemberName × Json)} :
      ofMembers d ((.plain "id", .text id) :: (.plain "type", kind.toJson) :: ms) =
        ofMembers
          { d with kept := (.plain "type", kind.toJson) :: (.plain "id", .text id) :: d.kept }
          ms := by
    rw [ofMembers_keep (by decide) (by decide) rfl, ofMembers_keep (by decide) (by decide) rfl]
  cases param with
  | none => exact hkeep
  | some n => exact hkeep.trans (ofMembers_keep (by simp) (by simp) rfl)

theorem close_of_fits {b : Block} (h : b.Fits) (body : Option (List Node))
    (alternative : Option (Option (List Node))) :
    Draft.close ⟨body, alternative, (b.members.map fun m => (.plain m.1, m.2)).reverse⟩ =
      .ok ⟨b, body.getD [], alternative.getD none⟩ := by
  rw [Draft.close, List.reverse_reverse, (Block.reads_members h true).ofMembers]
  rfl

/-! ### Trees -/

mutual

theorem ofJson_toJson : ∀ (n : Node), (∀ b ∈ n.preorder, b.Fits) → ofJson n.toJson = .ok n
  | ⟨b, body, none⟩, h => by
    simp only [preorder, preorderOtherwise, List.append_nil, List.forall_mem_cons] at h
    have hbody := ofItems_listToJson body h.2
    rw [toJson, Json.object, List.map_append, ofJson, ofMembers_block, List.map_singleton,
      ofMembers_body hbody rfl, ofMembers, close_of_fits h.1]
    rfl
  | ⟨b, body, some alternative⟩, h => by
    simp only [preorder, preorderOtherwise, List.forall_mem_cons, List.forall_mem_append] at h
    have hbody := ofItems_listToJson body h.2.1
    have halternative := ofItems_listToJson alternative h.2.2
    rw [toJson, Json.object, List.map_append, ofJson, ofMembers_block, List.map_cons,
      List.map_singleton, ofMembers_body hbody rfl, ofMembers_alternative halternative rfl,
      ofMembers, close_of_fits h.1]
    rfl

theorem ofItems_listToJson :
    ∀ (ns : List Node), (∀ b ∈ preorderAll ns, b.Fits) → ofItems (listToJson ns) = .ok ns
  | [], _ => by rw [listToJson, ofItems]
  | n :: ns, h => by
    rw [preorderAll, List.forall_mem_append] at h
    rw [listToJson, ofItems, ofJson_toJson n h.1, ofItems_listToJson ns h.2]
    rfl

end

end Node

/-! ### Levels -/

mutual

/-- How many nodes lie inside each other at most, the node itself among them. -/
def Node.levels : Node → Nat
  | ⟨_, body, alternative⟩ => max (levelsAll body) (levelsOtherwise alternative) + 1

def Node.levelsOtherwise : Option (List Node) → Nat
  | none => 0
  | some nodes => levelsAll nodes

def Node.levelsAll : List Node → Nat
  | [] => 0
  | n :: ns => max n.levels (levelsAll ns)

end

namespace Node

theorem isPlain_children : Json.isPlain "children" ∧ Json.isPlain "else_children" := by decide

mutual

/-- The record of a node and the lists of its bodies are two containers more. -/
theorem complete_toJson :
    ∀ (n : Node) (k : Nat), (∀ b ∈ n.preorder, b.Fits) → n.levels ≤ k →
      Complete (2 * k) n.toJson
  | ⟨_, _, _⟩, 0, _, hlevels => by simp [levels] at hlevels
  | ⟨b, body, none⟩, k + 1, h, hlevels => by
    simp only [preorder, preorderOtherwise, List.append_nil, List.forall_mem_cons] at h
    simp only [levels, levelsOtherwise] at hlevels
    have hbody := complete_listToJson body k h.2 (by omega)
    rw [toJson]
    -- Of the two containers of a level the record is opened here, the list inside of it below.
    refine .object ?_ ?_ <;> rw [List.forall_mem_append]
    · exact ⟨b.isPlain_members, by simpa using isPlain_children.1⟩
    · exact ⟨Block.complete_members h.1 _, by simpa using Complete.list hbody⟩
  | ⟨b, body, some alternative⟩, k + 1, h, hlevels => by
    simp only [preorder, preorderOtherwise, List.forall_mem_cons, List.forall_mem_append] at h
    simp only [levels, levelsOtherwise] at hlevels
    have hbody := complete_listToJson body k h.2.1 (by omega)
    have halternative := complete_listToJson alternative k h.2.2 (by omega)
    rw [toJson]
    refine .object ?_ ?_ <;> rw [List.forall_mem_append]
    · exact ⟨b.isPlain_members, by simpa using isPlain_children⟩
    · exact ⟨Block.complete_members h.1 _,
        by simpa using ⟨Complete.list hbody, Complete.list halternative⟩⟩

theorem complete_listToJson :
    ∀ (ns : List Node) (k : Nat), (∀ b ∈ preorderAll ns, b.Fits) → levelsAll ns ≤ k →
      ∀ j ∈ listToJson ns, Complete (2 * k) j
  | [], _, _, _ => by simp [listToJson]
  | n :: ns, k, h, hlevels => by
    rw [preorderAll, List.forall_mem_append] at h
    rw [levelsAll, Nat.max_le] at hlevels
    rw [listToJson, List.forall_mem_cons]
    exact ⟨complete_toJson n k h.1 hlevels.1, complete_listToJson ns k h.2 hlevels.2⟩

end

end Node

end BlockPuzzle
