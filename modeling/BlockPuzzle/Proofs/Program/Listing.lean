import BlockPuzzle.Proofs.Program.Filing
import BlockPuzzle.Proofs.Program.Visits
import Mathlib.Data.List.Sort

/-!
# What a tree keeps of a program

The tree of a program, listed in the order of the program, is compared with the visits of reading:
region by region, the two name the same blocks, and what they leave out is accounted for.

## Main definitions

* `Node.preorder`, `Node.preorderAll`: the blocks of a tree, each opener before its bodies.
* `Keeps`: a list of visits, the blocks that they are visits of, and what is missing from both.
* `Listed`: a region whose reading lists what is visited in it.

## Main statements

* `listed`: every region is listed as it is visited.
* `Node.preorder_ofBlocks`: the tree of a program shows its blocks in order, and leaves out markers
  and what branches skip.
-/

namespace BlockPuzzle

mutual

/-- The blocks of a node and of all that lies inside, each opener before its bodies. -/
def Node.preorder : Node → List Block
  | ⟨b, body, alternative⟩ => b :: (preorderAll body ++ preorderOtherwise alternative)

def Node.preorderOtherwise : Option (List Node) → List Block
  | none => []
  | some nodes => preorderAll nodes

def Node.preorderAll : List Node → List Block
  | [] => []
  | n :: ns => n.preorder ++ preorderAll ns

end

/-- The visits `vs` of the region from `s` to `e` are those of the blocks `xs`, and they leave out
markers, the positions in `gap` and what a branch skips that is visited. -/
structure Keeps (bs : List Block) (gap : Nat → Prop) (s e : Nat) (vs : List Visit)
    (xs : List Block) : Prop where
  within : ∀ v ∈ vs, s ≤ v.pos ∧ v.pos < v.stop ∧ v.stop ≤ e
  ascending : vs.Pairwise (·.pos < ·.pos)
  listing : xs.map some = vs.map (bs[·.pos]?)
  noMarker : ∀ b ∈ xs, ¬ b.kind.isMarker
  missing : ∀ i b, s ≤ i → i < e → bs[i]? = some b → ¬ b.kind.isMarker →
    ((∀ v ∈ vs, v.pos ≠ i) ↔ gap i ∨ ∃ v ∈ vs, v.Skips bs i)

section

variable {bs : List Block} {gap : Nat → Prop} {s m e : Nat} {vs ws : List Visit}
  {xs ys : List Block} {b : Block}

/-- Where there are only markers and gaps, nothing is visited. -/
theorem keeps_nil (h : ∀ i c, s ≤ i → i < e → bs[i]? = some c → c.kind.isMarker ∨ gap i) :
    Keeps bs gap s e [] [] where
  within := by simp
  ascending := .nil
  listing := rfl
  noMarker := by simp
  missing i c hs he hc hmarker := by
    have hgap := (h i c hs he hc).resolve_left hmarker
    simp [hgap]

theorem Keeps.of_not_gap (h : Keeps bs (fun _ => False) s e vs xs)
    (hgap : ∀ i, s ≤ i → i < e → ¬ gap i) : Keeps bs gap s e vs xs where
  within := h.within
  ascending := h.ascending
  listing := h.listing
  noMarker := h.noMarker
  missing i c hs he hc hmarker := by
    rw [h.missing i c hs he hc hmarker]
    simp [hgap i hs he]

theorem Keeps.pos_ne (h : Keeps bs gap s e vs xs) {i : Nat} (hi : i < s ∨ e ≤ i) :
    ∀ v ∈ vs, v.pos ≠ i := by
  rintro v hv rfl
  have := h.within v hv
  omega

theorem Keeps.not_skips (h : Keeps bs gap s e vs xs) {i : Nat} (hi : i ≤ s ∨ e ≤ i) :
    ¬ ∃ v ∈ vs, v.Skips bs i := by
  rintro ⟨v, hv, hskips⟩
  have := h.within v hv
  have := hskips.within
  omega

/-- Two regions, one behind the other. -/
theorem Keeps.append (h : Keeps bs gap s m vs xs) (g : Keeps bs gap m e ws ys) (hs : s ≤ m)
    (he : m ≤ e) : Keeps bs gap s e (vs ++ ws) (xs ++ ys) where
  within := by
    intro v hv
    rcases List.mem_append.1 hv with hv | hv
    · have := h.within v hv
      omega
    · have := g.within v hv
      omega
  ascending := by
    rw [List.pairwise_append]
    refine ⟨h.ascending, g.ascending, ?_⟩
    intro v hv w hw
    have hlt := h.within v hv
    have hge := g.within w hw
    omega
  listing := by rw [List.map_append, List.map_append, h.listing, g.listing]
  noMarker c hc := (List.mem_append.1 hc).elim (h.noMarker c) (g.noMarker c)
  missing := by
    -- A position is accounted for by the part it lies in; the visits of the other part stay there.
    intro i c hi hi' hc hmarker
    rw [List.forall_mem_append]
    simp only [List.mem_append, or_and_right, exists_or]
    rcases Nat.lt_or_ge i m with hlt | hge
    · rw [← or_assoc, ← h.missing i c hi hlt hc hmarker]
      have hpos := g.pos_ne (.inl hlt)
      have hskips := g.not_skips (.inl (Nat.le_of_lt hlt))
      exact ⟨fun hv => .inl hv.1, fun hv => ⟨hv.resolve_right hskips, hpos⟩⟩
    · rw [or_left_comm, ← g.missing i c hge hi' hc hmarker]
      have hpos := h.pos_ne (.inr hge)
      have hskips := h.not_skips (.inr hge)
      exact ⟨fun hv => .inr hv.2, fun hv => ⟨hpos, hv.resolve_left hskips⟩⟩

/-- What a branch skips is a gap in what lies behind it. -/
theorem Keeps.cons (h : Keeps bs (Visit.Skips bs ⟨s, e⟩) (s + 1) e vs xs) (hb : bs[s]? = some b)
    (hmarker : ¬ b.kind.isMarker) (hs : s < e) :
    Keeps bs (fun _ => False) s e (⟨s, e⟩ :: vs) (b :: xs) where
  within := by
    rw [List.forall_mem_cons]
    refine ⟨⟨Nat.le_refl s, hs, Nat.le_refl e⟩, ?_⟩
    intro v hv
    have := h.within v hv
    omega
  ascending := by
    rw [List.pairwise_cons]
    refine ⟨?_, h.ascending⟩
    intro v hv
    exact (h.within v hv).1
  listing := by rw [List.map_cons, List.map_cons, h.listing, hb]
  noMarker := List.forall_mem_cons.2 ⟨hmarker, h.noMarker⟩
  missing := by
    intro i c hi hi' hc hmarker'
    rw [List.forall_mem_cons, List.exists_mem_cons_iff, false_or]
    rcases Nat.eq_or_lt_of_le hi with rfl | hlt
    · have hhead : ¬ Visit.Skips bs ⟨s, e⟩ s := fun hskips => Nat.lt_irrefl s hskips.within.1
      have hskips := h.not_skips (.inl (Nat.le_succ s))
      exact ⟨fun hv => absurd rfl hv.1, fun hv => (hv.elim hhead hskips).elim⟩
    · rw [← h.missing i c hlt hi' hc hmarker']
      exact ⟨And.right, fun hv => ⟨Nat.ne_of_lt hlt, hv⟩⟩

theorem keeps_of_isMarker (hb : bs[s]? = some b) (hmarker : b.kind.isMarker) (hs : s < e)
    (h : Keeps bs gap (s + 1) e vs xs) : Keeps bs gap s e vs xs := by
  have hhole : Keeps bs gap s (s + 1) [] [] := by
    apply keeps_nil
    intro i c hi hi' hc
    obtain rfl : i = s := by omega
    rw [hb] at hc
    cases hc
    exact .inl hmarker
  exact hhole.append h (Nat.le_succ s) hs

/-- Between the end of a region and the position where reading goes on there is only the closer. -/
theorem isMarker_of_stop_le {f : Family} {i : Nat} {c : Block} {x : Option Nat}
    (hx : x = (f.closer? 0 (Block.between bs s e)).map (· + s)) (hi : x.getD e ≤ i)
    (hi' : i < (x.map (· + 1)).getD e) (hc : bs[i]? = some c) : c.kind.isMarker := by
  subst hx
  cases hj : f.closer? 0 (Block.between bs s e) with
  | none =>
    rw [hj] at hi hi'
    exact absurd hi' (Nat.not_lt.2 hi)
  | some j =>
    obtain ⟨c', hc', hcloses⟩ := Family.closes_of_closer? hj
    have hlt := Family.closer?_lt hj
    have hle := Block.length_between_le bs s e
    rw [Block.getElem?_between (by omega)] at hc'
    obtain rfl : i = s + j := by simp [hj] at hi hi'; omega
    rw [hc] at hc'
    cases hc'
    cases f <;> cases hk : c.kind <;> simp_all [Kind.closes, Kind.isMarker]

theorem exists_ends (f : Family) (hs : s ≤ e) (he : e ≤ bs.length) : ∃ stop resume,
    Ends f bs s e stop resume ∧
      ∀ i c, stop ≤ i → i < resume → bs[i]? = some c → c.kind.isMarker :=
  ⟨_, _, ends_of_closer? f hs he rfl, fun _ _ hi hi' hc => isMarker_of_stop_le rfl hi hi' hc⟩

end

/-- Reading lists the region from `s` to `e` as it visits it. -/
def Listed (bs : List Block) (s e : Nat) : Prop :=
  Keeps bs (fun _ => False) s e (Block.visits s (Block.between bs s e))
    (Node.preorderAll (Node.reading (Block.between bs s e)))

section

variable {bs : List Block} {s e : Nat} {b : Block}

theorem Visit.skips_iff {v : Visit} {xs : List Nat} {k i : Nat} (h : v.elses bs = xs.map (· + k)) :
    v.Skips bs i ↔
      ∃ j ∈ xs.head?, ∃ last ∈ xs.getLast?, j + k < i ∧ i < last + k := by
  rw [Skips, h, List.head?_map, List.getLast?_map]
  cases xs.head? <;> cases xs.getLast? <;> simp

/-- From one marker to another with the gap between them nothing is kept. -/
theorem keeps_nil_between {gap : Nat → Prop} {first last : Nat}
    (hfirst : ∃ c, bs[first]? = some c ∧ c.kind.isMarker)
    (hlast : ∃ c, bs[last]? = some c ∧ c.kind.isMarker)
    (hgap : ∀ i, first < i → i < last → gap i) : Keeps bs gap first (last + 1) [] [] := by
  apply keeps_nil
  intro i c hi hi' hc
  by_cases hends : i = first ∨ i = last
  · obtain ⟨c', hc', hmarker⟩ : ∃ c, bs[i]? = some c ∧ c.kind.isMarker := by
      rcases hends with rfl | rfl
      · exact hfirst
      · exact hlast
    rw [hc] at hc'
    cases hc'
    exact .inl hmarker
  · exact .inr (hgap i (by omega) (by omega))

theorem isMarker_of_mem_ownElses (he : e ≤ bs.length) {j : Nat}
    (hj : j ∈ Block.ownElses 0 (Block.between bs s e)) :
    s + j < e ∧ ∃ c, bs[s + j]? = some c ∧ c.kind.isMarker := by
  have hlt := Block.ownElses_lt hj
  rw [Block.length_between he] at hlt
  obtain ⟨c, hc, hkind⟩ := Block.kind_of_mem_ownElses hj
  rw [Block.getElem?_between (by omega)] at hc
  exact ⟨by omega, c, hc, by rw [hkind]; rfl⟩

/-- The body of a branch and its alternative, with what lies between the first own `else` and the
last one as a gap. -/
theorem keeps_region {gap : Nat → Prop} (hs : s ≤ e) (he : e ≤ bs.length)
    (ih : ∀ p q, s ≤ p → p ≤ q → q ≤ e → Listed bs p q) {region : List Block}
    (hregion : Block.between bs s e = region)
    (hgap : ∀ i, gap i ↔ ∃ j ∈ (Block.ownElses 0 region).head?,
      ∃ last ∈ (Block.ownElses 0 region).getLast?, j + s < i ∧ i < last + s) :
    Keeps bs gap s e
      (Block.visits s (region.take ((Block.ownElses 0 region).head?.getD region.length)) ++
        ((Block.ownElses 0 region).getLast?.map fun j =>
          Block.visits (s + (j + 1)) (region.drop (j + 1))).getD [])
      (Node.preorderAll (Node.reading
          (region.take ((Block.ownElses 0 region).head?.getD region.length))) ++
        Node.preorderOtherwise ((Block.ownElses 0 region).getLast?.map fun j =>
          Node.reading (region.drop (j + 1)))) := by
  have hsorted := Block.pairwise_ownElses 0 region
  have helse {j : Nat} (hj : j ∈ Block.ownElses 0 region) :=
    isMarker_of_mem_ownElses he (hregion ▸ hj)
  cases ho : Block.ownElses 0 region with
  | nil =>
    have hall := ih s e (Nat.le_refl s) hs (Nat.le_refl e)
    rw [Listed, hregion] at hall
    simpa [Node.preorderOtherwise] using hall.of_not_gap fun i _ _ => by simp [hgap, ho]
  | cons j js =>
    obtain ⟨last, hlast⟩ : ∃ last, (j :: js).getLast? = some last := ⟨_, List.getLast?_cons⟩
    have hmem : last ∈ j :: js := List.mem_of_getLast? hlast
    have hle : j ≤ last := by
      rw [ho, List.pairwise_cons] at hsorted
      rcases List.mem_cons.1 hmem with rfl | hjs
      · exact Nat.le_refl last
      · exact Nat.le_of_lt (hsorted.1 last hjs)
    obtain ⟨-, hfirst⟩ := helse (j := j) (by simp [ho])
    obtain ⟨hlt, hend⟩ := helse (j := last) (ho ▸ hmem)
    have hiff (i : Nat) : gap i ↔ s + j < i ∧ i < s + last := by
      rw [hgap, ho, hlast]
      simp [Nat.add_comm]
    have hbefore : ∀ i, s ≤ i → i < s + j → ¬ gap i := by
      intro i _ hi
      rw [hiff]
      omega
    have hbehind : ∀ i, s + (last + 1) ≤ i → i < e → ¬ gap i := by
      intro i hi _
      rw [hiff]
      omega
    have hbody := ih s (s + j) (Nat.le_refl s) (by omega) (by omega)
    have halternative := ih (s + (last + 1)) e (by omega) (by omega) (Nat.le_refl e)
    have hhole : Keeps bs gap (s + j) (s + (last + 1)) [] [] :=
      keeps_nil_between hfirst hend fun i hi hi' => (hiff i).2 ⟨hi, hi'⟩
    rw [Listed, ← Block.take_between (e := e) (by omega), hregion] at hbody
    rw [Listed, ← Block.drop_between, hregion] at halternative
    have hrest := hhole.append (halternative.of_not_gap hbehind) (by omega) (by omega)
    have hall := (hbody.of_not_gap hbefore).append hrest (by omega) (by omega)
    simpa [hlast, Node.preorderOtherwise] using hall

/-- Where the blocks behind an opener begin that are read after it. -/
theorem add_length_sub {resume : Nat} (he : e ≤ bs.length) (hs : s ≤ resume) (hr : resume ≤ e) :
    s + ((Block.between bs s e).length - (Block.between bs resume e).length) = resume := by
  rw [Block.length_between he, Block.length_between he]
  omega

theorem succ_add_length (he : e ≤ bs.length) (hs : s < e) :
    s + 1 + (Block.between bs (s + 1) e).length = e := by
  rw [Block.length_between he]
  omega

/-- An opener, what it holds, its closer and what stands behind. -/
theorem keeps_opener (hb : bs[s]? = some b) (hopener : b.kind.isOpener) {stop resume : Nat}
    (hs : s < stop) (hstop : stop ≤ resume) (hresume : resume ≤ e)
    (hcloser : ∀ i c, stop ≤ i → i < resume → bs[i]? = some c → c.kind.isMarker)
    (hskips : ∀ i, Visit.Skips bs ⟨s, e⟩ i → i < stop) {vs ws : List Visit} {xs ys : List Block}
    (hinside : Keeps bs (Visit.Skips bs ⟨s, e⟩) (s + 1) stop vs xs)
    (hrest : Keeps bs (fun _ => False) resume e ws ys) :
    Keeps bs (fun _ => False) s e (⟨s, e⟩ :: (vs ++ ws)) (b :: (xs ++ ys)) := by
  have hmarker : ¬ b.kind.isMarker := by
    cases hk : b.kind <;> simp_all [Kind.isMarker, Kind.isOpener]
  have hbehind : ∀ i, resume ≤ i → i < e → ¬ Visit.Skips bs ⟨s, e⟩ i := by
    intro i hi _ hi'
    have := hskips i hi'
    omega
  have hhole : Keeps bs (Visit.Skips bs ⟨s, e⟩) stop resume [] [] :=
    keeps_nil fun i c hi hi' hc => .inl (hcloser i c hi hi' hc)
  have hall := hinside.append (hhole.append (hrest.of_not_gap hbehind) hstop hresume) hs (by omega)
  exact hall.cons hb hmarker (by omega)

theorem listed_loop (hb : bs[s]? = some b) (hk : b.kind = .loop) (hs : s < e) (he : e ≤ bs.length)
    (ih : ∀ p q, s < p → p ≤ q → q ≤ e → Listed bs p q) : Listed bs s e := by
  obtain ⟨stop, resume, ⟨hle, hstop, hresume, hregion, hafter⟩, hcloser⟩ :=
    exists_ends (s := s + 1) .loop hs he
  have hskips : ∀ i, ¬ Visit.Skips bs ⟨s, e⟩ i :=
    Visit.not_skips_of_elses_eq_nil (Visit.elses_eq_nil hb (by simp [hk, Kind.opens]))
  have hbody := ih (s + 1) stop (Nat.lt_succ_self s) hle (by omega)
  have hrest := ih resume e (by omega) hresume (Nat.le_refl e)
  have hall := keeps_opener hb (by simp [hk, Kind.isOpener]) hle hstop hresume hcloser
    (fun i hi => absurd hi (hskips i)) (hbody.of_not_gap fun i _ _ => hskips i) hrest
  rw [Listed, Block.between_cons hb hs, Block.visits_cons_of_loop hk, Node.reading_cons_of_loop hk,
    hregion, hafter, add_length_sub he (by omega) hresume, succ_add_length he hs]
  simpa [Node.preorderAll, Node.preorder, Node.preorderOtherwise] using hall

theorem listed_branch {p : Predicate} (hb : bs[s]? = some b) (hk : b.kind = .branch p) (hs : s < e)
    (he : e ≤ bs.length) (ih : ∀ p q, s < p → p ≤ q → q ≤ e → Listed bs p q) : Listed bs s e := by
  obtain ⟨stop, resume, ⟨hle, hstop, hresume, hregion, hafter⟩, hcloser⟩ :=
    exists_ends (s := s + 1) .branch hs he
  have helses := Visit.elses_eq (v := ⟨s, e⟩) hb (by simp [hk, Kind.opens])
  dsimp only at helses
  rw [hregion] at helses
  have hskips : ∀ i, Visit.Skips bs ⟨s, e⟩ i → i < stop := by
    intro i hi
    obtain ⟨_, -, last, hlast, -, hlt⟩ := (Visit.skips_iff helses).1 hi
    obtain ⟨hlt', -⟩ := isMarker_of_mem_ownElses (by omega) (List.mem_of_getLast? hlast)
    omega
  have hinside := keeps_region hle (by omega) (fun p q hp hpq hq => ih p q hp hpq (by omega)) rfl
    fun i => Visit.skips_iff helses
  have hrest := ih resume e (by omega) hresume (Nat.le_refl e)
  have hall := keeps_opener hb (by simp [hk, Kind.isOpener]) hle hstop hresume hcloser hskips
    hinside hrest
  rw [Listed, Block.between_cons hb hs, Block.visits_cons_of_branch hk,
    Node.reading_cons_of_branch hk, hregion, hafter, add_length_sub he (by omega) hresume,
    succ_add_length he hs]
  simpa [Node.preorderAll, Node.preorder, Node.preorderOtherwise] using hall

/-- Every region is listed as it is visited. -/
theorem listed (bs : List Block) {s e : Nat} (hs : s ≤ e) (he : e ≤ bs.length) : Listed bs s e := by
  -- By the length of the region: what an opener holds and what stands behind it are shorter.
  induction hn : e - s using Nat.strongRecOn generalizing s e with
  | ind n ih =>
    rcases Nat.eq_or_lt_of_le hs with rfl | hlt
    · rw [Listed, Block.between_self, Node.reading, Block.visits]
      exact keeps_nil fun i c hi hi' => by omega
    obtain ⟨b, hb⟩ : ∃ b, bs[s]? = some b := ⟨bs[s], List.getElem?_eq_getElem (by omega)⟩
    have inner (p q : Nat) (hp : s < p) (hq : p ≤ q) (hqe : q ≤ e) : Listed bs p q :=
      ih (q - p) (by omega) hq (by omega) rfl
    have hrest : Listed bs (s + 1) e := inner (s + 1) e (Nat.lt_succ_self s) hlt (Nat.le_refl e)
    have hcons := Block.between_cons hb hlt
    cases hk : b.kind with
    | loop => exact listed_loop hb hk hlt he inner
    | branch p => exact listed_branch hb hk hlt he inner
    | endLoop | otherwise | endBranch =>
      have hmarker : b.kind.isMarker := by simp [hk, Kind.isMarker]
      rw [Listed, hcons, Block.visits_cons_of_isMarker hmarker,
        Node.reading_cons_of_isMarker hmarker]
      exact keeps_of_isMarker hb hmarker hlt hrest
    | move d | unknown =>
      have hopener : ¬ b.kind.isOpener := by simp [hk, Kind.isOpener]
      have hmarker : ¬ b.kind.isMarker := by simp [hk, Kind.isMarker]
      have hskips : ∀ i, ¬ Visit.Skips bs ⟨s, e⟩ i :=
        Visit.not_skips_of_elses_eq_nil (Visit.elses_eq_nil hb (by simp [hk, Kind.opens]))
      have hall := (hrest.of_not_gap fun i _ _ => hskips i).cons hb hmarker hlt
      rw [Listed, hcons, Block.visits_cons_of_leaf hopener hmarker,
        Node.reading_cons_of_leaf hopener hmarker, succ_add_length he hlt]
      simpa [Node.preorderAll, Node.preorder, Node.leaf, Node.preorderOtherwise] using hall

end

/-! ## Listings by their positions -/

section

variable {bs xs : List Block} {ps : List Nat}

theorem map_getElem?_range (bs : List Block) :
    (List.range bs.length).map (bs[·]?) = bs.map some := by
  apply List.ext_getElem?
  intro i
  rcases Nat.lt_or_ge i bs.length with h | h
  · simp [h]
  · simp [h]

/-- Ascending positions are determined by which ones belong to them. -/
theorem eq_filter_range {n : Nat} {p : Nat → Bool} (hps : ps.Pairwise (· < ·))
    (hmem : ∀ i, i ∈ ps ↔ i < n ∧ p i) : ps = (List.range n).filter p := by
  apply List.Pairwise.eq_of_mem_iff hps (List.pairwise_lt_range.filter p)
  intro i
  rw [hmem, List.mem_filter, List.mem_range]

/-- A position that a listing shows is one of the program. -/
theorem lt_length_of_mem (h : xs.map some = ps.map (bs[·]?)) {i : Nat} (hi : i ∈ ps) :
    i < bs.length := by
  have hmem : bs[i]? ∈ xs.map some := h ▸ List.mem_map_of_mem hi
  obtain ⟨x, -, hx⟩ := List.mem_map.1 hmem
  exact (List.getElem?_eq_some_iff.1 hx.symm).1

/-- What is listed at ascending positions is listed in the order of the program. -/
theorem sublist_of_map_some (hps : ps.Pairwise (· < ·)) (h : xs.map some = ps.map (bs[·]?)) :
    xs.Sublist bs := by
  have hfilter : ps = (List.range bs.length).filter (· ∈ ps) := by
    apply eq_filter_range hps
    intro i
    rw [decide_eq_true_iff]
    exact ⟨fun hi => ⟨lt_length_of_mem h hi, hi⟩, And.right⟩
  have hsome : (xs.map some).Sublist (bs.map some) := by
    rw [h, ← map_getElem?_range, hfilter]
    exact List.filter_sublist.map _
  simpa using hsome.filterMap id

/-- A listing of the blocks that pass a test, each at its place, is the list of them. -/
theorem eq_filter_of_map_some {p : Block → Bool} (hps : ps.Pairwise (· < ·))
    (h : xs.map some = ps.map (bs[·]?)) (hmem : ∀ i b, bs[i]? = some b → (i ∈ ps ↔ p b)) :
    xs = bs.filter p := by
  have hfilter : ps = (List.range bs.length).filter ((Option.any p ·) ∘ (bs[·]?)) := by
    apply eq_filter_range hps
    intro i
    rcases Nat.lt_or_ge i bs.length with hi | hi
    · rw [hmem i bs[i] (List.getElem?_eq_getElem hi)]
      simp [hi]
    · have hnot : i ∉ ps := fun hi' => Nat.not_lt.2 hi (lt_length_of_mem h hi')
      simp [hnot, hi]
  have hsome : xs.map some = (bs.filter p).map some := by
    rw [h, hfilter, ← List.filter_map, map_getElem?_range, List.filter_map]
    rfl
  exact List.map_injective_iff.2 (Option.some_injective Block) hsome

end

/-! ## The tree of a program -/

section

variable (bs : List Block)

theorem keeps_ofBlocks : Keeps bs (fun _ => False) 0 bs.length (Block.visits 0 bs)
    (Node.preorderAll (Node.ofBlocks bs)) := by
  have h := listed bs (Nat.zero_le _) (Nat.le_refl bs.length)
  rw [Listed, Block.between_zero] at h
  rwa [Node.ofBlocks_eq]

theorem Block.pairwise_kept : (kept bs).Pairwise (· < ·) :=
  List.pairwise_map.2 (keeps_ofBlocks bs).ascending

theorem Node.map_some_preorder_ofBlocks :
    (preorderAll (ofBlocks bs)).map some = (Block.kept bs).map (bs[·]?) := by
  rw [(keeps_ofBlocks bs).listing, Block.kept, List.map_map]
  rfl

variable {bs} {i : Nat} {b : Block}

theorem Block.notMem_kept_iff (hb : bs[i]? = some b) (hmarker : ¬ b.kind.isMarker) :
    i ∉ kept bs ↔ ∃ v ∈ visits 0 bs, v.Skips bs i := by
  have hi := (List.getElem?_eq_some_iff.1 hb).1
  have hiff := (keeps_ofBlocks bs).missing i b (Nat.zero_le i) hi hb hmarker
  rw [false_or] at hiff
  rw [← hiff, kept, List.mem_map]
  constructor
  · intro hv v hv' heq
    exact hv ⟨v, hv', heq⟩
  · rintro hv ⟨v, hv', heq⟩
    exact hv v hv' heq

theorem Block.notMem_kept_of_isMarker (hb : bs[i]? = some b) (hmarker : b.kind.isMarker) :
    i ∉ kept bs := by
  intro hi
  have hmem : some b ∈ (Node.preorderAll (Node.ofBlocks bs)).map some := by
    rw [Node.map_some_preorder_ofBlocks, ← hb]
    exact List.mem_map_of_mem hi
  exact (keeps_ofBlocks bs).noMarker b (by simpa using hmem) hmarker

theorem Block.mem_kept_iff (hb : bs[i]? = some b)
    (hshort : ∀ v ∈ visits 0 bs, (v.elses bs).length < 2) : i ∈ kept bs ↔ ¬ b.kind.isMarker := by
  refine ⟨fun hi hmarker => notMem_kept_of_isMarker hb hmarker hi, ?_⟩
  intro hmarker
  by_contra hnot
  obtain ⟨v, hv, hskips⟩ := (notMem_kept_iff hb hmarker).1 hnot
  exact Nat.not_lt.2 hskips.two_le_length_elses (hshort v hv)

end

/-- The tree of a program, listed with each opener before its bodies, shows blocks of the program in
their order and no markers. The positions shown are those of `Block.kept`, for these blocks and for
any others of the same kinds, so that the positions of equal blocks are told apart. Of the blocks
that are no markers, exactly those are missing that a branch skips which is shown itself. Where no
such branch has two `else` blocks of its own, nothing but the markers is missing. -/
theorem Node.preorder_ofBlocks (bs : List Block) :
    (Node.preorderAll (Node.ofBlocks bs)).Sublist bs ∧
      (∀ b ∈ Node.preorderAll (Node.ofBlocks bs), ¬ b.kind.isMarker) ∧
      (Block.kept bs).Pairwise (· < ·) ∧
      (∀ cs : List Block, cs.map Block.kind = bs.map Block.kind →
        (Node.preorderAll (Node.ofBlocks cs)).map some = (Block.kept bs).map (cs[·]?)) ∧
      (∀ i b, bs[i]? = some b → ¬ b.kind.isMarker →
        (i ∉ Block.kept bs ↔ ∃ v ∈ Block.visits 0 bs, v.Skips bs i)) ∧
      ((∀ v ∈ Block.visits 0 bs, (v.elses bs).length < 2) →
        Node.preorderAll (Node.ofBlocks bs) = bs.filter (!·.kind.isMarker)) := by
  have hascending := Block.pairwise_kept bs
  have hlisting := Node.map_some_preorder_ofBlocks bs
  refine ⟨sublist_of_map_some hascending hlisting, (keeps_ofBlocks bs).noMarker, hascending, ?_,
    fun i b => Block.notMem_kept_iff, ?_⟩
  · intro cs hkinds
    rw [Node.map_some_preorder_ofBlocks, Block.kept_congr hkinds]
  · intro hshort
    apply eq_filter_of_map_some hascending hlisting
    intro i b hb
    rw [Block.mem_kept_iff hb hshort]
    simp

/-- A branch whose alternative is begun a second time, behind a loop that is opened in between. -/
def Block.begunAnew : List Block :=
  [⟨"star", .branch .onStar, none⟩, ⟨"up", .move .up, none⟩, ⟨"else", .otherwise, none⟩,
    ⟨"loop", .loop, some 3⟩, ⟨"else", .otherwise, none⟩, ⟨"down", .move .down, none⟩,
    ⟨"end", .endBranch, none⟩, ⟨"stray", .endLoop, none⟩, ⟨"left", .move .left, none⟩]

/-- The loop is dropped, and it is there again without the second `else`. -/
theorem Node.preorder_ofBlocks_begunAnew :
    (∃ v ∈ Block.visits 0 Block.begunAnew, v.Skips Block.begunAnew 3) ∧
      Node.preorderAll (Node.ofBlocks (Block.begunAnew.eraseIdx 4)) =
        (Block.begunAnew.eraseIdx 4).filter (!·.kind.isMarker) := by
  obtain ⟨-, -, -, -, hmissing, -⟩ := Node.preorder_ofBlocks Block.begunAnew
  obtain ⟨-, -, -, -, -, hall⟩ := Node.preorder_ofBlocks (Block.begunAnew.eraseIdx 4)
  refine ⟨(hmissing 3 ⟨"loop", .loop, some 3⟩ rfl (by decide)).1 ?_, hall ?_⟩
  · have hkept : Block.kept Block.begunAnew = [0, 1, 5, 8] := by cbv
    rw [hkept]
    decide
  · have hvisits : Block.visits 0 (Block.begunAnew.eraseIdx 4) =
        [⟨0, 8⟩, ⟨1, 2⟩, ⟨3, 5⟩, ⟨4, 5⟩, ⟨7, 8⟩] := by cbv
    rw [hvisits]
    decide

end BlockPuzzle
