/-!
# Best ratings

## Main definitions

* `Ratings`: the rating of some levels, in the order of their numbers.
* `Ratings.get?`, `Ratings.insert`: looking up and replacing a rating.
* `Ratings.total`: their sum.
-/

namespace BlockPuzzle

/-- Levels with their ratings. Each level stands there once. -/
structure Ratings where
  entries : List (Nat × Nat)
  sorted : entries.Pairwise (fun a b => a.1 < b.1)
  deriving DecidableEq, Repr

namespace Ratings

/-- No level has a rating. -/
def empty : Ratings := ⟨[], .nil⟩

def insertEntry (level stars : Nat) : List (Nat × Nat) → List (Nat × Nat)
  | [] => [(level, stars)]
  | e :: es =>
    if level < e.1 then (level, stars) :: e :: es
    else if level = e.1 then (level, stars) :: es
    else e :: insertEntry level stars es

theorem mem_insertEntry {level stars : Nat} {x : Nat × Nat} {es : List (Nat × Nat)}
    (h : x ∈ insertEntry level stars es) : x = (level, stars) ∨ x ∈ es := by
  fun_induction insertEntry level stars es <;> grind

theorem pairwise_insertEntry (level stars : Nat) {es : List (Nat × Nat)}
    (h : es.Pairwise (fun a b => a.1 < b.1)) :
    (insertEntry level stars es).Pairwise (fun a b => a.1 < b.1) := by
  fun_induction insertEntry level stars es with
  | case1 => simp
  | case2 e es hlt =>
    refine List.pairwise_cons.2 ⟨fun x hx => ?_, h⟩
    rcases List.mem_cons.1 hx with rfl | hx
    · exact hlt
    · exact Nat.lt_trans hlt ((List.pairwise_cons.1 h).1 x hx)
  | case3 e es hlt heq =>
    obtain ⟨he, hes⟩ := List.pairwise_cons.1 h
    exact List.pairwise_cons.2 ⟨fun x hx => heq ▸ he x hx, hes⟩
  | case4 e es hlt hne ih =>
    obtain ⟨he, hes⟩ := List.pairwise_cons.1 h
    refine List.pairwise_cons.2 ⟨fun x hx => ?_, ih hes⟩
    rcases mem_insertEntry hx with rfl | hx
    · simp only; omega
    · exact he x hx

/-- The ratings in which `level` has `stars`. -/
def insert (r : Ratings) (level stars : Nat) : Ratings :=
  ⟨insertEntry level stars r.entries, pairwise_insertEntry level stars r.sorted⟩

def get? (r : Ratings) (level : Nat) : Option Nat := r.entries.lookup level

/-- The rating of a level; zero if it has none. -/
def best (r : Ratings) (level : Nat) : Nat := (r.get? level).getD 0

/-- The ratings in which `level` has at least `stars`. -/
def raise (r : Ratings) (level stars : Nat) : Ratings := r.insert level (max (r.best level) stars)

def total (r : Ratings) : Nat := r.entries.foldr (fun e sum => e.2 + sum) 0

end Ratings

end BlockPuzzle
