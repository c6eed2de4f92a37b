/-
Descents of a search tree: one walk from the root towards a leaf that at each node stops or goes to one side, as a
direction read off the node says.

`search dir t` goes left at a node `x` with `dir x = .lt`, right on `.gt`, and stops at the first `.eq` node;
`descend dir t p` makes the same walk down to a leaf and gives the path to it from `p` on, or `none` when it meets an
`.eq` node. `lastBelow below t best` goes right past the nodes that `below` holds of and remembers the last one;
`firstAbove above t best` goes left past the nodes `above` holds of and remembers the last one.

The walks are specified against the in-order sequence. `SearchOrdered dir l` says that along `l` the directions
run from `.gt` through `.eq` to `.lt`: a node after an `.lt` node is `.lt` and a node before a `.gt` node is `.gt`.

Results:
- `search_eq_none_iff`, `search_eq_find`: on an ordered tree the search finds an `.eq` node when there is one, and
  the only one when there is at most one;
- `descend_eq_some`: on an ordered tree without `.eq` nodes the descent reaches the hole whose left side is `.gt` and
  whose right side is `.lt`;
- `lastBelow_eq`, `firstAbove_eq`: on a sequence that `below` holds of up to a point (and `above` from a point on),
  the walks give the last node of that prefix and the first node of that suffix.
-/
import Naos.Lib.RedBlack

namespace RedBlack

variable {α : Type}

/-! ## The walks -/

namespace RBTree

/-- the first node with direction `.eq` on the way down -/
def search (dir : α → Ordering) : RBTree α → Option α
  | leaf => none
  | node l _ x r =>
    match dir x with
    | .lt => search dir l
    | .eq => some x
    | .gt => search dir r

theorem search_leaf (dir : α → Ordering) : search dir (leaf : RBTree α) = none := rfl

theorem search_node (dir : α → Ordering) (l : RBTree α) (c : Color) (x : α) (r : RBTree α) :
    search dir (node l c x r) =
      match dir x with
      | .lt => search dir l
      | .eq => some x
      | .gt => search dir r := rfl

/-- the path from `p` on down to the leaf the directions lead to, unless a node on the way is `.eq` -/
def descend (dir : α → Ordering) : RBTree α → List (Frame α) → Option (List (Frame α))
  | leaf, p => some p
  | node l c x r, p =>
    match dir x with
    | .lt => descend dir l (.left c x r :: p)
    | .eq => none
    | .gt => descend dir r (.right l c x :: p)

theorem descend_node (dir : α → Ordering) (l : RBTree α) (c : Color) (x : α) (r : RBTree α) (p : List (Frame α)) :
    descend dir (node l c x r) p =
      match dir x with
      | .lt => descend dir l (.left c x r :: p)
      | .eq => none
      | .gt => descend dir r (.right l c x :: p) := rfl

/-- the last node on the way down that `below` holds of, each of which sends the walk right; `best` if none -/
def lastBelow (below : α → Bool) : RBTree α → Option α → Option α
  | leaf, best => best
  | node l _ x r, best => if below x then lastBelow below r (some x) else lastBelow below l best

theorem lastBelow_leaf (below : α → Bool) (best : Option α) : lastBelow below leaf best = best := rfl

theorem lastBelow_node (below : α → Bool) (l : RBTree α) (c : Color) (x : α) (r : RBTree α) (best : Option α) :
    lastBelow below (node l c x r) best = if below x then lastBelow below r (some x) else lastBelow below l best :=
  rfl

/-- the last node on the way down that `above` holds of, each of which sends the walk left; `best` if none -/
def firstAbove (above : α → Bool) : RBTree α → Option α → Option α
  | leaf, best => best
  | node l _ x r, best => if above x then firstAbove above l (some x) else firstAbove above r best

theorem firstAbove_leaf (above : α → Bool) (best : Option α) : firstAbove above leaf best = best := rfl

theorem firstAbove_node (above : α → Bool) (l : RBTree α) (c : Color) (x : α) (r : RBTree α) (best : Option α) :
    firstAbove above (node l c x r) best = if above x then firstAbove above l (some x) else firstAbove above r best :=
  rfl

end RBTree

open RedBlack.RBTree

/-- along `l` the directions run from `.gt` through `.eq` to `.lt` -/
def SearchOrdered (dir : α → Ordering) (l : List α) : Prop :=
  l.Pairwise fun x y => (dir x = .lt → dir y = .lt) ∧ (dir y = .gt → dir x = .gt)

section Ordered

variable {dir : α → Ordering}

/-- the order of a node's sequence splits into that of its subtrees and the node's place between them -/
theorem SearchOrdered.node {l r : RBTree α} {c : Color} {x : α} (hs : SearchOrdered dir (node l c x r).ids) :
    SearchOrdered dir l.ids ∧ SearchOrdered dir r.ids ∧
      (∀ y ∈ l.ids, dir x = .gt → dir y = .gt) ∧ (∀ y ∈ r.ids, dir x = .lt → dir y = .lt) := by
  simp only [SearchOrdered, ids_node, List.pairwise_append, List.pairwise_cons, List.mem_cons] at hs
  obtain ⟨hl, ⟨hxr, hr⟩, hlr⟩ := hs
  exact ⟨hl, hr, fun y hy => (hlr y hy x (.inl rfl)).2, fun y hy => (hxr y hy).1⟩

theorem search_eq_some {t : RBTree α} {x : α} (h : t.search dir = some x) : x ∈ t.ids ∧ dir x = .eq := by
  induction t with
  | leaf => cases h
  | node l c y r ihl ihr =>
    rw [search_node] at h
    split at h
    · exact ⟨by simp [(ihl h).1], (ihl h).2⟩
    · cases h
      exact ⟨by simp, by assumption⟩
    · exact ⟨by simp [(ihr h).1], (ihr h).2⟩

/-- the search comes back empty exactly when no node is `.eq` -/
theorem search_eq_none_iff {t : RBTree α} (hs : SearchOrdered dir t.ids) :
    t.search dir = none ↔ ∀ x ∈ t.ids, dir x ≠ .eq := by
  induction t with
  | leaf => simp [search_leaf]
  | node l c x r ihl ihr =>
    obtain ⟨hsl, hsr, hgt, hlt⟩ := hs.node
    simp only [search_node, ids_node, List.mem_append, List.mem_cons]
    split
    · next hx =>
      rw [ihl hsl]
      exact ⟨fun h y hy => hy.elim (h y) fun hy => hy.elim (fun h' => by simp [h', hx])
        fun hy => by simp [hlt y hy hx], fun h y hy => h y (.inl hy)⟩
    · next hx => exact ⟨nofun, fun h => (h x (.inr (.inl rfl)) hx).elim⟩
    · next hx =>
      rw [ihr hsr]
      exact ⟨fun h y hy => hy.elim (fun hy => by simp [hgt y hy hx]) fun hy => hy.elim (fun h' => by simp [h', hx])
        (h y), fun h y hy => h y (.inr (.inr hy))⟩

/-- when at most one node is `.eq`, the search finds it: the first `.eq` node of the sequence -/
theorem search_eq_find {t : RBTree α} (hs : SearchOrdered dir t.ids)
    (huniq : ∀ x ∈ t.ids, ∀ y ∈ t.ids, dir x = .eq → dir y = .eq → x = y) :
    t.search dir = t.ids.find? fun x => dir x = .eq := by
  cases hsearch : t.search dir with
  | none =>
    have hall := (search_eq_none_iff hs).1 hsearch
    exact (List.find?_eq_none.2 fun x hx => by simpa using hall x hx).symm
  | some y =>
    obtain ⟨hy, hdy⟩ := search_eq_some hsearch
    cases hfind : t.ids.find? fun x => dir x = .eq with
    | none => exact absurd (List.find?_eq_none.1 hfind y hy) (by simpa using hdy)
    | some z =>
      have hz := List.mem_of_find?_eq_some hfind
      have hdz : dir z = .eq := by simpa using List.find?_some hfind
      rw [huniq y hy z hz hdy hdz]

end Ordered

/-! ## The descent to a hole -/

theorem leftIds_append : ∀ (q r : List (Frame α)), leftIds (q ++ r) = leftIds r ++ leftIds q
  | [], _ => by simp
  | .left _ _ _ :: q, r => by simp [leftIds_append q r]
  | .right _ _ _ :: q, r => by simp [leftIds_append q r]

theorem rightIds_append : ∀ (q r : List (Frame α)), rightIds (q ++ r) = rightIds q ++ rightIds r
  | [], _ => by simp
  | .left _ _ _ :: q, r => by simp [rightIds_append q r]
  | .right _ _ _ :: q, r => by simp [rightIds_append q r]

section Descend

variable {dir : α → Ordering}

/-- on an ordered tree without `.eq` nodes the descent reaches a hole of the tree, with the `.gt` nodes before it
and the `.lt` nodes after it -/
theorem descend_eq_some {t : RBTree α} (hs : SearchOrdered dir t.ids) (hne : ∀ x ∈ t.ids, dir x ≠ .eq)
    (p : List (Frame α)) :
    ∃ q, t.descend dir p = some (q ++ p) ∧ fill q .leaf = t ∧ (∀ y ∈ leftIds q, dir y = .gt) ∧
      ∀ y ∈ rightIds q, dir y = .lt := by
  induction t generalizing p with
  | leaf => exact ⟨[], rfl, rfl, by simp, by simp⟩
  | node l c x r ihl ihr =>
    obtain ⟨hsl, hsr, hgt, hlt⟩ := hs.node
    have hx := hne x (by simp)
    cases hdx : dir x with
    | eq => exact absurd hdx hx
    | lt =>
      obtain ⟨q, hq, hfill, hleft, hright⟩ := ihl hsl (fun y hy => hne y (by simp [hy])) (.left c x r :: p)
      refine ⟨q ++ [.left c x r], by simp [descend_node, hdx, hq], by rw [fill_append, hfill]; rfl, ?_, ?_⟩
      · simpa [leftIds_append] using hleft
      · simp only [rightIds_append, rightIds_left, rightIds_nil, List.mem_append, List.mem_cons]
        rintro y (hy | (rfl | hy) | hy)
        exacts [hright y hy, hdx, hlt y hy hdx, by simp at hy]
    | gt =>
      obtain ⟨q, hq, hfill, hleft, hright⟩ := ihr hsr (fun y hy => hne y (by simp [hy])) (.right l c x :: p)
      refine ⟨q ++ [.right l c x], by simp [descend_node, hdx, hq], by rw [fill_append, hfill]; rfl, ?_, ?_⟩
      · simp only [leftIds_append, leftIds_right, leftIds_nil, List.mem_append, List.mem_singleton]
        rintro y (((hy | hy) | rfl) | hy)
        exacts [by simp at hy, hgt y hy hdx, hdx, hleft y hy]
      · simpa [rightIds_append] using hright

end Descend

/-! ## The walks that remember a node -/

section Best

/-- when `below` holds of a prefix of the sequence, the walk gives the last node of that prefix -/
theorem lastBelow_eq {below : α → Bool} {t : RBTree α} (hs : t.ids.Pairwise fun x y => below y → below x)
    (best : Option α) : t.lastBelow below best = ((t.ids.filter below).getLast?).or best := by
  induction t generalizing best with
  | leaf => simp [lastBelow_leaf]
  | node l c x r ihl ihr =>
    simp only [ids_node, List.pairwise_append, List.pairwise_cons, List.mem_cons] at hs
    obtain ⟨hsl, ⟨hxr, hsr⟩, hlr⟩ := hs
    by_cases hx : below x
    · have hl : l.ids.filter below = l.ids := List.filter_eq_self.2 fun y hy => hlr y hy x (.inl rfl) hx
      rw [lastBelow_node, if_pos hx, ihr hsr, ids_node, List.filter_append, hl, List.filter_cons_of_pos hx, List.getLast?_append,
        List.getLast?_cons]
      cases (r.ids.filter below).getLast? <;> simp
    · have hr : r.ids.filter below = [] :=
        List.filter_eq_nil_iff.2 fun y hy hby => hx (hxr y hy hby)
      rw [lastBelow_node, if_neg hx, ihl hsl]
      simp [List.filter_append, hx, hr]

/-- when `above` holds of a suffix of the sequence, the walk gives the first node of that suffix -/
theorem firstAbove_eq {above : α → Bool} {t : RBTree α} (hs : t.ids.Pairwise fun x y => above x → above y)
    (best : Option α) : t.firstAbove above best = (t.ids.find? above).or best := by
  induction t generalizing best with
  | leaf => simp [firstAbove_leaf]
  | node l c x r ihl ihr =>
    simp only [ids_node, List.pairwise_append, List.pairwise_cons, List.mem_cons] at hs
    obtain ⟨hsl, ⟨hxr, hsr⟩, hlr⟩ := hs
    by_cases hx : above x
    · rw [firstAbove_node, if_pos hx, ihl hsl]
      cases hf : l.ids.find? above <;> simp [List.find?_append, hf, hx]
    · have hl : l.ids.find? above = none :=
        List.find?_eq_none.2 fun y hy hay => hx (hlr y hy x (.inl rfl) hay)
      rw [firstAbove_node, if_neg hx, ihr hsr]
      simp [List.find?_append, hl, hx]

end Best

end RedBlack
