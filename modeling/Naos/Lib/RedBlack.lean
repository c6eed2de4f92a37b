/-
Red-black trees as trees of identified, coloured nodes: the balance invariant, paths into a tree (zippers) and the
invariant of a path with a hole, and the in-order sequence of nodes.

A path is the list of frames from the hole up to the root; a frame records the parent's colour and identity and the
sibling subtree. `PathBal c₀ n₀ p c n` says that filling the hole of `p` with a balanced tree of root colour `c` and
black height `n` gives a tree balanced at `c₀, n₀`.

Results:
- `Balanced.fill` (`PathBal.fill`): a balanced path filled with a fitting balanced tree is balanced;
- `ids_fill`: the in-order sequence of a filled path;
- `Balanced.zoom`: the converse, a balanced tree splits at any hole;
- `PathBal.left_inv`, `PathBal.right_inv`: what a path says about its first frame;
- `PathBal.recolor_red`: a path for a black hole takes a red tree, unless the parent is red.
-/
import Mathlib

namespace RedBlack

inductive Color where
  | red
  | black
  deriving DecidableEq, Repr

inductive RBTree (α : Type) where
  | leaf
  | node (l : RBTree α) (c : Color) (x : α) (r : RBTree α)
  deriving DecidableEq, Repr

variable {α : Type}

namespace RBTree

/-- the nodes in order -/
def ids : RBTree α → List α
  | leaf => []
  | node l _ x r => l.ids ++ x :: r.ids

/-- the colour of the root; a leaf counts as black -/
def color : RBTree α → Color
  | leaf => .black
  | node _ c _ _ => c

/-- the root node -/
def top : RBTree α → Option α
  | leaf => none
  | node _ _ x _ => some x

def setBlack : RBTree α → RBTree α
  | leaf => leaf
  | node l _ x r => node l .black x r

@[simp] theorem ids_leaf : (leaf : RBTree α).ids = [] := rfl

@[simp] theorem ids_node (l r : RBTree α) (c : Color) (x : α) : (node l c x r).ids = l.ids ++ x :: r.ids := rfl

@[simp] theorem top_leaf : (leaf : RBTree α).top = none := rfl

@[simp] theorem top_node (l r : RBTree α) (c : Color) (x : α) : (node l c x r).top = some x := rfl

theorem mem_ids_of_top {t : RBTree α} {x : α} (h : t.top = some x) : x ∈ t.ids := by
  cases t with
  | leaf => cases h
  | node l c y r =>
    cases h
    simp

/-- a node outside a tree is not its root -/
theorem top_ne_of_not_mem {t : RBTree α} {x : α} (h : x ∉ t.ids) : t.top ≠ some x :=
  fun ht => h (mem_ids_of_top ht)

@[simp] theorem ids_setBlack (t : RBTree α) : t.setBlack.ids = t.ids := by
  cases t <;> rfl

end RBTree

open RedBlack.RBTree

/-! ## The balance invariant -/

/-- `Balanced t c n`: the root of `t` has colour `c`, no red node has a red child, and every path from the root to
a leaf passes `n` black nodes -/
inductive Balanced : RBTree α → Color → Nat → Prop where
  | leaf : Balanced leaf .black 0
  | red {l r : RBTree α} {x : α} {n : Nat} :
      Balanced l .black n → Balanced r .black n → Balanced (node l .red x r) .red n
  | black {l r : RBTree α} {x : α} {n : Nat} {cl cr : Color} :
      Balanced l cl n → Balanced r cr n → Balanced (node l .black x r) .black (n + 1)

namespace Balanced

variable {t : RBTree α} {c : Color} {n : Nat}

theorem color_eq (h : Balanced t c n) : t.color = c := by
  cases h <;> rfl

/-- blackening the root keeps the tree balanced, one level higher if the root was red -/
theorem setBlack (h : Balanced t c n) : ∃ n', Balanced t.setBlack .black n' := by
  cases h with
  | leaf => exact ⟨0, .leaf⟩
  | red hl hr => exact ⟨_, .black hl hr⟩
  | black hl hr => exact ⟨_, .black hl hr⟩

/-- blackening a black tree changes nothing -/
theorem setBlack_eq (h : Balanced t .black n) : t.setBlack = t := by
  cases h <;> rfl

/-- a black tree of black height zero is a leaf -/
theorem eq_leaf_of_zero (h : Balanced t .black 0) : t = .leaf := by
  cases h
  rfl

theorem red_inv {l r : RBTree α} {x : α} (h : Balanced (node l .red x r) c n) :
    c = .red ∧ Balanced l .black n ∧ Balanced r .black n := by
  cases h with
  | red hl hr => exact ⟨rfl, hl, hr⟩

theorem black_inv {l r : RBTree α} {x : α} (h : Balanced (node l .black x r) c n) :
    c = .black ∧ ∃ m cl cr, n = m + 1 ∧ Balanced l cl m ∧ Balanced r cr m := by
  cases h with
  | black hl hr => exact ⟨rfl, _, _, _, rfl, hl, hr⟩

end Balanced

/-- a red-black tree: balanced with a black root -/
def IsRB (t : RBTree α) : Prop := ∃ n, Balanced t .black n

/-- a red-black tree has a black root already -/
theorem IsRB.setBlack {t : RBTree α} (h : IsRB t) : IsRB t.setBlack := by
  obtain ⟨n, hn⟩ := h
  rw [hn.setBlack_eq]
  exact ⟨n, hn⟩

/-! ## Paths -/

/-- one step from a hole up to its parent -/
inductive Frame (α : Type) where
  /-- the hole is the left child of `x`, whose right subtree is `r` -/
  | left (c : Color) (x : α) (r : RBTree α)
  /-- the hole is the right child of `x`, whose left subtree is `l` -/
  | right (l : RBTree α) (c : Color) (x : α)
  deriving DecidableEq, Repr

/-- the tree a path gives around a subtree -/
def fill : List (Frame α) → RBTree α → RBTree α
  | [], t => t
  | .left c x r :: p, t => fill p (node t c x r)
  | .right l c x :: p, t => fill p (node l c x t)

/-- the nodes of a path before its hole, in order -/
def leftIds : List (Frame α) → List α
  | [] => []
  | .left _ _ _ :: p => leftIds p
  | .right l _ x :: p => leftIds p ++ l.ids ++ [x]

/-- the nodes of a path after its hole, in order -/
def rightIds : List (Frame α) → List α
  | [] => []
  | .left _ x r :: p => x :: r.ids ++ rightIds p
  | .right _ _ _ :: p => rightIds p

@[simp] theorem leftIds_nil : leftIds ([] : List (Frame α)) = [] := rfl

@[simp] theorem leftIds_left (c : Color) (x : α) (r : RBTree α) (p : List (Frame α)) :
    leftIds (.left c x r :: p) = leftIds p := rfl

@[simp] theorem leftIds_right (l : RBTree α) (c : Color) (x : α) (p : List (Frame α)) :
    leftIds (.right l c x :: p) = leftIds p ++ l.ids ++ [x] := rfl

@[simp] theorem rightIds_nil : rightIds ([] : List (Frame α)) = [] := rfl

@[simp] theorem rightIds_left (c : Color) (x : α) (r : RBTree α) (p : List (Frame α)) :
    rightIds (.left c x r :: p) = x :: r.ids ++ rightIds p := rfl

@[simp] theorem rightIds_right (l : RBTree α) (c : Color) (x : α) (p : List (Frame α)) :
    rightIds (.right l c x :: p) = rightIds p := rfl

namespace Frame

/-- the parent node of the hole -/
def id : Frame α → α
  | .left _ x _ => x
  | .right _ _ x => x

/-- the colour of the parent node of the hole -/
def color : Frame α → Color
  | .left c _ _ => c
  | .right _ c _ => c

/-- the sibling subtree of the hole -/
def sibling : Frame α → RBTree α
  | .left _ _ r => r
  | .right l _ _ => l

/-- the frame with its parent recoloured -/
def withColor : Frame α → Color → Frame α
  | .left _ x r, c => .left c x r
  | .right l _ x, c => .right l c x

variable (c : Color) (x : α) (t : RBTree α)

@[simp] theorem id_left : (Frame.left c x t).id = x := rfl
@[simp] theorem id_right : (Frame.right t c x).id = x := rfl
@[simp] theorem color_left : (Frame.left c x t).color = c := rfl
@[simp] theorem color_right : (Frame.right t c x).color = c := rfl
@[simp] theorem sibling_left : (Frame.left c x t).sibling = t := rfl
@[simp] theorem sibling_right : (Frame.right t c x).sibling = t := rfl
@[simp] theorem withColor_left (c' : Color) : (Frame.left c x t).withColor c' = .left c' x t := rfl
@[simp] theorem withColor_right (c' : Color) : (Frame.right t c x).withColor c' = .right t c' x := rfl

end Frame

/-- the parent of the hole -/
def pathTop : List (Frame α) → Option α
  | [] => none
  | .left _ x _ :: _ => some x
  | .right _ _ x :: _ => some x

/-- the nodes of a path -/
def pathIds (p : List (Frame α)) : List α := leftIds p ++ rightIds p

theorem pathIds_eq (p : List (Frame α)) : pathIds p = leftIds p ++ rightIds p := rfl

@[simp] theorem fill_nil (t : RBTree α) : fill [] t = t := rfl

@[simp] theorem fill_left (c : Color) (x : α) (r : RBTree α) (p : List (Frame α)) (t : RBTree α) :
    fill (.left c x r :: p) t = fill p (node t c x r) := rfl

@[simp] theorem fill_right (l : RBTree α) (c : Color) (x : α) (p : List (Frame α)) (t : RBTree α) :
    fill (.right l c x :: p) t = fill p (node l c x t) := rfl

/-- a path fills its first frame first -/
theorem fill_cons (f : Frame α) (p : List (Frame α)) (t : RBTree α) : fill (f :: p) t = fill p (fill [f] t) := by
  cases f <;> rfl

@[simp] theorem top_fill_singleton (f : Frame α) (t : RBTree α) : (fill [f] t).top = some f.id := by
  cases f <;> rfl

theorem fill_append : ∀ (q r : List (Frame α)) (t : RBTree α), fill (q ++ r) t = fill r (fill q t)
  | [], _, _ => rfl
  | .left _ _ _ :: q, r, _ => fill_append q r _
  | .right _ _ _ :: q, r, _ => fill_append q r _

/-- every node of a tree is the root of a subtree at some hole -/
theorem exists_fill_of_mem {x : α} : ∀ {t : RBTree α}, x ∈ t.ids → ∃ p l c r, t = fill p (node l c x r)
  | leaf, h => by simp at h
  | node l c y r, h => by
    simp only [ids_node, List.mem_append, List.mem_cons] at h
    rcases h with hl | rfl | hr
    · obtain ⟨p, l', c', r', he⟩ := exists_fill_of_mem hl
      exact ⟨p ++ [.left c y r], l', c', r', by rw [fill_append, ← he]; rfl⟩
    · exact ⟨[], l, c, r, rfl⟩
    · obtain ⟨p, l', c', r', he⟩ := exists_fill_of_mem hr
      exact ⟨p ++ [.right l c y], l', c', r', by rw [fill_append, ← he]; rfl⟩

theorem ids_fill : ∀ (p : List (Frame α)) (t : RBTree α), (fill p t).ids = leftIds p ++ t.ids ++ rightIds p
  | [], t => by simp
  | .left c x r :: p, t => by
    rw [fill_left, ids_fill p]
    simp
  | .right l c x :: p, t => by
    rw [fill_right, ids_fill p]
    simp

/-- two fillings of one path have the same nodes around the hole -/
theorem ids_fill_congr (p : List (Frame α)) {t t' : RBTree α} (h : t.ids = t'.ids) :
    (fill p t).ids = (fill p t').ids := by
  rw [ids_fill, ids_fill, h]

@[simp] theorem pathIds_nil : pathIds ([] : List (Frame α)) = [] := rfl

theorem perm_pathIds_left (c : Color) (x : α) (r : RBTree α) (p : List (Frame α)) :
    (pathIds (.left c x r :: p)).Perm (x :: r.ids ++ pathIds p) := by
  simp only [pathIds_eq, leftIds_left, rightIds_left]
  exact List.perm_middle.trans (by simpa using List.perm_append_comm_assoc _ _ _)

theorem perm_pathIds_right (l : RBTree α) (c : Color) (x : α) (p : List (Frame α)) :
    (pathIds (.right l c x :: p)).Perm (x :: l.ids ++ pathIds p) := by
  simp only [pathIds_eq, leftIds_right, rightIds_right]
  have h : (leftIds p ++ l.ids ++ [x] ++ rightIds p).Perm (leftIds p ++ (x :: l.ids) ++ rightIds p) := by
    simp [List.perm_append_left_iff, List.perm_middle]
  exact h.trans (by simpa using List.perm_append_comm_assoc (leftIds p) (x :: l.ids) (rightIds p))

theorem length_le_pathIds : ∀ p : List (Frame α), p.length ≤ (pathIds p).length
  | [] => le_rfl
  | .left c x r :: p => by
    have := length_le_pathIds p
    rw [(perm_pathIds_left c x r p).length_eq]
    simp
    omega
  | .right l c x :: p => by
    have := length_le_pathIds p
    rw [(perm_pathIds_right l c x p).length_eq]
    simp
    omega

theorem length_le_ids_fill (p : List (Frame α)) (t : RBTree α) : p.length ≤ (fill p t).ids.length := by
  have := length_le_pathIds p
  simp only [pathIds_eq, List.length_append] at this
  simp only [ids_fill, List.length_append]
  omega

@[simp] theorem pathTop_nil : pathTop ([] : List (Frame α)) = none := rfl

@[simp] theorem pathTop_cons (f : Frame α) (p : List (Frame α)) : pathTop (f :: p) = some f.id := by
  cases f <;> rfl

/-- the root of a tree filled into a nonempty path is a node of the path -/
theorem top_fill_mem : ∀ {p : List (Frame α)} (t : RBTree α), p ≠ [] → ∃ y, (fill p t).top = some y ∧ y ∈ pathIds p
  | [], _, h => absurd rfl h
  | [.left c x r], t, _ => ⟨x, rfl, by simp [pathIds_eq]⟩
  | [.right l c x], t, _ => ⟨x, rfl, by simp [pathIds_eq]⟩
  | .left c x r :: f :: p, t, _ => by
    obtain ⟨y, hy, hm⟩ := top_fill_mem (p := f :: p) (node t c x r) (List.cons_ne_nil _ _)
    exact ⟨y, hy, (perm_pathIds_left c x r _).mem_iff.2 (by simp [hm])⟩
  | .right l c x :: f :: p, t, _ => by
    obtain ⟨y, hy, hm⟩ := top_fill_mem (p := f :: p) (node l c x t) (List.cons_ne_nil _ _)
    exact ⟨y, hy, (perm_pathIds_right l c x _).mem_iff.2 (by simp [hm])⟩

/-- the root of a tree filled into a nonempty path does not depend on the subtree -/
theorem top_fill_of_ne_nil : ∀ {p : List (Frame α)} (t t' : RBTree α), p ≠ [] → (fill p t).top = (fill p t').top
  | [], _, _, h => absurd rfl h
  | [f], t, t', _ => by simp
  | f :: g :: p, t, t', _ => by
    rw [fill_cons f, fill_cons f (g :: p) t']
    exact top_fill_of_ne_nil _ _ (List.cons_ne_nil _ _)

/-- a path of left frames has nothing before its hole: the hole is the leftmost place of the tree -/
theorem leftIds_eq_nil {p : List (Frame α)} (h : ∀ f ∈ p, ∃ c x r, f = Frame.left c x r) : leftIds p = [] := by
  induction p with
  | nil => rfl
  | cons f p ih =>
    obtain ⟨c, x, r, rfl⟩ := h f (by simp)
    exact ih fun g hg => h g (by simp [hg])

/-- the leftmost node of a tree comes first in its in-order sequence -/
theorem ids_fill_leftmost {p : List (Frame α)} {c : Color} {x : α} {t : RBTree α}
    (h : ∀ f ∈ p, ∃ c x r, f = Frame.left c x r) : (fill p (node leaf c x t)).ids = x :: (fill p t).ids := by
  simp [ids_fill, leftIds_eq_nil h]

theorem pathTop_mem {p : List (Frame α)} {x : α} (h : pathTop p = some x) : x ∈ pathIds p := by
  match p, h with
  | .left _ _ _ :: _, rfl => simp [pathIds_eq]
  | .right _ _ _ :: _, rfl => simp [pathIds_eq]

/-- the nodes of a filled path are distinct when those of the subtree and those of the path are, apart -/
theorem nodup_fill_iff (p : List (Frame α)) (t : RBTree α) :
    (fill p t).ids.Nodup ↔ t.ids.Nodup ∧ (pathIds p).Nodup ∧ ∀ i ∈ t.ids, i ∉ pathIds p := by
  have hperm : (leftIds p ++ t.ids ++ rightIds p).Perm (t.ids ++ pathIds p) := by
    simpa [pathIds_eq] using List.perm_append_comm_assoc (leftIds p) t.ids (rightIds p)
  rw [ids_fill, hperm.nodup_iff, List.nodup_append]
  exact and_congr_right fun _ => and_congr_right fun _ =>
    ⟨fun h i hi hip => h i hi i hip rfl, fun h a ha b hb hab => h a ha (hab ▸ hb)⟩

/-! ## Balanced paths -/

/-- `PathBal c₀ n₀ p c n`: filling the hole of `p` with a balanced tree of root colour `c` and black height `n`
gives a tree balanced at `c₀, n₀` -/
inductive PathBal (c₀ : Color) (n₀ : Nat) : List (Frame α) → Color → Nat → Prop where
  | root : PathBal c₀ n₀ [] c₀ n₀
  | redL {x : α} {r : RBTree α} {p : List (Frame α)} {n : Nat} :
      Balanced r .black n → PathBal c₀ n₀ p .red n → PathBal c₀ n₀ (.left .red x r :: p) .black n
  | redR {x : α} {l : RBTree α} {p : List (Frame α)} {n : Nat} :
      Balanced l .black n → PathBal c₀ n₀ p .red n → PathBal c₀ n₀ (.right l .red x :: p) .black n
  | blackL {x : α} {r : RBTree α} {p : List (Frame α)} {n : Nat} {c cr : Color} :
      Balanced r cr n → PathBal c₀ n₀ p .black (n + 1) → PathBal c₀ n₀ (.left .black x r :: p) c n
  | blackR {x : α} {l : RBTree α} {p : List (Frame α)} {n : Nat} {c cl : Color} :
      Balanced l cl n → PathBal c₀ n₀ p .black (n + 1) → PathBal c₀ n₀ (.right l .black x :: p) c n

namespace PathBal

variable {c₀ : Color} {n₀ : Nat}

theorem fill {p : List (Frame α)} {t : RBTree α} {c : Color} {n : Nat} (hp : PathBal c₀ n₀ p c n)
    (ht : Balanced t c n) : Balanced (RedBlack.fill p t) c₀ n₀ := by
  induction hp generalizing t with
  | root => exact ht
  | redL hr _ ih => exact ih (.red ht hr)
  | redR hl _ ih => exact ih (.red hl ht)
  | blackL hr _ ih => exact ih (.black ht hr)
  | blackR hl _ ih => exact ih (.black hl ht)

theorem nil_inv {c : Color} {n : Nat} (h : PathBal c₀ n₀ ([] : List (Frame α)) c n) : c = c₀ ∧ n = n₀ := by
  cases h
  exact ⟨rfl, rfl⟩

/-- the first frame of a path whose hole is a left child -/
theorem left_inv {cx : Color} {x : α} {r : RBTree α} {p : List (Frame α)} {c : Color} {n : Nat}
    (h : PathBal c₀ n₀ (.left cx x r :: p) c n) :
    (cx = .red ∧ c = .black ∧ Balanced r .black n ∧ PathBal c₀ n₀ p .red n) ∨
      (cx = .black ∧ ∃ cr, Balanced r cr n ∧ PathBal c₀ n₀ p .black (n + 1)) := by
  cases h with
  | redL hr hp => exact .inl ⟨rfl, rfl, hr, hp⟩
  | blackL hr hp => exact .inr ⟨rfl, _, hr, hp⟩

/-- the first frame of a path whose hole is a right child -/
theorem right_inv {cx : Color} {x : α} {l : RBTree α} {p : List (Frame α)} {c : Color} {n : Nat}
    (h : PathBal c₀ n₀ (.right l cx x :: p) c n) :
    (cx = .red ∧ c = .black ∧ Balanced l .black n ∧ PathBal c₀ n₀ p .red n) ∨
      (cx = .black ∧ ∃ cl, Balanced l cl n ∧ PathBal c₀ n₀ p .black (n + 1)) := by
  cases h with
  | redR hl hp => exact .inl ⟨rfl, rfl, hl, hp⟩
  | blackR hl hp => exact .inr ⟨rfl, _, hl, hp⟩

/-- below a black root, a hole that takes a red tree has a black parent, so it takes a tree of any colour -/
theorem of_red_hole {p : List (Frame α)} {N n : Nat} {c : Color} (h : PathBal .black N p .red n) :
    PathBal .black N p c n := by
  cases h with
  | blackL hr hp => exact .blackL hr hp
  | blackR hl hp => exact .blackR hl hp

/-- the balance of a path does not depend on its nodes: the node of one right frame may be replaced -/
theorem relabel_right {l : RBTree α} {cx : Color} {x y : α} {q : List (Frame α)} :
    ∀ (p : List (Frame α)) {c : Color} {n : Nat}, PathBal c₀ n₀ (p ++ .right l cx x :: q) c n →
      PathBal c₀ n₀ (p ++ .right l cx y :: q) c n
  | [], _, _, h => by
    cases h with
    | redR hl hp => exact .redR hl hp
    | blackR hl hp => exact .blackR hl hp
  | f :: p, _, _, h => by
    cases h with
    | redL hr hp => exact .redL hr (relabel_right p hp)
    | redR hl hp => exact .redR hl (relabel_right p hp)
    | blackL hr hp => exact .blackL hr (relabel_right p hp)
    | blackR hl hp => exact .blackR hl (relabel_right p hp)

end PathBal

/-- a balanced tree seen from a hole: a balanced path around a balanced subtree -/
theorem Balanced.zoom {c₀ : Color} {n₀ : Nat} {p : List (Frame α)} {t : RBTree α}
    (h : Balanced (fill p t) c₀ n₀) : ∃ c n, PathBal c₀ n₀ p c n ∧ Balanced t c n := by
  induction p generalizing t with
  | nil => exact ⟨_, _, .root, h⟩
  | cons f p ih =>
    cases f with
    | left c x r =>
      obtain ⟨_, _, hp, ht⟩ := ih (t := .node t c x r) h
      cases ht with
      | red hl hr => exact ⟨_, _, .redL hr hp, hl⟩
      | black hl hr => exact ⟨_, _, .blackL hr hp, hl⟩
    | right l c x =>
      obtain ⟨_, _, hp, ht⟩ := ih (t := .node l c x t) h
      cases ht with
      | red hl hr => exact ⟨_, _, .redR hl hp, hr⟩
      | black hl hr => exact ⟨_, _, .blackR hl hp, hr⟩

/-- the first frame of a path is red, with a black sibling of height `n` -/
def RedFrame (f : Frame α) (n : Nat) : Prop :=
  (∃ x r, f = .left .red x r ∧ Balanced r .black n) ∨ (∃ l x, f = .right l .red x ∧ Balanced l .black n)

namespace PathBal

variable {c₀ : Color} {n₀ : Nat}

/-- a path with a black hole takes a red tree in the hole, unless the hole is the root or its parent is red; in
that last case the parent's own hole takes a red tree -/
theorem recolor_red {p : List (Frame α)} {n : Nat} (h : PathBal c₀ n₀ p .black n) :
    (p = [] ∧ c₀ = .black ∧ n = n₀) ∨ PathBal c₀ n₀ p .red n ∨
      ∃ f q, p = f :: q ∧ RedFrame f n ∧ PathBal c₀ n₀ q .red n := by
  cases h with
  | root => exact .inl ⟨rfl, rfl, rfl⟩
  | redL hr hp => exact .inr (.inr ⟨_, _, rfl, .inl ⟨_, _, rfl, hr⟩, hp⟩)
  | redR hl hp => exact .inr (.inr ⟨_, _, rfl, .inr ⟨_, _, rfl, hl⟩, hp⟩)
  | blackL hr hp => exact .inr (.inl (.blackL hr hp))
  | blackR hl hp => exact .inr (.inl (.blackR hl hp))

end PathBal

end RedBlack
