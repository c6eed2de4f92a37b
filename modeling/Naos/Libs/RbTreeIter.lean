/-
rb_first and rb_next of rbtree.c against the in-order sequence of the tree the heap links.

rb_next of a node with a right subtree goes down to the leftmost node of that subtree. Of a node without one it
climbs while the node is the right child of its parent, and gives the parent it stops at. On the frames from the
node up to the root, that parent is the node of the first left frame: the first node of `rightIds p`, which is what
follows the node's subtree in the in-order sequence.

Results:
- `rbFirst_eq`: rb_first gives the first node of the in-order sequence, and NULL for an empty tree;
- `climbRight_spec`: the climb of rb_next gives the node that follows a subtree;
- `rbNext_eq`: rb_next gives the node after a node in the in-order sequence, and NULL after the last one.
-/
import Naos.Libs.RbTreeUnlink

namespace Naos.RbTree

open RedBlack RBTree RbHeap

variable {β : Type} {h : RbHeap β} {fuel : Nat}

/-- the frames above a subtree are fewer than the nodes of the whole tree -/
theorem length_lt_fill {p : List (Frame Nat)} {t : RBTree Nat} {x : Nat} (hx : t.top = some x) :
    p.length < (fill p t).ids.length := by
  have hlen := RedBlack.length_le_pathIds p
  have hpos := List.length_pos_of_mem (mem_ids_of_top hx)
  rw [ids_fill, List.length_append, List.length_append]
  simp only [pathIds_eq, List.length_append] at hlen
  omega

/-- rb_first gives the first node of the in-order sequence, and NULL for an empty tree -/
theorem rbFirst_eq {T : RBTree Nat} (hat : At h [] T) (hfuel : T.ids.length < fuel) :
    rbFirst fuel h = some T.ids.head? := by
  have hroot : h.root = T.top := hat.path
  cases T with
  | leaf => simp [rbFirst, hroot]
  | node l c x r =>
    obtain ⟨q, cs, s, D, hrun, hT, hq⟩ := leftmost_spec fuel hat rfl hfuel
    have hhead : (RBTree.node l c x r).ids.head? = some s := by
      rw [hT, ids_fill_leftmost hq]
      rfl
    rw [rbFirst, hroot, top_node]
    show Option.map some (leftmost h fuel x) = _
    rw [hrun, hhead]
    rfl

/-- the climb of rb_next from the root of a linked subtree gives the node of the first left frame above it: the
node after the subtree in the in-order sequence, or NULL when the subtree ends the sequence. The induction is on
the frames, one case for each side the subtree hangs on. -/
theorem climbRight_spec {p : List (Frame Nat)} {t : RBTree Nat} {x : Nat} (hat : At h p t) (hx : t.top = some x)
    (hfuel : p.length < fuel) : climbRight h fuel x = some (rightIds p).head? := by
  induction p generalizing t x fuel with
  | nil =>
    obtain ⟨fuel, rfl⟩ : ∃ f, fuel = f + 1 := ⟨fuel - 1, by simp at hfuel; omega⟩
    simp [climbRight, hat.parent_of_top hx]
  | cons f p ih =>
    obtain ⟨fuel, rfl⟩ : ∃ f, fuel = f + 1 := ⟨fuel - 1, by simp at hfuel; omega⟩
    have hpar := hat.parent_of_top hx
    cases f with
    | left c y r =>
      have hat' : At h p (.node t c y r) := (at_cons_iff).1 hat
      have hright : (h.nodes y).right = r.top := by simp [hat'.nodes_top]
      have hne : some x ≠ r.top := by
        intro hxr
        have hnd := hat'.nodup_tree
        simp only [ids_node] at hnd
        exact (List.nodup_append.1 hnd).2.2 x (mem_ids_of_top hx) x
          (List.mem_cons_of_mem _ (mem_ids_of_top hxr.symm)) rfl
      simp [climbRight, hpar, hright, hne]
    | right l c y =>
      have hat' : At h p (.node l c y t) := (at_cons_iff).1 hat
      have hright : (h.nodes y).right = some x := by simp [hat'.nodes_top, hx]
      simp only [climbRight, hpar, pathTop_cons, Frame.id_right, hright, if_true, rightIds_right]
      exact ih hat' rfl (by simp at hfuel; omega)

/-- rb_next gives the node after `x` in the in-order sequence of the tree, and NULL when `x` is the last -/
theorem rbNext_eq {T : RBTree Nat} {A B : List Nat} {x : Nat} (hat : At h [] T) (hAB : T.ids = A ++ x :: B)
    (hfuel : T.ids.length < fuel) : rbNext fuel h x = some B.head? := by
  have hx : x ∈ T.ids := by simp [hAB]
  obtain ⟨p, l, c, r, rfl⟩ := exists_fill_of_mem hx
  have hatx : At h p (.node l c x r) := (at_iff_fill).2 hat
  have hB : B = r.ids ++ rightIds p := by
    have hnd := hat.nodup_tree
    rw [hAB] at hnd
    have hxA : x ∉ A := fun h => (List.nodup_append.1 hnd).2.2 x h x (List.mem_cons_self ..) rfl
    have hxB : x ∉ B := (List.nodup_cons.1 (List.nodup_append.1 hnd).2.1).1
    have heq : A ++ x :: B = (leftIds p ++ l.ids) ++ x :: (r.ids ++ rightIds p) := by
      rw [← hAB, ids_fill, ids_node]
      simp
    exact ((List.append_cons_inj_of_notMem hxA hxB).1 heq).2.2
  have hpar : (h.nodes x).parent ≠ some x := by
    rw [hatx.parent_of_top rfl]
    exact fun hz => hatx.top_not_mem hz (by simp)
  have hright : (h.nodes x).right = r.top := by simp [hatx.nodes_top]
  have hlen : r.ids.length < fuel := by
    rw [ids_fill, ids_node] at hfuel
    simp only [List.length_append, List.length_cons] at hfuel
    omega
  rw [rbNext, if_neg hpar, hright, hB]
  cases r with
  | leaf => exact climbRight_spec hatx rfl ((length_lt_fill (t := .node l c x .leaf) rfl).trans hfuel)
  | node rl rc ry rr =>
    have hatr : At h (.right l c x :: p) (.node rl rc ry rr) := (at_cons_iff).2 hatx
    obtain ⟨q, cs, s, D, hrun, hr, hq⟩ := leftmost_spec fuel hatr rfl hlen
    have hids : (RBTree.node rl rc ry rr).ids = s :: (fill q D).ids := by rw [hr, ids_fill_leftmost hq]
    simp [hrun, hids]

end Naos.RbTree
