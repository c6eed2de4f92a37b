/-
The heap of rbtree.c seen as a red-black tree.

`Linked N par t` says that the nodes of the heap below the parent pointer `par` are linked as the tree `t`: each
node's parent pointer, colour and children are those of `t`. `LinkedPath N rt hole p` says the same of the frames of
a path around a hole, up to the root pointer `rt`. `At h p t` joins the two: the heap holds the tree `fill p t`, seen
from the hole of `p`, with distinct nodes. It does not depend on where the hole is (`at_iff_fill`), so a proof moves
its focus freely.

Results:
- `Linked.congr`, `LinkedPath.congr`: a heap that agrees on a tree's nodes links it the same way;
- `linked_fill_iff`, `at_iff_fill`: a linked tree is a linked path around a linked subtree;
- `rotateLeftLinks_at`, `rotateRightLinks_at`: the pointer updates of __rb_rotate_left/right rotate the tree at the
  hole, wherever the hole is, and leave the payloads alone.
-/
import Naos.Libs.RbTree

namespace Naos.RbTree

open RedBlack RbHeap

variable {β : Type}

/-! ## Field updates -/

section Updates

variable (h : RbHeap β) (i : Nat)

@[simp] theorem nodes_modify (g : RbNode → RbNode) :
    (h.modify i g).nodes = Function.update h.nodes i (g (h.nodes i)) := rfl

@[simp] theorem data_modify (g : RbNode → RbNode) : (h.modify i g).data = h.data := rfl

@[simp] theorem root_modify (g : RbNode → RbNode) : (h.modify i g).root = h.root := rfl

@[simp] theorem nodes_setRoot (v : Option Nat) : (h.setRoot v).nodes = h.nodes := rfl

@[simp] theorem data_setRoot (v : Option Nat) : (h.setRoot v).data = h.data := rfl

@[simp] theorem root_setRoot (v : Option Nat) : (h.setRoot v).root = v := rfl

@[simp] theorem nodes_augment (f : RbAugmentF β) : (h.augment f i).nodes = h.nodes := rfl

@[simp] theorem root_augment (f : RbAugmentF β) : (h.augment f i).root = h.root := rfl

@[simp] theorem nodes_augmentIf (aug : Option (RbAugmentF β)) : (h.augmentIf aug i).nodes = h.nodes := by
  cases aug <;> rfl

@[simp] theorem root_augmentIf (aug : Option (RbAugmentF β)) : (h.augmentIf aug i).root = h.root := by
  cases aug <;> rfl

attribute [simp] setParent setColor setLeft setRight

/-- writes to two different nodes commute -/
theorem modify_comm {j : Nat} (hij : i ≠ j) (f g : RbNode → RbNode) :
    (h.modify i f).modify j g = (h.modify j g).modify i f := by
  simp only [RbHeap.modify, Function.update_of_ne hij.symm, Function.update_of_ne hij, Function.update_comm hij]

end Updates

/-! ## Linked trees and paths -/

/-- the nodes below the parent pointer `par` are linked as `t` -/
def Linked (N : Nat → RbNode) (par : Option Nat) : RBTree Nat → Prop
  | .leaf => True
  | .node l c x r => N x = ⟨par, c, r.top, l.top⟩ ∧ Linked N (some x) l ∧ Linked N (some x) r

/-- the frames of `p` are linked around a hole at pointer `hole`, up to the root pointer `rt` -/
def LinkedPath (N : Nat → RbNode) (rt hole : Option Nat) : List (Frame Nat) → Prop
  | [] => rt = hole
  | .left c y r :: p => N y = ⟨pathTop p, c, r.top, hole⟩ ∧ Linked N (some y) r ∧ LinkedPath N rt (some y) p
  | .right l c y :: p => N y = ⟨pathTop p, c, hole, l.top⟩ ∧ Linked N (some y) l ∧ LinkedPath N rt (some y) p

@[simp] theorem linked_leaf (N : Nat → RbNode) (par : Option Nat) : Linked N par .leaf := trivial

@[simp] theorem linked_node (N : Nat → RbNode) (par : Option Nat) (l r : RBTree Nat) (c : Color) (x : Nat) :
    Linked N par (.node l c x r) ↔ N x = ⟨par, c, r.top, l.top⟩ ∧ Linked N (some x) l ∧ Linked N (some x) r :=
  Iff.rfl

variable {N N' : Nat → RbNode}

theorem Linked.congr {par : Option Nat} {t : RBTree Nat} (hN : ∀ i ∈ t.ids, N' i = N i) (ht : Linked N par t) :
    Linked N' par t := by
  induction t generalizing par with
  | leaf => trivial
  | node l c x r ihl ihr =>
    obtain ⟨hx, hl, hr⟩ := ht
    exact ⟨(hN x (by simp)).trans hx, ihl (fun i hi => hN i (by simp [hi])) hl,
      ihr (fun i hi => hN i (by simp [hi])) hr⟩

/-- writing a node outside a tree does not change how the tree is linked -/
@[simp] theorem linked_update {par : Option Nat} {t : RBTree Nat} {i : Nat} {v : RbNode} (hi : i ∉ t.ids) :
    Linked (Function.update N i v) par t ↔ Linked N par t := by
  have hN : ∀ j ∈ t.ids, Function.update N i v j = N j := fun j hj =>
    Function.update_of_ne (ne_of_mem_of_not_mem hj hi) _ _
  exact ⟨Linked.congr fun j hj => (hN j hj).symm, Linked.congr hN⟩

theorem LinkedPath.congr {rt hole : Option Nat} {p : List (Frame Nat)} (hN : ∀ i ∈ pathIds p, N' i = N i)
    (hp : LinkedPath N rt hole p) : LinkedPath N' rt hole p := by
  induction p generalizing hole with
  | nil => exact hp
  | cons f p ih =>
    cases f with
    | left c y r =>
      have hmem := fun i => (perm_pathIds_left c y r p).mem_iff (a := i)
      obtain ⟨hy, hr, hq⟩ := hp
      exact ⟨(hN y (by simp [hmem])).trans hy, hr.congr fun i hi => hN i (by simp [hmem, hi]),
        ih (fun i hi => hN i (by simp [hmem, hi])) hq⟩
    | right l c y =>
      have hmem := fun i => (perm_pathIds_right l c y p).mem_iff (a := i)
      obtain ⟨hy, hl, hq⟩ := hp
      exact ⟨(hN y (by simp [hmem])).trans hy, hl.congr fun i hi => hN i (by simp [hmem, hi]),
        ih (fun i hi => hN i (by simp [hmem, hi])) hq⟩

@[simp] theorem linkedPath_update {rt hole : Option Nat} {p : List (Frame Nat)} {i : Nat} {v : RbNode}
    (hi : i ∉ pathIds p) : LinkedPath (Function.update N i v) rt hole p ↔ LinkedPath N rt hole p := by
  have hN : ∀ j ∈ pathIds p, Function.update N i v j = N j := fun j hj =>
    Function.update_of_ne (ne_of_mem_of_not_mem hj hi) _ _
  exact ⟨LinkedPath.congr fun j hj => (hN j hj).symm, LinkedPath.congr hN⟩

/-- a linked tree is a linked path around a linked subtree, at any hole -/
theorem linked_fill_iff (rt : Option Nat) (p : List (Frame Nat)) (t : RBTree Nat) :
    (Linked N none (fill p t) ∧ rt = (fill p t).top) ↔ (LinkedPath N rt t.top p ∧ Linked N (pathTop p) t) := by
  induction p generalizing t with
  | nil => exact and_comm
  | cons f p ih =>
    cases f with
    | left c y r =>
      rw [fill_left, ih]
      simp only [LinkedPath, linked_node, RBTree.top]
      tauto
    | right l c y =>
      rw [fill_right, ih]
      simp only [LinkedPath, linked_node, RBTree.top]
      tauto

/-! ## The heap at a hole -/

/-- the heap holds the tree `fill p t`, seen from the hole of `p` -/
structure At (h : RbHeap β) (p : List (Frame Nat)) (t : RBTree Nat) : Prop where
  path : LinkedPath h.nodes h.root t.top p
  tree : Linked h.nodes (pathTop p) t
  nodup : (fill p t).ids.Nodup

variable {h : RbHeap β} {p : List (Frame Nat)} {t : RBTree Nat}

theorem at_iff_fill : At h p t ↔ At h [] (fill p t) := by
  have key := linked_fill_iff (N := h.nodes) h.root p t
  constructor
  · rintro ⟨hp, ht, hnd⟩
    obtain ⟨hl, hr⟩ := key.2 ⟨hp, ht⟩
    exact ⟨hr, hl, hnd⟩
  · rintro ⟨hp, ht, hnd⟩
    obtain ⟨hl, hr⟩ := key.1 ⟨ht, hp⟩
    exact ⟨hl, hr, hnd⟩

/-- the focus moves up one frame -/
theorem at_cons_iff {f : Frame Nat} : At h (f :: p) t ↔ At h p (fill [f] t) := by
  rw [at_iff_fill, at_iff_fill (p := p)]
  cases f <;> rfl

/-- the focus moves up a whole segment of frames -/
theorem at_append_iff {p₁ p₂ : List (Frame Nat)} : At h (p₁ ++ p₂) t ↔ At h p₂ (fill p₁ t) := by
  rw [at_iff_fill, at_iff_fill (p := p₂), fill_append]

theorem At.not_mem_path (hat : At h p t) {i : Nat} (hi : i ∈ t.ids) : i ∉ pathIds p :=
  ((nodup_fill_iff p t).1 hat.nodup).2.2 i hi

/-- the parent of the hole is not in the subtree -/
theorem At.top_not_mem (hat : At h p t) {z : Nat} (hz : pathTop p = some z) : z ∉ t.ids :=
  fun hzt => hat.not_mem_path hzt (pathTop_mem hz)

theorem At.nodup_tree (hat : At h p t) : t.ids.Nodup := ((nodup_fill_iff p t).1 hat.nodup).1

theorem At.nodup_path (hat : At h p t) : (pathIds p).Nodup := ((nodup_fill_iff p t).1 hat.nodup).2.1

/-! ## The parent update -/

section ReplaceChild

variable {par : Option Nat} {old : Nat} {new : Option Nat}

theorem nodes_replaceChild_of_ne {i : Nat} (hi : par ≠ some i) :
    (replaceChild h par old new).nodes i = h.nodes i := by
  cases par with
  | none => rfl
  | some z =>
    have hiz : i ≠ z := fun e => hi (e ▸ rfl)
    simp only [replaceChild]
    split_ifs <;> simp [hiz]

@[simp] theorem data_replaceChild : (replaceChild h par old new).data = h.data := by
  unfold replaceChild
  split
  · split_ifs <;> rfl
  · rfl

/-- the parent update leaves alone every tree that does not hold the parent -/
theorem linked_replaceChild {q : Option Nat} {t : RBTree Nat} (ht : ∀ z, par = some z → z ∉ t.ids) :
    Linked (replaceChild h par old new).nodes q t ↔ Linked h.nodes q t :=
  ⟨Linked.congr fun i hi => (nodes_replaceChild_of_ne fun e => ht i e hi).symm,
    Linked.congr fun i hi => nodes_replaceChild_of_ne fun e => ht i e hi⟩

/-- the parent update moves the hole of a linked path from `old` to `new` -/
theorem linkedPath_replaceChild (hp : LinkedPath h.nodes h.root (some old) p) (hold : old ∉ pathIds p)
    (hnd : (pathIds p).Nodup) :
    LinkedPath (replaceChild h (pathTop p) old new).nodes (replaceChild h (pathTop p) old new).root new p := by
  match p, hp with
  | [], _ => rfl
  | .left c z r :: q, ⟨hz, hr, hq⟩ =>
    have hnd' := (perm_pathIds_left c z r q).nodup_iff.1 hnd
    simp only [List.cons_append, List.nodup_cons, List.mem_append, not_or, List.nodup_append] at hnd'
    have hzl : (h.nodes z).left = some old := by rw [hz]
    simp only [pathTop, replaceChild, hzl, if_true, setLeft, nodes_modify, root_modify]
    simp [LinkedPath, hz, hnd'.1.1, hnd'.1.2, hr, hq]
  | .right l c z :: q, ⟨hz, hl, hq⟩ =>
    have hnd' := (perm_pathIds_right l c z q).nodup_iff.1 hnd
    simp only [List.cons_append, List.nodup_cons, List.mem_append, not_or, List.nodup_append] at hnd'
    have hold' : old ∉ l.ids := fun ho => hold ((perm_pathIds_right l c z q).mem_iff.2 (by simp [ho]))
    have hzl : (h.nodes z).left ≠ some old := by rw [hz]; exact RBTree.top_ne_of_not_mem hold'
    simp only [pathTop, replaceChild, hzl, if_false, setRight, nodes_modify, root_modify]
    simp [LinkedPath, hz, hnd'.1.1, hnd'.1.2, hl, hq]

/-- the parent update commutes with a write to a node other than the parent -/
theorem replaceChild_modify {i : Nat} (hi : par ≠ some i) (g : RbNode → RbNode) :
    replaceChild (h.modify i g) par old new = (replaceChild h par old new).modify i g := by
  cases par with
  | none => rfl
  | some z =>
    have hzi : z ≠ i := fun e => hi (e ▸ rfl)
    simp only [replaceChild, nodes_modify, Function.update_of_ne hzi]
    split_ifs <;> simp only [setLeft, setRight, modify_comm _ _ hzi.symm]

/-- the parent update at a parent whose left child is `old` -/
theorem replaceChild_of_left {z : Nat} (hz : (h.nodes z).left = some old) :
    replaceChild h (some z) old new = h.setLeft z new := by
  simp only [replaceChild, hz, if_true]

end ReplaceChild

/-! ## Recolouring and rotating at the hole -/

/-- the heap holds the same trees when only payloads change -/
theorem At.of_links {h' : RbHeap β} (hn : h'.nodes = h.nodes) (hr : h'.root = h.root) (hat : At h p t) :
    At h' p t :=
  ⟨hn ▸ hr ▸ hat.path, hn ▸ hat.tree, hat.nodup⟩

@[simp] theorem at_augmentIf_iff (aug : Option (RbAugmentF β)) (i : Nat) : At (h.augmentIf aug i) p t ↔ At h p t :=
  ⟨At.of_links (by simp) (by simp), At.of_links (by simp) (by simp)⟩

/-- rb_set_parent at the root of a linked tree links it below another parent -/
theorem Linked.setParent_top {l r : RBTree Nat} {c : Color} {x : Nat} {par : Option Nat}
    (ht : Linked h.nodes par (.node l c x r)) (hnd : (RBTree.node l c x r).ids.Nodup) (par' : Option Nat) :
    Linked (h.setParent x par').nodes par' (.node l c x r) := by
  simp only [RBTree.ids_node, List.nodup_append, List.nodup_cons, List.mem_cons] at hnd
  have hxl : x ∉ l.ids := by grind
  have hxr : x ∉ r.ids := by grind
  obtain ⟨hx, hl, hr⟩ := ht
  simp [hx, hxl, hxr, hl, hr]

/-- rb_set_color at the root of the hole recolours it -/
theorem At.setColor {l r : RBTree Nat} {c : Color} {x : Nat} (hat : At h p (.node l c x r)) (c' : Color) :
    At (h.setColor x c') p (.node l c' x r) := by
  have hxp : x ∉ pathIds p := hat.not_mem_path (by simp)
  have hnt := hat.nodup_tree
  simp only [RBTree.ids_node, List.nodup_append, List.nodup_cons, List.mem_cons] at hnt
  have hxl : x ∉ l.ids := by grind
  have hxr : x ∉ r.ids := by grind
  obtain ⟨hpath, ⟨hx, hl, hr⟩, hnd⟩ := hat
  refine ⟨?_, ?_, ?_⟩
  · simpa [hxp, RBTree.top] using hpath
  · simp [hx, hxl, hxr, hl, hr]
  · have hids : (fill p (.node l c' x r)).ids = (fill p (.node l c x r)).ids := ids_fill_congr p rfl
    exact hids ▸ hnd

/-- the node at the root of the hole -/
theorem At.nodes_top {l r : RBTree Nat} {c : Color} {x : Nat} (hat : At h p (.node l c x r)) :
    h.nodes x = ⟨pathTop p, c, r.top, l.top⟩ :=
  hat.tree.1

/-- the parent of the hole has the colour of the first frame, and the next frame's node as its parent -/
theorem At.frame_fields {f : Frame Nat} (hat : At h (f :: p) t) :
    (h.nodes f.id).color = f.color ∧ (h.nodes f.id).parent = pathTop p := by
  cases f with
  | left c y s => simp [hat.path.1, Frame.id, Frame.color]
  | right s c y => simp [hat.path.1, Frame.id, Frame.color]

/-- the parent pointer of the root of the hole -/
theorem At.parent_of_top (hat : At h p t) {x : Nat} (hx : t.top = some x) : (h.nodes x).parent = pathTop p := by
  cases t with
  | leaf => cases hx
  | node l c y r =>
    cases hx
    simp [hat.nodes_top]

/-- rb_augment_path from the root of the hole climbs the path and touches no link -/
theorem augmentPathLoop_links (f : RbAugmentF β) :
    ∀ (fuel : Nat) (h : RbHeap β) (p : List (Frame Nat)) (t : RBTree Nat) (x : Nat), At h p t → t.top = some x →
      p.length < fuel → ∃ h', augmentPathLoop f fuel h (some x) = some h' ∧ h'.nodes = h.nodes ∧ h'.root = h.root
  | 0, _, _, _, _, _, _, hlen => absurd hlen (Nat.not_lt_zero _)
  | fuel + 1, h, p, t, x, hat, hx, hlen => by
    have hat' : At (h.augment f x) p t := hat.of_links (by simp) (by simp)
    have hpar : (h.nodes x).parent = pathTop p := hat.parent_of_top hx
    cases p with
    | nil => exact ⟨h.augment f x, by simp [augmentPathLoop, hpar, pathTop], rfl, rfl⟩
    | cons g q =>
      obtain ⟨h', hrun, hn, hr⟩ := augmentPathLoop_links f fuel (h.augment f x) q (fill [g] t) g.id
        ((at_cons_iff).1 hat') (top_fill_singleton g t) (by simp at hlen; omega)
      exact ⟨h', by simp only [augmentPathLoop, nodes_augment, hpar, pathTop_cons, hrun], hn, hr⟩

theorem rbAugmentPath_links (aug : Option (RbAugmentF β)) (fuel : Nat) (hat : At h p t) {x : Nat}
    (hx : t.top = some x) (hlen : p.length < fuel) :
    ∃ h', rbAugmentPath aug fuel h (some x) = some h' ∧ h'.nodes = h.nodes ∧ h'.root = h.root := by
  cases aug with
  | none => exact ⟨h, rfl, rfl, rfl⟩
  | some f => exact augmentPathLoop_links f fuel h p t x hat hx hlen

/-- rb_set_color at the parent of the hole recolours the first frame -/
theorem At.setColor_parent {f : Frame Nat} (hat : At h (f :: p) t) (c' : Color) :
    At (h.setColor f.id c') (f.withColor c' :: p) t := by
  rw [at_cons_iff] at hat ⊢
  cases f with
  | left c y r => exact hat.setColor c'
  | right l c y => exact hat.setColor c'

/-- the same heap seen from the sibling of the hole -/
theorem at_left_iff_right {c : Color} {y : Nat} {s : RBTree Nat} :
    At h (.left c y s :: p) t ↔ At h (.right t c y :: p) s := by
  rw [at_cons_iff, at_cons_iff]
  rfl

/-- rb_set_color at the root of the right sibling of the hole -/
theorem At.setColor_sibling_left {c cw : Color} {z wi : Nat} {w1 w2 : RBTree Nat}
    (hat : At h (.left c z (.node w1 cw wi w2) :: p) t) (c' : Color) :
    At (h.setColor wi c') (.left c z (.node w1 c' wi w2) :: p) t :=
  (at_left_iff_right).2 (((at_left_iff_right).1 hat).setColor c')

/-- rb_set_color at the root of the left sibling of the hole -/
theorem At.setColor_sibling_right {c cw : Color} {z wi : Nat} {w1 w2 : RBTree Nat}
    (hat : At h (.right (.node w1 cw wi w2) c z :: p) t) (c' : Color) :
    At (h.setColor wi c') (.right (.node w1 c' wi w2) c z :: p) t :=
  (at_left_iff_right).1 (((at_left_iff_right).2 hat).setColor c')

/-- n && rb_is_red(n) at the root of the hole reads the colour of the subtree -/
theorem At.isRed_top (hat : At h p t) : h.isRed t.top = decide (t.color = .red) := by
  cases t with
  | leaf => rfl
  | node l c x r =>
    cases c <;> simp [isRed, hat.nodes_top, RBTree.color]

/-- the tests on the children of the root of the hole read the colours of its subtrees -/
theorem At.isRed_children {l r : RBTree Nat} {c : Color} {x : Nat} (hat : At h p (.node l c x r)) :
    h.isRed (h.nodes x).left = decide (l.color = .red) ∧ h.isRed (h.nodes x).right = decide (r.color = .red) := by
  have hl : At h (.left c x r :: p) l := (at_cons_iff).2 hat
  have hr : At h (.right l c x :: p) r := (at_left_iff_right).1 hl
  rw [hat.nodes_top]
  exact ⟨hl.isRed_top, hr.isRed_top⟩

/-- the root pointer is not the hole's when the hole is below the root -/
theorem At.root_ne_top {f : Frame Nat} (hat : At h (f :: p) t) : h.root ≠ t.top := by
  obtain ⟨y, hy, hmem⟩ := top_fill_mem (p := f :: p) t (List.cons_ne_nil _ _)
  have hroot : h.root = some y := ((at_iff_fill).1 hat).path.trans hy
  rw [hroot]
  intro hty
  exact hat.not_mem_path (RBTree.mem_ids_of_top hty.symm) hmem

/-- __rb_rotate_right tests the right child first; on a linked path the two parent updates agree -/
theorem replaceChildRight_eq {old : Nat} {new : Option Nat} (hp : LinkedPath h.nodes h.root (some old) p)
    (hold : old ∉ pathIds p) : replaceChildRight h (pathTop p) old new = replaceChild h (pathTop p) old new := by
  match p, hp with
  | [], _ => rfl
  | .left c z r :: q, ⟨hz, _, _⟩ =>
    have hold' : old ∉ r.ids := fun ho => hold ((perm_pathIds_left c z r q).mem_iff.2 (by simp [ho]))
    simp [replaceChildRight, replaceChild, pathTop, hz, (RBTree.top_ne_of_not_mem hold').symm]
  | .right l c z :: q, ⟨hz, _, _⟩ =>
    have hold' : old ∉ l.ids := fun ho => hold ((perm_pathIds_right l c z q).mem_iff.2 (by simp [ho]))
    simp [replaceChildRight, replaceChild, pathTop, hz, RBTree.top_ne_of_not_mem hold']

/-- __rb_rotate_left at the root `x` of the hole: its right child `y` takes its place -/
theorem rotateLeftLinks_at {a b d : RBTree Nat} {c c' : Color} {x y : Nat}
    (hat : At h p (.node a c x (.node b c' y d))) :
    At (rotateLeftLinks h x y) p (.node (.node a c x b) c' y d) ∧ (rotateLeftLinks h x y).data = h.data := by
  have hout : ∀ i ∈ (RBTree.node a c x (.node b c' y d)).ids, i ∉ pathIds p := fun i hi => hat.not_mem_path hi
  have htop : ∀ z, pathTop p = some z → z ∉ (RBTree.node a c x (.node b c' y d)).ids :=
    fun z hz => hat.top_not_mem hz
  have hnt := hat.nodup_tree
  have hpn := hat.nodup_path
  obtain ⟨hpath, htree, hnd⟩ := hat
  simp only [linked_node] at htree
  obtain ⟨hx, ha, hy, hb, hd⟩ := htree
  simp only [RBTree.ids_node, List.nodup_append, List.nodup_cons, List.mem_append, List.mem_cons] at hnt hout htop
  have hxy : x ≠ y := by grind
  have hxa : x ∉ a.ids := by grind
  have hxb : x ∉ b.ids := by grind
  have hxd : x ∉ d.ids := by grind
  have hya : y ∉ a.ids := by grind
  have hyb : y ∉ b.ids := by grind
  have hyd : y ∉ d.ids := by grind
  have hxp : x ∉ pathIds p := by grind
  have hyp : y ∉ pathIds p := by grind
  have hzx : pathTop p ≠ some x := fun e => htop x e (by simp)
  have hzy : pathTop p ≠ some y := fun e => htop y e (by simp)
  have hza : ∀ z, pathTop p = some z → z ∉ a.ids := fun z e hz => htop z e (by simp [hz])
  have hzb : ∀ z, pathTop p = some z → z ∉ b.ids := fun z e hz => htop z e (by simp [hz])
  have hzd : ∀ z, pathTop p = some z → z ∉ d.ids := fun z e hz => htop z e (by simp [hz])
  have hids : (fill p (.node (.node a c x b) c' y d)).ids = (fill p (.node a c x (.node b c' y d))).ids :=
    ids_fill_congr p (by simp)
  cases b with
  | leaf =>
    simp only [rotateLeftLinks, hx, hy, RBTree.top]
    refine ⟨⟨?_, ?_, hids ▸ hnd⟩, by simp⟩
    · simp only [setParent, setLeft, setRight, nodes_modify, root_modify, RBTree.top]
      rw [linkedPath_update hxp]
      exact linkedPath_replaceChild (by simpa [RBTree.top, hxp, hyp] using hpath) hxp hpn
    · simp [hxy, hxy.symm, nodes_replaceChild_of_ne hzy, nodes_replaceChild_of_ne hzx, hx, hy,
        linked_replaceChild hza, linked_replaceChild hzd, hxa, hya, hxd, hyd, ha, hd, RBTree.top]
  | node b1 cb bi b2 =>
    simp only [linked_node] at hb
    obtain ⟨hbi, hb1, hb2⟩ := hb
    simp only [RBTree.ids_node, List.mem_append, List.mem_cons, List.nodup_append, List.nodup_cons, not_or]
      at hnt hout htop hxb hyb hzb
    have hbix : bi ≠ x := by grind
    have hbiy : bi ≠ y := by grind
    have hbia : bi ∉ a.ids := by grind
    have hbid : bi ∉ d.ids := by grind
    have hbib1 : bi ∉ b1.ids := by grind
    have hbib2 : bi ∉ b2.ids := by grind
    have hbip : bi ∉ pathIds p := by grind
    have hzbi : pathTop p ≠ some bi := fun e => (hzb bi e).2.1 rfl
    have hxb1 : x ∉ b1.ids := by grind
    have hxb2 : x ∉ b2.ids := by grind
    have hyb1 : y ∉ b1.ids := by grind
    have hyb2 : y ∉ b2.ids := by grind
    have hzb1 : ∀ z, pathTop p = some z → z ∉ b1.ids := fun z e => (hzb z e).1
    have hzb2 : ∀ z, pathTop p = some z → z ∉ b2.ids := fun z e => (hzb z e).2.2
    simp only [rotateLeftLinks, hx, hy, RBTree.top]
    refine ⟨⟨?_, ?_, hids ▸ hnd⟩, by simp⟩
    · simp only [setParent, setLeft, setRight, nodes_modify, root_modify, RBTree.top]
      rw [linkedPath_update hxp]
      exact linkedPath_replaceChild (by simpa [RBTree.top, hxp, hyp, hbip] using hpath) hxp hpn
    · simp [hxy, hxy.symm, hbix, hbix.symm, hbiy, hbiy.symm, nodes_replaceChild_of_ne hzy,
        nodes_replaceChild_of_ne hzx, nodes_replaceChild_of_ne hzbi, hx, hy, hbi,
        linked_replaceChild hza, linked_replaceChild hzd, linked_replaceChild hzb1, linked_replaceChild hzb2,
        hxa, hya, hxd, hyd, hbia, hbid, hbib1, hbib2, hxb1, hxb2, hyb1, hyb2, ha, hd, hb1, hb2, RBTree.top]

/-- __rb_rotate_right at the root `y` of the hole: its left child `x` takes its place -/
theorem rotateRightLinks_at {a b d : RBTree Nat} {c c' : Color} {x y : Nat}
    (hat : At h p (.node (.node a c x b) c' y d)) :
    At (rotateRightLinks h y x) p (.node a c x (.node b c' y d)) ∧ (rotateRightLinks h y x).data = h.data := by
  have hout : ∀ i ∈ (RBTree.node (.node a c x b) c' y d).ids, i ∉ pathIds p := fun i hi => hat.not_mem_path hi
  have htop : ∀ z, pathTop p = some z → z ∉ (RBTree.node (.node a c x b) c' y d).ids :=
    fun z hz => hat.top_not_mem hz
  have hnt := hat.nodup_tree
  have hpn := hat.nodup_path
  obtain ⟨hpath, htree, hnd⟩ := hat
  simp only [linked_node] at htree
  obtain ⟨hy, ⟨hx, ha, hb⟩, hd⟩ := htree
  simp only [RBTree.ids_node, List.nodup_append, List.nodup_cons, List.mem_append, List.mem_cons,
    List.append_assoc, List.cons_append] at hnt hout htop
  have hxy : x ≠ y := by grind
  have hxa : x ∉ a.ids := by grind
  have hxb : x ∉ b.ids := by grind
  have hxd : x ∉ d.ids := by grind
  have hya : y ∉ a.ids := by grind
  have hyb : y ∉ b.ids := by grind
  have hyd : y ∉ d.ids := by grind
  have hxp : x ∉ pathIds p := by grind
  have hyp : y ∉ pathIds p := by grind
  have hzx : pathTop p ≠ some x := fun e => htop x e (by simp)
  have hzy : pathTop p ≠ some y := fun e => htop y e (by simp)
  have hza : ∀ z, pathTop p = some z → z ∉ a.ids := fun z e hz => htop z e (by simp [hz])
  have hzb : ∀ z, pathTop p = some z → z ∉ b.ids := fun z e hz => htop z e (by simp [hz])
  have hzd : ∀ z, pathTop p = some z → z ∉ d.ids := fun z e hz => htop z e (by simp [hz])
  have hids : (fill p (.node a c x (.node b c' y d))).ids = (fill p (.node (.node a c x b) c' y d)).ids :=
    ids_fill_congr p (by simp)
  cases b with
  | leaf =>
    simp only [rotateRightLinks, hx, hy, RBTree.top]
    have hpath' := hpath
    simp only [RBTree.top] at hpath'
    rw [replaceChildRight_eq (by simpa [hxp, hyp] using hpath') hyp]
    refine ⟨⟨?_, ?_, hids ▸ hnd⟩, by simp⟩
    · simp only [setParent, setLeft, setRight, nodes_modify, root_modify, RBTree.top]
      rw [linkedPath_update hyp]
      exact linkedPath_replaceChild (by simpa [hxp, hyp] using hpath') hyp hpn
    · simp [hxy, hxy.symm, nodes_replaceChild_of_ne hzy, nodes_replaceChild_of_ne hzx, hx, hy,
        linked_replaceChild hza, linked_replaceChild hzd, hxa, hya, hxd, hyd, ha, hd, RBTree.top]
  | node b1 cb bi b2 =>
    simp only [linked_node] at hb
    obtain ⟨hbi, hb1, hb2⟩ := hb
    simp only [RBTree.ids_node, List.mem_append, List.mem_cons, List.nodup_append, List.nodup_cons, not_or]
      at hnt hout htop hxb hyb hzb
    have hbix : bi ≠ x := by grind
    have hbiy : bi ≠ y := by grind
    have hbia : bi ∉ a.ids := by grind
    have hbid : bi ∉ d.ids := by grind
    have hbib1 : bi ∉ b1.ids := by grind
    have hbib2 : bi ∉ b2.ids := by grind
    have hbip : bi ∉ pathIds p := by grind
    have hzbi : pathTop p ≠ some bi := fun e => (hzb bi e).2.1 rfl
    have hxb1 : x ∉ b1.ids := by grind
    have hxb2 : x ∉ b2.ids := by grind
    have hyb1 : y ∉ b1.ids := by grind
    have hyb2 : y ∉ b2.ids := by grind
    have hzb1 : ∀ z, pathTop p = some z → z ∉ b1.ids := fun z e => (hzb z e).1
    have hzb2 : ∀ z, pathTop p = some z → z ∉ b2.ids := fun z e => (hzb z e).2.2
    simp only [rotateRightLinks, hx, hy, RBTree.top]
    have hpath' := hpath
    simp only [RBTree.top] at hpath'
    rw [replaceChildRight_eq (by simpa [hxp, hyp, hbip] using hpath') hyp]
    refine ⟨⟨?_, ?_, hids ▸ hnd⟩, by simp⟩
    · simp only [setParent, setLeft, setRight, nodes_modify, root_modify, RBTree.top]
      rw [linkedPath_update hyp]
      exact linkedPath_replaceChild (by simpa [hxp, hyp, hbip] using hpath') hyp hpn
    · simp [hxy, hxy.symm, hbix, hbix.symm, hbiy, hbiy.symm, nodes_replaceChild_of_ne hzy,
        nodes_replaceChild_of_ne hzx, nodes_replaceChild_of_ne hzbi, hx, hy, hbi,
        linked_replaceChild hza, linked_replaceChild hzd, linked_replaceChild hzb1, linked_replaceChild hzb2,
        hxa, hya, hxd, hyd, hbia, hbid, hbib1, hbib2, hxb1, hxb2, hyb1, hyb2, ha, hd, hb1, hb2, RBTree.top]

theorem rbRotateLeft_at (aug : Option (RbAugmentF β)) {a b d : RBTree Nat} {c c' : Color} {x y : Nat}
    (hat : At h p (.node a c x (.node b c' y d))) :
    ∃ h', rbRotateLeft aug h x = some h' ∧ At h' p (.node (.node a c x b) c' y d) := by
  have hx : (h.nodes x).right = some y := by simp [hat.tree.1, RBTree.top]
  exact ⟨_, by simp only [rbRotateLeft, hx]; rfl, by simpa using (rotateLeftLinks_at hat).1⟩

theorem rbRotateRight_at (aug : Option (RbAugmentF β)) {a b d : RBTree Nat} {c c' : Color} {x y : Nat}
    (hat : At h p (.node (.node a c x b) c' y d)) :
    ∃ h', rbRotateRight aug h y = some h' ∧ At h' p (.node a c x (.node b c' y d)) := by
  have hy : (h.nodes y).left = some x := by simp [hat.tree.1, RBTree.top]
  exact ⟨_, by simp only [rbRotateRight, hy]; rfl, by simpa using (rotateRightLinks_at hat).1⟩

end Naos.RbTree
