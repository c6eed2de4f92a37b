/-
The splice of __rb_erase in rbtree.c, and what rb_erase and rb_erase_augmented do to a red-black tree.

A node with at most one child is replaced by that child. A node `o` with two children is replaced by its successor
`s`, the leftmost node of its right subtree: `s` takes the colour and the links of `o`, and the right child of `s`
takes the old place of `s`. The colour that leaves the tree is that of the unlinked node in the first case and that
of the successor in the second; when it is black, __rb_erase_color runs from the place that lost it.

The two-children case writes the parent of `o` first, before it unlinks `s`; the proof moves that write past the
unlinking (`replaceChild_modify`) and reads the case as an unlinking of `s` (`At.unlink`) followed by `s` taking the
place of `o` (`takeOver_at`).

Results:
- `rbEraseCore_spec`: for every node of a red-black tree linked in the heap, with fuel beyond twice the size of the
  tree, __rb_erase leaves the heap holding a red-black tree whose in-order sequence is the old one without that node;
- `rbErase_spec`, `rbEraseAugmented_spec`: the same for rb_erase and rb_erase_augmented.
-/
import Naos.Libs.RbTreeErase
import Naos.Libs.RbTreeInsert

namespace Naos.RbTree

open RedBlack RbHeap

/-! ## The colour that leaves the tree -/

/-- a node with an empty side has black height at most one: unlinking a red one leaves the tree balanced, unlinking
a black one leaves the subtree in its place deficient -/
theorem unlink_inv {p : List (Frame Nat)} {u : RBTree Nat} {c c' : Color} {x N n : Nat}
    (hp : PathBal .black N p c' n) (ht : Balanced (.node .leaf c x u) c' n ∨ Balanced (.node u c x .leaf) c' n) :
    (c = .black → EraseInv p u) ∧ (c = .red → IsRB (fill p u)) := by
  constructor
  · rintro rfl
    rcases ht with ht | ht
    · obtain ⟨rfl, m, cl, cr, rfl, hl, hu⟩ := ht.black_inv
      cases hl
      exact EraseInv.of_removed_black hu hp
    · obtain ⟨rfl, m, cl, cr, rfl, hu, hl⟩ := ht.black_inv
      cases hl
      exact EraseInv.of_removed_black hu hp
  · rintro rfl
    rcases ht with ht | ht
    · obtain ⟨rfl, hl, hu⟩ := ht.red_inv
      cases hl
      obtain rfl := hu.eq_leaf_of_zero
      exact ⟨N, hp.of_red_hole.fill .leaf⟩
    · obtain ⟨rfl, hu, hl⟩ := ht.red_inv
      cases hl
      obtain rfl := hu.eq_leaf_of_zero
      exact ⟨N, hp.of_red_hole.fill .leaf⟩

/-- the in-order sequence without a node of a tree on distinct nodes -/
theorem erase_ids_fill {q : List (Frame Nat)} {l r : RBTree Nat} {c : Color} {x : Nat}
    (hnd : (fill q (.node l c x r)).ids.Nodup) :
    (fill q (.node l c x r)).ids.erase x = leftIds q ++ l.ids ++ r.ids ++ rightIds q := by
  have hx : x ∉ leftIds q ++ l.ids := by
    rw [ids_fill] at hnd
    simp only [RBTree.ids_node, List.nodup_append, List.nodup_cons, List.mem_append, List.mem_cons] at hnd
    grind
  have hsplit : (fill q (.node l c x r)).ids = (leftIds q ++ l.ids) ++ x :: (r.ids ++ rightIds q) := by
    simp [ids_fill]
  rw [hsplit, List.erase_append_right _ hx, List.erase_cons_head]
  simp

/-! ## Unlinking a node with at most one child -/

variable {β : Type} {h : RbHeap β} (aug : Option (RbAugmentF β))

/-- a subtree of the hole on distinct nodes fills the path to a tree on distinct nodes -/
theorem At.nodup_fill_of_sub {q : List (Frame Nat)} {t u : RBTree Nat} (hat : At h q t) (hu : u.ids.Nodup)
    (hsub : ∀ i ∈ u.ids, i ∈ t.ids) : (fill q u).ids.Nodup :=
  (nodup_fill_iff q u).2 ⟨hu, hat.nodup_path, fun i hi => hat.not_mem_path (hsub i hi)⟩

/-- `if (child) rb_set_parent(child, parent);` and the parent update: a node with an empty side is replaced by its
other subtree -/
theorem At.unlink {q : List (Frame Nat)} {t u : RBTree Nat} {c : Color} {x : Nat} (hat : At h q t)
    (ht : t = .node .leaf c x u ∨ t = .node u c x .leaf) :
    At (replaceChild (match u.top with
        | some k => h.setParent k (pathTop q)
        | none => h) (pathTop q) x u.top) q u := by
  have hsub : ∀ i ∈ u.ids, i ∈ t.ids := by
    rcases ht with rfl | rfl <;> simp +contextual
  have hnt := hat.nodup_tree
  have hxu : x ∉ u.ids ∧ u.ids.Nodup := by
    rcases ht with rfl | rfl <;>
      simp only [RBTree.ids_node, RBTree.ids_leaf, List.nil_append, List.nodup_cons, List.nodup_append,
        List.mem_cons] at hnt <;> grind
  have hxq : x ∉ pathIds q := hat.not_mem_path (by rcases ht with rfl | rfl <;> simp)
  have hpath : LinkedPath h.nodes h.root (some x) q := by
    rcases ht with rfl | rfl <;> exact hat.path
  have hu : Linked h.nodes (some x) u := by
    rcases ht with rfl | rfl
    · exact hat.tree.2.2
    · exact hat.tree.2.1
  have htop : ∀ z, pathTop q = some z → z ∉ u.ids := fun z hz hzu => hat.top_not_mem hz (hsub z hzu)
  obtain ⟨hp1, hl1⟩ : LinkedPath (match u.top with
        | some k => h.setParent k (pathTop q)
        | none => h).nodes (match u.top with
        | some k => h.setParent k (pathTop q)
        | none => h).root (some x) q ∧ Linked (match u.top with
        | some k => h.setParent k (pathTop q)
        | none => h).nodes (pathTop q) u := by
    cases u with
    | leaf => exact ⟨hpath, trivial⟩
    | node ul uc k ur =>
      have hkq : k ∉ pathIds q := hat.not_mem_path (hsub k (by simp))
      exact ⟨by simpa [hkq] using hpath, hu.setParent_top hxu.2 _⟩
  exact ⟨linkedPath_replaceChild hp1 hxq hat.nodup_path, (linked_replaceChild htop).2 hl1,
    hat.nodup_fill_of_sub hxu.2 hsub⟩

/-! ## The successor in the place of the node -/

/-- `node->rb_parent_color = old->rb_parent_color; node->rb_left = old->rb_left; rb_set_parent(old->rb_left, node);`
completes the links of `s` in the place of `o`, once the parent of `o` and the right side of `s` are linked -/
theorem takeOver_at {q : List (Frame Nat)} {A R : RBTree Nat} {c : Color} {o s : Nat} {w : Option Nat}
    (hp : LinkedPath h.nodes h.root (some s) q) (ho : h.nodes o = ⟨pathTop q, c, w, A.top⟩)
    (hA : Linked h.nodes (some o) A) (hAne : A ≠ .leaf) (hsR : (h.nodes s).right = R.top)
    (hR : Linked h.nodes (some s) R) (hnd : (fill q (.node A c s R)).ids.Nodup) (hos : o ≠ s) :
    ∃ h', takeOver h s o = some h' ∧ At h' q (.node A c s R) := by
  obtain ⟨A1, ca, a, A2, rfl⟩ : ∃ A1 ca a A2, A = .node A1 ca a A2 := by
    cases A with
    | leaf => exact absurd rfl hAne
    | node A1 ca a A2 => exact ⟨A1, ca, a, A2, rfl⟩
  obtain ⟨hnt, -, hout⟩ := (nodup_fill_iff q _).1 hnd
  simp only [RBTree.ids_node, List.nodup_append, List.nodup_cons, List.mem_append, List.mem_cons] at hnt hout
  have has : a ≠ s := by grind
  have hsA1 : s ∉ A1.ids := by grind
  have hsA2 : s ∉ A2.ids := by grind
  have hsR' : s ∉ R.ids := by grind
  have haA1 : a ∉ A1.ids := by grind
  have haA2 : a ∉ A2.ids := by grind
  have haR : a ∉ R.ids := by grind
  have hsq : s ∉ pathIds q := by grind
  have haq : a ∉ pathIds q := by grind
  obtain ⟨ha, hA1, hA2⟩ := hA
  refine ⟨_, by simp only [takeOver, ho, setLeft, nodes_modify, Function.update_of_ne hos, RBTree.top_node]; rfl,
    ?_, ?_, hnd⟩
  · simpa [hsq, haq] using hp
  · simp [ha, has, has.symm, hsA1, hsA2, hsR', haA1, haA2, haR, hsR, hA1, hA2, hR]

section TakePlace

variable {q : List (Frame Nat)} {A B D : RBTree Nat} {c cs : Color} {o s r : Nat}

/-- the successor is the right child of `o`: it keeps its right subtree and takes the place of `o` -/
theorem takeOver_right_at (hat : At h q (.node A c o (.node .leaf cs s D))) (hAne : A ≠ .leaf) :
    ∃ h', takeOver (replaceChild h (pathTop q) o (some s)) s o = some h' ∧ At h' q (.node A c s D) := by
  have hnt := hat.nodup_tree
  simp only [RBTree.ids_node, RBTree.ids_leaf, List.nil_append, List.nodup_append, List.nodup_cons,
    List.mem_cons] at hnt
  have hos : o ≠ s := by grind
  have htop : ∀ z, pathTop q = some z → z ∉ (RBTree.node A c o (.node .leaf cs s D)).ids := fun z hz =>
    hat.top_not_mem hz
  have hzA : ∀ z, pathTop q = some z → z ∉ A.ids := fun z hz hzA => htop z hz (by simp [hzA])
  have hzD : ∀ z, pathTop q = some z → z ∉ D.ids := fun z hz hzD => htop z hz (by simp [hzD])
  have hzo : pathTop q ≠ some o := fun hz => htop o hz (by simp)
  have hzs : pathTop q ≠ some s := fun hz => htop s hz (by simp)
  obtain ⟨ho, hA, hs, -, hD⟩ := hat.tree
  refine takeOver_at (linkedPath_replaceChild hat.path (hat.not_mem_path (by simp)) hat.nodup_path)
    (by rw [nodes_replaceChild_of_ne hzo, ho]) ((linked_replaceChild hzA).2 hA) hAne
    (by rw [nodes_replaceChild_of_ne hzs, hs]) ((linked_replaceChild hzD).2 hD)
    (hat.nodup_fill_of_sub ?_ ?_) hos
  · simp only [RBTree.ids_node, List.nodup_append, List.nodup_cons, List.mem_cons]
    grind
  · intro i hi
    simp only [RBTree.ids_node, RBTree.ids_leaf, List.nil_append, List.mem_append, List.mem_cons] at hi ⊢
    tauto

/-- the successor `s`, unlinked from below `o`, takes the place of `o`: `node->rb_right = old->rb_right;
rb_set_parent(old->rb_right, node);` and the take-over -/
theorem takeOver_place_at (hat : At h q (.node A c o B)) (hAne : A ≠ .leaf) (hr : B.top = some r)
    (hs : s ∉ (fill q (.node A c o B)).ids) :
    ∃ h', takeOver (((replaceChild h (pathTop q) o (some s)).setRight s (some r)).setParent r (some s)) s o =
      some h' ∧ At h' q (.node A c s B) := by
  obtain ⟨B1, cb, B2, rfl⟩ : ∃ B1 cb B2, B = .node B1 cb r B2 := by
    cases B with
    | leaf => cases hr
    | node B1 cb r' B2 => exact ⟨B1, cb, B2, by rw [Option.some_inj.1 hr]⟩
  have hsT : s ∉ (RBTree.node A c o (.node B1 cb r B2)).ids ∧ s ∉ pathIds q := by
    rw [ids_fill] at hs
    simp only [pathIds_eq, List.mem_append, not_or] at hs ⊢
    tauto
  have hnt := hat.nodup_tree
  simp only [RBTree.ids_node, List.nodup_append, List.nodup_cons, List.mem_append, List.mem_cons] at hnt hsT
  have hos : o ≠ s := by grind
  have hor : o ≠ r := by grind
  have hrs : r ≠ s := by grind
  have hsA : s ∉ A.ids := by grind
  have hsB1 : s ∉ B1.ids := by grind
  have hsB2 : s ∉ B2.ids := by grind
  have hrA : r ∉ A.ids := by grind
  have hrq : r ∉ pathIds q := hat.not_mem_path (by simp)
  have htop : ∀ z, pathTop q = some z → z ∉ (RBTree.node A c o (.node B1 cb r B2)).ids := fun z hz =>
    hat.top_not_mem hz
  have hzA : ∀ z, pathTop q = some z → z ∉ A.ids := fun z hz hzA => htop z hz (by simp [hzA])
  have hzB : ∀ z, pathTop q = some z → z ∉ (RBTree.node B1 cb r B2).ids := fun z hz hzB =>
    htop z hz (by simp only [RBTree.ids_node, List.mem_append, List.mem_cons] at hzB ⊢; tauto)
  have hzo : pathTop q ≠ some o := fun hz => htop o hz (by simp)
  have hzs : pathTop q ≠ some s := fun hz => hsT.2 (pathTop_mem hz)
  obtain ⟨ho, hA, hB⟩ := hat.tree
  have hB' : Linked (replaceChild h (pathTop q) o (some s)).nodes (some o) (.node B1 cb r B2) :=
    (linked_replaceChild hzB).2 hB
  have hB1 := hB'.2.1
  have hB2 := hB'.2.2
  refine takeOver_at (w := some r) ?_ ?_ ?_ hAne ?_ ?_ ?_ hos
  · have hp : LinkedPath (replaceChild h (pathTop q) o (some s)).nodes (replaceChild h (pathTop q) o (some s)).root
        (some s) q := linkedPath_replaceChild hat.path (hat.not_mem_path (by simp)) hat.nodup_path
    simpa [hsT.2, hrq] using hp
  · simp [nodes_replaceChild_of_ne hzo, ho, hos, hor]
  · simpa [hsA, hrA] using (linked_replaceChild hzA).2 hA
  · simp [hrs.symm]
  · have hnB : (RBTree.node B1 cb r B2).ids.Nodup := by
      simp only [RBTree.ids_node, List.nodup_append, List.nodup_cons, List.mem_cons]
      grind
    have hB'' : Linked ((replaceChild h (pathTop q) o (some s)).setRight s (some r)).nodes (some o)
        (.node B1 cb r B2) := by
      simpa [hsB1, hsB2, Function.update_of_ne hrs] using hB'
    exact hB''.setParent_top hnB _
  · refine (nodup_fill_iff q _).2 ⟨?_, hat.nodup_path, ?_⟩
    · simp only [RBTree.ids_node, List.nodup_append, List.nodup_cons, List.mem_cons, List.mem_append]
      grind
    · intro i hi
      simp only [RBTree.ids_node, List.mem_append, List.mem_cons] at hi
      rcases hi with hi | rfl | hi
      · exact hat.not_mem_path (by simp [hi])
      · exact hsT.2
      · exact hat.not_mem_path (by simp only [RBTree.ids_node, List.mem_append, List.mem_cons] at hi ⊢; tauto)

end TakePlace

/-! ## The successor, the augmentation and the fix-up -/

/-- `while ((left = node->rb_left) != NULL) node = left;` from the root of a linked subtree, with fuel beyond its
size, stops on its leftmost node: the subtree is a path of left frames around that node, whose left side is
empty -/
theorem leftmost_spec {p : List (Frame Nat)} {t : RBTree Nat} {x : Nat} (fuel : Nat) (hat : At h p t)
    (hx : t.top = some x) (hfuel : t.ids.length < fuel) :
    ∃ q cs s D, leftmost h fuel x = some s ∧ t = fill q (.node .leaf cs s D) ∧
      ∀ f ∈ q, ∃ c y r, f = Frame.left c y r := by
  induction t generalizing p x fuel with
  | leaf => cases hx
  | node l c y r ihl _ =>
    cases hx
    obtain ⟨fuel, rfl⟩ : ∃ f, fuel = f + 1 := ⟨fuel - 1, by simp at hfuel; omega⟩
    have hleft : (h.nodes y).left = l.top := by simp [hat.nodes_top]
    cases l with
    | leaf => exact ⟨[], c, y, r, by simp [leftmost, hleft], rfl, by simp⟩
    | node l1 c1 y1 l2 =>
      have hatl : At h (.left c y r :: p) (.node l1 c1 y1 l2) := (at_cons_iff).2 hat
      obtain ⟨q, cs, s, D, hrun, hl, hq⟩ := ihl fuel hatl rfl (by simp at hfuel ⊢; omega)
      refine ⟨q ++ [.left c y r], cs, s, D, by simp [leftmost, hleft, hrun], ?_, ?_⟩
      · rw [fill_append, ← hl]
        rfl
      · intro f hf
        rcases List.mem_append.1 hf with hf | hf
        · exact hq f hf
        · exact ⟨c, y, r, List.mem_singleton.1 hf⟩

/-- rb_augment_path from the parent of a hole climbs the path and touches no link -/
theorem rbAugmentPath_pathTop (fuel : Nat) {p : List (Frame Nat)} {t : RBTree Nat} (hat : At h p t)
    (hlen : p.length ≤ fuel) :
    ∃ h', rbAugmentPath aug fuel h (pathTop p) = some h' ∧ h'.nodes = h.nodes ∧ h'.root = h.root := by
  cases p with
  | nil => exact ⟨h, by cases aug <;> simp [rbAugmentPath, augmentPathLoop], rfl, rfl⟩
  | cons f q =>
    rw [pathTop_cons]
    exact rbAugmentPath_links aug fuel ((at_cons_iff).1 hat) (top_fill_singleton f t) (by simp at hlen; omega)

/-- the code after the label color of __rb_erase, at the place `u` that lost a node: the augmentation from its
parent, then __rb_erase_color when the colour that left was black -/
theorem eraseFinish_spec (fuel : Nat) {p : List (Frame Nat)} {u : RBTree Nat} {color : Color} (hat : At h p u)
    (hblack : color = .black → EraseInv p u) (hred : color = .red → IsRB (fill p u))
    (hfuel : 2 * (fill p u).ids.length + 1 < fuel) :
    ∃ h' T, eraseFinish aug fuel h (pathTop p) color u.top (pathTop p) = some h' ∧ At h' [] T ∧ IsRB T ∧
      T.ids = (fill p u).ids := by
  have hlen := length_le_ids_fill p u
  obtain ⟨h1, haug, hn, hr⟩ := rbAugmentPath_pathTop aug fuel hat (by omega)
  have hat1 : At h1 p u := hat.of_links hn hr
  cases color with
  | black =>
    have hm : eraseMeasure p u.color < fuel := by
      have := eraseMeasure_le p u.color
      omega
    obtain ⟨h', T, hcore, hatT, hrb, hids⟩ := rbEraseColorCore_spec aug fuel hat1 (hblack rfl) hm
    exact ⟨h', T, by simp only [eraseFinish, haug, Option.bind_some, hcore], hatT, hrb, hids⟩
  | red =>
    exact ⟨h1, fill p u, by simp only [eraseFinish, haug, Option.bind_some], (at_iff_fill).1 hat1, hred rfl, rfl⟩

/-! ## __rb_erase -/

/-- __rb_erase on a node with an empty side: the other subtree takes its place -/
theorem eraseOneChild_spec (fuel : Nat) {q : List (Frame Nat)} {t u : RBTree Nat} {c : Color} {x : Nat}
    (hat : At h q t) (ht : t = .node .leaf c x u ∨ t = .node u c x .leaf) (hrb : IsRB (fill q t))
    (hfuel : 2 * (fill q t).ids.length < fuel) :
    ∃ h' T, eraseOneChild aug fuel h x u.top = some h' ∧ At h' [] T ∧ IsRB T ∧ T.ids = (fill q u).ids := by
  have hx : (h.nodes x).parent = pathTop q ∧ (h.nodes x).color = c := by
    rcases ht with rfl | rfl <;> simp [hat.nodes_top]
  obtain ⟨N, hN⟩ := hrb
  obtain ⟨c', n, hp, ht'⟩ := hN.zoom
  have hinv := unlink_inv hp (by rcases ht with rfl | rfl; exacts [.inl ht', .inr ht'])
  have hlen : (fill q u).ids.length + 1 = (fill q t).ids.length := by
    rcases ht with rfl | rfl <;> simp [ids_fill] <;> omega
  obtain ⟨h', T, hfin, hatT, hrbT, hids⟩ := eraseFinish_spec aug fuel (hat.unlink ht) hinv.1 hinv.2 (by omega)
  refine ⟨h', T, ?_, hatT, hrbT, hids⟩
  simp only [eraseOneChild, hx.1, hx.2]
  exact hfin

/-- __rb_erase on `o` whose right child `s` has an empty left side: `s` takes the place of `o`, and the right
subtree of `s` is where the tree may be one black node short -/
theorem eraseTwoChildren_right_spec (fuel : Nat) {q : List (Frame Nat)} {A D : RBTree Nat} {c cs : Color}
    {o s : Nat} (hat : At h q (.node A c o (.node .leaf cs s D))) (hA : A ≠ .leaf)
    (hrb : IsRB (fill q (.node A c o (.node .leaf cs s D))))
    (hfuel : 2 * (fill q (.node A c o (.node .leaf cs s D))).ids.length < fuel) :
    ∃ h' T, eraseTwoChildren aug fuel h o = some h' ∧ At h' [] T ∧ IsRB T ∧
      T.ids = (fill (.right A c s :: q) D).ids := by
  have ho := hat.nodes_top
  have hs : h.nodes s = ⟨some o, cs, D.top, none⟩ := hat.tree.2.2.1
  have hzs : pathTop q ≠ some s := fun e => hat.top_not_mem e (by simp)
  have hs1 : (replaceChild h (pathTop q) o (some s)).nodes s = ⟨some o, cs, D.top, none⟩ := by
    rw [nodes_replaceChild_of_ne hzs, hs]
  have hlen : (fill (.right A c s :: q) D).ids.length + 1 = (fill q (.node A c o (.node .leaf cs s D))).ids.length := by
    simp [ids_fill]
    omega
  have hlm : leftmost h fuel s = some s := by
    obtain ⟨fuel, rfl⟩ : ∃ f, fuel = f + 1 := ⟨fuel - 1, by omega⟩
    simp [leftmost, hs]
  obtain ⟨N, hN⟩ := hrb
  obtain ⟨c', n, hp, hsD⟩ := Balanced.zoom (p := .right A c o :: q) (t := .node .leaf cs s D) hN
  have hinv := unlink_inv (PathBal.relabel_right (y := s) [] hp) (.inl hsD)
  obtain ⟨h1, hto, hat1⟩ := takeOver_right_at hat hA
  obtain ⟨h', T, hfin, hatT, hrbT, hids⟩ :=
    eraseFinish_spec aug fuel ((at_cons_iff).2 hat1 : At h1 (.right A c s :: q) D) hinv.1 hinv.2 (by omega)
  refine ⟨h', T, ?_, hatT, hrbT, hids⟩
  simp only [eraseTwoChildren, ho, RBTree.top_node, hlm, hs1, if_true, hto, Option.bind_some]
  exact hfin

/-- __rb_erase on `o` whose successor `s` is the left child of `y`, deeper in the right subtree: `s` is unlinked
from below `y` and takes the place of `o`; the left side of `y` is where the tree may be one black node short -/
theorem eraseTwoChildren_deep_spec (fuel : Nat) {q qs : List (Frame Nat)} {A D E : RBTree Nat} {c cs cy : Color}
    {o s y r : Nat} (hat : At h q (.node A c o (fill (.left cy y E :: qs) (.node .leaf cs s D)))) (hA : A ≠ .leaf)
    (hleft : ∀ f ∈ qs, ∃ c y r, f = Frame.left c y r)
    (hr : (fill (.left cy y E :: qs) (.node .leaf cs s D)).top = some r) (hlm : leftmost h fuel r = some s)
    (hrb : IsRB (fill q (.node A c o (fill (.left cy y E :: qs) (.node .leaf cs s D)))))
    (hfuel : 2 * (fill q (.node A c o (fill (.left cy y E :: qs) (.node .leaf cs s D)))).ids.length < fuel) :
    ∃ h' T, eraseTwoChildren aug fuel h o = some h' ∧ At h' [] T ∧ IsRB T ∧
      T.ids = (fill ((.left cy y E :: qs) ++ .right A c s :: q) D).ids := by
  have ho := hat.nodes_top
  have hatB : At h (.right A c o :: q) (fill (.left cy y E :: qs) (.node .leaf cs s D)) :=
    (at_left_iff_right).1 ((at_cons_iff).2 hat)
  have hats : At h (.left cy y E :: (qs ++ .right A c o :: q)) (.node .leaf cs s D) := (at_append_iff).2 hatB
  have hs : h.nodes s = ⟨some y, cs, D.top, none⟩ := hats.nodes_top
  have hy : (h.nodes y).left = some s := by simp [hats.path.1]
  have hmem : ∀ i, i = s ∨ i = y ∨ i ∈ D.ids → i ∈ (fill (.left cy y E :: qs) (.node .leaf cs s D)).ids := by
    rintro i (rfl | rfl | hi)
    · simp [ids_fill]
    · simp [ids_fill]
    · simp [ids_fill, hi]
  have hnt := hat.nodup_tree
  simp only [RBTree.ids_node, List.nodup_append, List.nodup_cons, List.mem_cons] at hnt
  have hoB : ∀ i, i = s ∨ i = y ∨ i ∈ D.ids → o ≠ i := fun i hi e => hnt.2.1.1 (e ▸ hmem i hi)
  have hzB : ∀ i, i = s ∨ i = y ∨ i ∈ D.ids → pathTop q ≠ some i := fun i hi e =>
    hat.top_not_mem e (by simp only [RBTree.ids_node, List.mem_append, List.mem_cons]; exact .inr (.inr (hmem i hi)))
  have hyD : ∀ i ∈ D.ids, y ≠ i := fun i hi e =>
    hats.not_mem_path (i := i) (by simp [hi]) (e ▸ by simp [pathIds_eq])
  have hys : y ≠ s := fun e => hats.not_mem_path (i := s) (by simp) (e ▸ by simp [pathIds_eq])
  have hatA : At ((match D.top with
      | some k => h.setParent k (some y)
      | none => h).setLeft y D.top) ((.left cy y E :: qs) ++ .right A c o :: q) D := by
    have hyl : ((match D.top with
        | some k => h.setParent k (some y)
        | none => h).nodes y).left = some s := by
      split
      · next k hk => simpa [Function.update_of_ne (hyD k (RBTree.mem_ids_of_top hk))] using hy
      · exact hy
    have := hats.unlink (.inl rfl)
    rwa [pathTop_cons, Frame.id_left, replaceChild_of_left hyl] at this
  have hcode : eraseTwoChildren aug fuel h o =
      (takeOver (((replaceChild ((match D.top with
          | some k => h.setParent k (some y)
          | none => h).setLeft y D.top) (pathTop q) o (some s)).setRight s (some r)).setParent r (some s)) s o).bind
        fun h => eraseFinish aug fuel h (some y) cs D.top (some y) := by
    have hs1 : (replaceChild h (pathTop q) o (some s)).nodes s = ⟨some y, cs, D.top, none⟩ := by
      rw [nodes_replaceChild_of_ne (hzB s (.inl rfl)), hs]
    have hyo : ¬ some y = some o := fun e => hoB y (.inr (.inl rfl)) (Option.some_inj.1 e).symm
    simp only [eraseTwoChildren, ho, hr, hlm, hs1, hyo, if_false]
    have hzo : pathTop q ≠ some o := fun e => hat.top_not_mem e (by simp)
    have hoy := hoB y (.inr (.inl rfl))
    have hos := hoB s (.inl rfl)
    have hzy := hzB y (.inr (.inl rfl))
    cases hD : D.top with
    | none =>
      simp only [setParent, setLeft, setRight, nodes_modify, Function.update_of_ne hoy,
        Function.update_of_ne hos, nodes_replaceChild_of_ne hzo, ho, hr]
      rw [replaceChild_modify hzy]
    | some d =>
      have hd : d ∈ D.ids := RBTree.mem_ids_of_top hD
      have hod := hoB d (.inr (.inr hd))
      simp only [setParent, setLeft, setRight, nodes_modify, Function.update_of_ne hod, Function.update_of_ne hoy,
        Function.update_of_ne hos, nodes_replaceChild_of_ne hzo, ho, hr]
      rw [replaceChild_modify hzy, replaceChild_modify (hzB d (.inr (.inr hd)))]
  have hBs : (fill (.left cy y E :: qs) (.node .leaf cs s D)).ids = s :: (fill (.left cy y E :: qs) D).ids :=
    ids_fill_leftmost fun f hf => (List.mem_cons.1 hf).elim (fun e => ⟨cy, y, E, e⟩) (hleft f)
  have hperm : (fill q (.node A c o (fill (.left cy y E :: qs) (.node .leaf cs s D)))).ids.Perm
      (s :: (fill q (.node A c o (fill (.left cy y E :: qs) D))).ids) := by
    rw [ids_fill, ids_fill, RBTree.ids_node, RBTree.ids_node, hBs]
    simpa using @List.perm_middle _ s (leftIds q ++ A.ids ++ [o]) ((fill (.left cy y E :: qs) D).ids ++ rightIds q)
  have hsn := (List.nodup_cons.1 (hperm.nodup_iff.1 hat.nodup)).1
  have hr' : (fill (.left cy y E :: qs) D).top = some r :=
    (top_fill_of_ne_nil D (.node .leaf cs s D) (List.cons_ne_nil _ _)).trans hr
  have hatA2 := (at_append_iff).1 hatA
  have hatA' : At _ q (.node A c o (fill (.left cy y E :: qs) D)) := (at_cons_iff).1 hatA2
  obtain ⟨h1, hto, hat1⟩ := takeOver_place_at hatA' hA hr' hsn
  obtain ⟨N, hN⟩ := hrb
  have hN' : Balanced (fill ((.left cy y E :: qs) ++ .right A c o :: q) (.node .leaf cs s D)) .black N := by
    rw [fill_append]
    exact hN
  obtain ⟨c', n, hp, hsD⟩ := hN'.zoom
  have hinv := unlink_inv (PathBal.relabel_right (y := s) (.left cy y E :: qs) hp) (.inl hsD)
  have hlen : (fill ((.left cy y E :: qs) ++ .right A c s :: q) D).ids.length + 1 =
      (fill q (.node A c o (fill (.left cy y E :: qs) (.node .leaf cs s D)))).ids.length := by
    rw [hperm.length_eq, fill_append]
    simp [ids_fill]
  have hat2 : At h1 ((.left cy y E :: qs) ++ .right A c s :: q) D := (at_append_iff).2 ((at_cons_iff).2 hat1)
  obtain ⟨h', T, hfin, hatT, hrbT, hids⟩ := eraseFinish_spec aug fuel hat2 hinv.1 hinv.2 (by omega)
  exact ⟨h', T, by rw [hcode, hto, Option.bind_some]; exact hfin, hatT, hrbT, hids⟩

/-- __rb_erase on a node with two children: its successor takes its place -/
theorem eraseTwoChildren_spec (fuel : Nat) {q : List (Frame Nat)} {A B : RBTree Nat} {c : Color} {o : Nat}
    (hat : At h q (.node A c o B)) (hA : A ≠ .leaf) (hB : B ≠ .leaf) (hrb : IsRB (fill q (.node A c o B)))
    (hfuel : 2 * (fill q (.node A c o B)).ids.length < fuel) :
    ∃ h' T, eraseTwoChildren aug fuel h o = some h' ∧ At h' [] T ∧ IsRB T ∧
      T.ids = (fill q (.node A c o B)).ids.erase o := by
  obtain ⟨r, hr⟩ : ∃ r, B.top = some r := by
    cases B with
    | leaf => exact absurd rfl hB
    | node B1 cb r B2 => exact ⟨r, rfl⟩
  have hatB : At h (.right A c o :: q) B := (at_left_iff_right).1 ((at_cons_iff).2 hat)
  have hlenB : B.ids.length < fuel := by
    simp [ids_fill] at hfuel
    omega
  obtain ⟨qs, cs, s, D, hlm, rfl, hleft⟩ := leftmost_spec fuel hatB hr hlenB
  have herase := erase_ids_fill hat.nodup
  have hBs := ids_fill_leftmost (c := cs) (x := s) (t := D) hleft
  cases qs with
  | nil =>
    obtain ⟨h', T, hrun, hatT, hrbT, hids⟩ := eraseTwoChildren_right_spec aug fuel hat hA hrb hfuel
    refine ⟨h', T, hrun, hatT, hrbT, ?_⟩
    rw [hids, herase]
    simp [ids_fill]
  | cons f qs =>
    obtain ⟨cy, y, E, rfl⟩ := hleft f (by simp)
    obtain ⟨h', T, hrun, hatT, hrbT, hids⟩ :=
      eraseTwoChildren_deep_spec aug fuel hat hA (fun g hg => hleft g (by simp [hg])) hr hlm hrb hfuel
    refine ⟨h', T, hrun, hatT, hrbT, ?_⟩
    rw [hids, herase, hBs, fill_append]
    simp [ids_fill]

/-- __rb_erase on a node of a red-black tree linked in the heap, with fuel beyond twice the size of the tree: the
heap then holds a red-black tree whose in-order sequence is the old one without the node -/
theorem rbEraseCore_spec (fuel : Nat) {T : RBTree Nat} {x : Nat} (hat : At h [] T) (hrb : IsRB T)
    (hx : x ∈ T.ids) (hfuel : 2 * T.ids.length < fuel) :
    ∃ h' T', rbEraseCore aug fuel h x = some h' ∧ At h' [] T' ∧ IsRB T' ∧ T'.ids = T.ids.erase x := by
  obtain ⟨q, l, c, r, rfl⟩ := exists_fill_of_mem hx
  have hatx : At h q (.node l c x r) := (at_iff_fill).2 hat
  have hnx := hatx.nodes_top
  have herase := erase_ids_fill hat.nodup
  cases l with
  | leaf =>
    obtain ⟨h', T', hrun, hat', hrb', hids⟩ := eraseOneChild_spec aug fuel hatx (.inl rfl) hrb hfuel
    refine ⟨h', T', ?_, hat', hrb', by rw [hids, herase]; simp [ids_fill]⟩
    simp only [rbEraseCore, hnx, RBTree.top_leaf]
    exact hrun
  | node l1 cl lx l2 =>
    cases r with
    | leaf =>
      obtain ⟨h', T', hrun, hat', hrb', hids⟩ := eraseOneChild_spec aug fuel hatx (.inr rfl) hrb hfuel
      refine ⟨h', T', ?_, hat', hrb', by rw [hids, herase]; simp [ids_fill]⟩
      simp only [rbEraseCore, hnx, RBTree.top_node, RBTree.top_leaf]
      exact hrun
    | node r1 cr rx r2 =>
      obtain ⟨h', T', hrun, hat', hrb', hids⟩ :=
        eraseTwoChildren_spec aug fuel hatx (by simp) (by simp) hrb hfuel
      refine ⟨h', T', ?_, hat', hrb', hids⟩
      simp only [rbEraseCore, hnx, RBTree.top_node]
      exact hrun

/-- rb_erase -/
theorem rbErase_spec (fuel : Nat) {T : RBTree Nat} {x : Nat} (hat : At h [] T) (hrb : IsRB T) (hx : x ∈ T.ids)
    (hfuel : 2 * T.ids.length < fuel) :
    ∃ h' T', rbErase fuel h x = some h' ∧ At h' [] T' ∧ IsRB T' ∧ T'.ids = T.ids.erase x :=
  rbEraseCore_spec none fuel hat hrb hx hfuel

/-- rb_erase_augmented: the augment calls touch no link, so the tree is the one rb_erase leaves -/
theorem rbEraseAugmented_spec (fuel : Nat) {T : RBTree Nat} {x : Nat} (hat : At h [] T) (hrb : IsRB T)
    (hx : x ∈ T.ids) (hfuel : 2 * T.ids.length < fuel) :
    ∃ h' T', rbEraseAugmented aug fuel h x = some h' ∧ At h' [] T' ∧ IsRB T' ∧ T'.ids = T.ids.erase x :=
  rbEraseCore_spec aug fuel hat hrb hx hfuel

/-! ## Insertion and erasure on a red-black tree -/

/-- Every operation of rbtree.c that changes a red-black tree leaves one. A node linked as a leaf (its parent and
its side set, `rb_parent_color` the parent pointer, so red) at any place of a red-black tree is inserted there by
rb_insert_color and rb_insert_augmented; any node of a red-black tree is removed by rb_erase and rb_erase_augmented,
the other nodes keeping their order. The heap holds the new tree with consistent parent pointers. Fuel beyond the
size of the tree (twice the size for erasure) stands for the source's unbounded loops. -/
theorem rbtree_insert_erase_restore {β : Type} :
    (∀ (fuel : Nat) (h : RbHeap β) (p : List (Frame Nat)) (x : Nat), At h p (.node .leaf .red x .leaf) →
      IsRB (fill p .leaf) → (fill p .leaf).ids.length < fuel →
      ∃ h' T, rbInsertColor fuel h x = some h' ∧ At h' [] T ∧ IsRB T ∧ T.ids = leftIds p ++ x :: rightIds p) ∧
    (∀ (aug : Option (RbAugmentF β)) (fuel : Nat) (h : RbHeap β) (p : List (Frame Nat)) (x : Nat),
      At h p (.node .leaf .red x .leaf) → IsRB (fill p .leaf) → (fill p .leaf).ids.length < fuel →
      ∃ h' T, rbInsertAugmented aug fuel h x = some h' ∧ At h' [] T ∧ IsRB T ∧
        T.ids = leftIds p ++ x :: rightIds p) ∧
    (∀ (fuel : Nat) (h : RbHeap β) (T : RBTree Nat) (x : Nat), At h [] T → IsRB T → x ∈ T.ids →
      2 * T.ids.length < fuel →
      ∃ h' T', rbErase fuel h x = some h' ∧ At h' [] T' ∧ IsRB T' ∧ T'.ids = T.ids.erase x) ∧
    (∀ (aug : Option (RbAugmentF β)) (fuel : Nat) (h : RbHeap β) (T : RBTree Nat) (x : Nat), At h [] T →
      IsRB T → x ∈ T.ids → 2 * T.ids.length < fuel →
      ∃ h' T', rbEraseAugmented aug fuel h x = some h' ∧ At h' [] T' ∧ IsRB T' ∧ T'.ids = T.ids.erase x) :=
  ⟨fun fuel _ p _ hat hrb hfuel => rbInsertColorCore_spec none fuel p hat hrb hfuel,
    fun aug fuel _ p _ hat hrb hfuel => rbInsertAugmented_spec aug fuel p hat hrb hfuel,
    fun fuel _ _ _ hat hrb hx hfuel => rbErase_spec fuel hat hrb hx hfuel,
    fun aug fuel _ _ _ hat hrb hx hfuel => rbEraseAugmented_spec aug fuel hat hrb hx hfuel⟩

/-- a black root `0` with a red left child `1` -/
def twoNodeHeap : RbHeap Unit where
  nodes := fun i => if i = 0 then ⟨none, .black, none, some 1⟩ else ⟨some 0, .red, none, none⟩
  data := fun _ => ()
  root := some 0

theorem twoNodeHeap_at_leaf : At twoNodeHeap [.left .black 0 .leaf] (.node .leaf .red 1 .leaf) :=
  ⟨by simp [LinkedPath, twoNodeHeap], by simp [twoNodeHeap], by decide⟩

theorem twoNodeHeap_at : At twoNodeHeap [] (.node (.node .leaf .red 1 .leaf) .black 0 .leaf) :=
  (at_iff_fill).1 twoNodeHeap_at_leaf

/-- node `1` of `twoNodeHeap`, linked as a red leaf below `0`, is inserted by both insertion functions; either
node is removed by both erasure functions -/
theorem rbtree_insert_erase_restore_twoNode :
    (∃ h' T, rbInsertColor 2 twoNodeHeap 1 = some h' ∧ At h' [] T ∧ IsRB T ∧ T.ids = [1, 0]) ∧
    (∃ h' T, rbInsertAugmented none 2 twoNodeHeap 1 = some h' ∧ At h' [] T ∧ IsRB T ∧ T.ids = [1, 0]) ∧
    (∃ h' T', rbErase 5 twoNodeHeap 0 = some h' ∧ At h' [] T' ∧ IsRB T' ∧ T'.ids = [1]) ∧
    (∃ h' T', rbEraseAugmented none 5 twoNodeHeap 1 = some h' ∧ At h' [] T' ∧ IsRB T' ∧ T'.ids = [0]) :=
  ⟨rbtree_insert_erase_restore.1 2 twoNodeHeap _ 1 twoNodeHeap_at_leaf ⟨1, .black .leaf .leaf⟩ (by decide),
    rbtree_insert_erase_restore.2.1 none 2 twoNodeHeap _ 1 twoNodeHeap_at_leaf ⟨1, .black .leaf .leaf⟩
      (by decide),
    rbtree_insert_erase_restore.2.2.1 5 twoNodeHeap _ 0 twoNodeHeap_at ⟨1, .black (.red .leaf .leaf) .leaf⟩
      (by decide) (by decide),
    rbtree_insert_erase_restore.2.2.2 none 5 twoNodeHeap _ 1 twoNodeHeap_at ⟨1, .black (.red .leaf .leaf) .leaf⟩
      (by decide) (by decide)⟩

end Naos.RbTree
