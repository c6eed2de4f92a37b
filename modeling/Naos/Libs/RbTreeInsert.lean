/-
The insertion fix-up of rbtree.c: __rb_insert_color, rb_insert_color and rb_insert_augmented.

The loop walks a red node up the tree. Its invariant `InsertInv p t` says that the focus `t` is red and balanced and
that the path `p` above it takes it, except that the parent may be red as well, and then the path above the parent
takes the parent. A pass either ends the loop (no parent, or a black one), or recolours and moves the focus two
levels up (a red uncle), or rotates once or twice, after which the next pass ends the loop (a black uncle).

Results:
- `rbInsertColorLoop_spec`: with fuel beyond the depth of the focus, the loop ends, and the heap then holds a
  balanced tree on the same nodes;
- `rbInsertColorCore_spec`: a node linked as a red leaf into a red-black tree comes out of __rb_insert_color with
  the heap holding a red-black tree whose in-order sequence has the node at its linked place;
- `rbInsertAugmented_spec`: the same for rb_insert_augmented, whose augment calls do not touch the links.
-/
import Naos.Libs.RbTreeLinks

namespace Naos.RbTree

open RedBlack RbHeap

/-! ## The invariant of the loop -/

/-- the invariant of the loop of __rb_insert_color -/
def InsertInv (p : List (Frame Nat)) (t : RBTree Nat) : Prop :=
  ∃ n, Balanced t .red n ∧
    (p = [] ∨ ∃ N, PathBal .black N p .red n ∨ ∃ f q, p = f :: q ∧ RedFrame f n ∧ PathBal .black N q .red n)

/-- a red focus of height `n` in a hole that takes a black tree of height `n` -/
theorem InsertInv.of_black_hole {p : List (Frame Nat)} {t : RBTree Nat} {n N : Nat} (ht : Balanced t .red n)
    (hp : PathBal .black N p .black n) : InsertInv p t := by
  refine ⟨n, ht, ?_⟩
  rcases hp.recolor_red with ⟨rfl, -, -⟩ | hp' | ⟨f, q, rfl, hf, hq⟩
  · exact .inl rfl
  · exact .inr ⟨N, .inl hp'⟩
  · exact .inr ⟨N, .inr ⟨f, q, rfl, hf, hq⟩⟩

/-- a red leaf linked into a red-black tree -/
theorem InsertInv.start {p : List (Frame Nat)} (x : Nat) (hrb : IsRB (fill p .leaf)) :
    InsertInv p (.node .leaf .red x .leaf) := by
  obtain ⟨N, hN⟩ := hrb
  obtain ⟨c, n, hp, hl⟩ := hN.zoom
  cases hl
  exact .of_black_hole (.red .leaf .leaf) hp

/-- the loop stops below a black parent: the whole tree is balanced -/
theorem InsertInv.exit_black {f : Frame Nat} {q : List (Frame Nat)} {t : RBTree Nat} (hinv : InsertInv (f :: q) t)
    (hf : f.color = .black) : ∃ N, Balanced (fill (f :: q) t) .black N := by
  obtain ⟨n, ht, hp | ⟨N, hp | ⟨f', q', he, hrf, -⟩⟩⟩ := hinv
  · cases hp
  · exact ⟨N, hp.fill ht⟩
  · obtain ⟨rfl, rfl⟩ := List.cons.inj he
    rcases hrf with ⟨x, r, rfl, -⟩ | ⟨l, x, rfl, -⟩ <;> cases hf

/-- below a red parent: the grandparent is black and the uncle has the black height of the focus -/
theorem InsertInv.red_parent {f : Frame Nat} {q : List (Frame Nat)} {t : RBTree Nat} (hinv : InsertInv (f :: q) t)
    (hf : f.color = .red) :
    ∃ n N g q', q = g :: q' ∧ Balanced t .red n ∧ RedFrame f n ∧ g.color = .black ∧
      (∃ cu, Balanced g.sibling cu n) ∧ PathBal .black N q' .black (n + 1) := by
  obtain ⟨n, ht, hp | ⟨N, hp | ⟨f', q', he, hrf, hq⟩⟩⟩ := hinv
  · cases hp
  · cases f with
    | left c y r =>
      cases hf
      rcases hp.left_inv with ⟨-, h, -⟩ | ⟨h, -⟩ <;> cases h
    | right l c y =>
      cases hf
      rcases hp.right_inv with ⟨-, h, -⟩ | ⟨h, -⟩ <;> cases h
  · obtain ⟨rfl, rfl⟩ := List.cons.inj he
    cases q with
    | nil => cases hq.nil_inv.1
    | cons g q' =>
      cases g with
      | left cg gi u =>
        rcases hq.left_inv with ⟨-, h, -⟩ | ⟨rfl, cu, hu, hq'⟩
        · cases h
        · exact ⟨n, N, _, q', rfl, ht, hrf, rfl, ⟨cu, hu⟩, hq'⟩
      | right u cg gi =>
        rcases hq.right_inv with ⟨-, h, -⟩ | ⟨rfl, cu, hu, hq'⟩
        · cases h
        · exact ⟨n, N, _, q', rfl, ht, hrf, rfl, ⟨cu, hu⟩, hq'⟩

/-- a red frame over a red focus, blackened, is a black tree one level higher -/
theorem RedFrame.blacken {f : Frame Nat} {t : RBTree Nat} {n : Nat} (hf : RedFrame f n) (ht : Balanced t .red n) :
    Balanced (fill [f.withColor .black] t) .black (n + 1) := by
  rcases hf with ⟨y, s, rfl, hs⟩ | ⟨s, y, rfl, hs⟩
  · exact .black ht hs
  · exact .black hs ht

/-- an uncle that is not a red node is black -/
theorem uncle_black {u : RBTree Nat} {cu : Color} {n : Nat} (hu : Balanced u cu n)
    (hnr : ∀ u1 ui u2, u ≠ .node u1 .red ui u2) : Balanced u .black n := by
  cases hu with
  | leaf => exact .leaf
  | red _ _ => exact absurd rfl (hnr _ _ _)
  | black hl hr => exact .black hl hr

/-! ## One pass, on the heap -/

variable {β : Type} {h : RbHeap β} {q : List (Frame Nat)}

/-- case 1 with the parent a left child: uncle, parent and grandparent are recoloured, and the focus moves to the
grandparent -/
theorem At.recolorLeft {f : Frame Nat} {t u1 u2 : RBTree Nat} {gi ui : Nat}
    (hat : At h (f :: .left .black gi (.node u1 .red ui u2) :: q) t) :
    At (((h.setColor ui .black).setColor f.id .black).setColor gi .red) q
      (.node (fill [f.withColor .black] t) .red gi (.node u1 .black ui u2)) := by
  have h1 : At (h.setColor ui .black) (f :: .left .black gi (.node u1 .black ui u2) :: q) t := by
    rw [at_cons_iff (f := f), at_left_iff_right] at hat ⊢
    exact hat.setColor .black
  have h2 := ((at_cons_iff).1 (h1.setColor_parent .black)).setColor_parent .red
  exact (at_cons_iff).1 h2

/-- case 1 with the parent a right child -/
theorem At.recolorRight {f : Frame Nat} {t u1 u2 : RBTree Nat} {gi ui : Nat}
    (hat : At h (f :: .right (.node u1 .red ui u2) .black gi :: q) t) :
    At (((h.setColor ui .black).setColor f.id .black).setColor gi .red) q
      (.node (.node u1 .black ui u2) .red gi (fill [f.withColor .black] t)) := by
  have h1 : At (h.setColor ui .black) (f :: .right (.node u1 .black ui u2) .black gi :: q) t := by
    rw [at_cons_iff (f := f), ← at_left_iff_right] at hat ⊢
    exact hat.setColor .black
  have h2 := ((at_cons_iff).1 (h1.setColor_parent .black)).setColor_parent .red
  exact (at_cons_iff).1 h2

variable (aug : Option (RbAugmentF β)) {s u l r : RBTree Nat} {x y gi : Nat}

/-- a black uncle, the node the right child of a left child: rotate left at the parent, then right at the
grandparent; the loop goes on with the old parent -/
theorem insertFixupLeft_inner (hat : At h (.right s .red y :: .left .black gi u :: q) (.node l .red x r)) :
    ∃ h', insertFixupLeft aug h x y gi = some (h', y) ∧
      At h' (.left .black x (.node r .red gi u) :: q) (.node s .red y l) := by
  have hyx : (h.nodes y).right = some x := by simp [((at_cons_iff).1 hat).nodes_top, RBTree.top]
  obtain ⟨h1, hrot1, hat1⟩ := rbRotateLeft_at aug ((at_cons_iff).1 hat)
  have hat2 := (hat1.setColor .black).setColor_parent .red
  obtain ⟨h3, hrot3, hat3⟩ := rbRotateRight_at aug ((at_cons_iff).1 hat2)
  refine ⟨h3, ?_, (at_cons_iff).2 hat3⟩
  simp only [insertFixupLeft, hyx, if_true, hrot1, Option.bind_some]
  exact congrArg (Option.map fun h => (h, y)) hrot3

/-- a black uncle, the node the left child of a left child: one rotation right at the grandparent -/
theorem insertFixupLeft_outer (hat : At h (.left .red y s :: .left .black gi u :: q) (.node l .red x r)) :
    ∃ h', insertFixupLeft aug h x y gi = some (h', x) ∧
      At h' (.left .black y (.node s .red gi u) :: q) (.node l .red x r) := by
  have hxs : x ∉ s.ids := by
    have hnt := ((at_cons_iff).1 hat).nodup_tree
    simp only [fill_left, fill_nil, RBTree.ids_node, List.nodup_append, List.nodup_cons, List.mem_append,
      List.mem_cons] at hnt
    grind
  have hyx : (h.nodes y).right ≠ some x := by
    simp [((at_cons_iff).1 hat).nodes_top, RBTree.top_ne_of_not_mem hxs]
  have hat2 := ((at_cons_iff).1 (hat.setColor_parent .black)).setColor_parent .red
  obtain ⟨h3, hrot3, hat3⟩ := rbRotateRight_at aug ((at_cons_iff).1 hat2)
  refine ⟨h3, ?_, (at_cons_iff).2 hat3⟩
  simp only [insertFixupLeft, hyx, if_false]
  exact congrArg (Option.map fun h => (h, x)) hrot3

/-- the mirror of `insertFixupLeft_inner`: the node the left child of a right child -/
theorem insertFixupRight_inner (hat : At h (.left .red y s :: .right u .black gi :: q) (.node l .red x r)) :
    ∃ h', insertFixupRight aug h x y gi = some (h', y) ∧
      At h' (.right (.node u .red gi l) .black x :: q) (.node r .red y s) := by
  have hyx : (h.nodes y).left = some x := by simp [((at_cons_iff).1 hat).nodes_top, RBTree.top]
  obtain ⟨h1, hrot1, hat1⟩ := rbRotateRight_at aug ((at_cons_iff).1 hat)
  have hat2 := (hat1.setColor .black).setColor_parent .red
  obtain ⟨h3, hrot3, hat3⟩ := rbRotateLeft_at aug ((at_cons_iff).1 hat2)
  refine ⟨h3, ?_, (at_cons_iff).2 hat3⟩
  simp only [insertFixupRight, hyx, if_true, hrot1, Option.bind_some]
  exact congrArg (Option.map fun h => (h, y)) hrot3

/-- the mirror of `insertFixupLeft_outer`: the node the right child of a right child -/
theorem insertFixupRight_outer (hat : At h (.right s .red y :: .right u .black gi :: q) (.node l .red x r)) :
    ∃ h', insertFixupRight aug h x y gi = some (h', x) ∧
      At h' (.right (.node u .red gi s) .black y :: q) (.node l .red x r) := by
  have hxs : x ∉ s.ids := by
    have hnt := ((at_cons_iff).1 hat).nodup_tree
    simp only [fill_right, fill_nil, RBTree.ids_node, List.nodup_append, List.nodup_cons, List.mem_append,
      List.mem_cons] at hnt
    grind
  have hyx : (h.nodes y).left ≠ some x := by
    simp [((at_cons_iff).1 hat).nodes_top, RBTree.top_ne_of_not_mem hxs]
  have hat2 := ((at_cons_iff).1 (hat.setColor_parent .black)).setColor_parent .red
  obtain ⟨h3, hrot3, hat3⟩ := rbRotateLeft_at aug ((at_cons_iff).1 hat2)
  refine ⟨h3, ?_, (at_cons_iff).2 hat3⟩
  simp only [insertFixupRight, hyx, if_false]
  exact congrArg (Option.map fun h => (h, x)) hrot3

/-! ## The loop -/

/-- one pass of the loop below a red parent that is the left child of the grandparent: the loop goes on from a heap
that holds the same tree under the invariant, with a shorter path -/
theorem insertPass_left {f : Frame Nat} {u t : RBTree Nat} {cg : Color} (fuel : Nat)
    (hat : At h (f :: .left cg gi u :: q) t) (hx : t.top = some x) (hinv : InsertInv (f :: .left cg gi u :: q) t)
    (hf : f.color = .red) :
    ∃ h' x' p' t', rbInsertColorLoop aug (fuel + 1) h x = rbInsertColorLoop aug fuel h' x' ∧ At h' p' t' ∧
      t'.top = some x' ∧ InsertInv p' t' ∧ p'.length < q.length + 2 ∧
      (fill p' t').ids = (fill (f :: .left cg gi u :: q) t).ids := by
  obtain ⟨n, N, g, q', hg, ht, hrf, hgc, ⟨cu, hu⟩, hq⟩ := hinv.red_parent hf
  obtain ⟨rfl, rfl⟩ := List.cons.inj hg
  cases hgc
  cases ht with
  | @red l r _ _ hl hr =>
  cases hx
  have hxpar : (h.nodes x).parent = some f.id := by simp [hat.nodes_top]
  obtain ⟨hfcol, hfpar⟩ := hat.frame_fields
  have hgnode := ((at_cons_iff).1 hat).path.1
  by_cases hur : ∃ u1 ui u2, u = .node u1 .red ui u2
  · obtain ⟨u1, ui, u2, rfl⟩ := hur
    have hui : (h.nodes ui).color = .red := by
      simp [((at_left_iff_right).1 ((at_cons_iff).1 hat)).nodes_top]
    obtain ⟨-, hu1, hu2⟩ := hu.red_inv
    refine ⟨_, gi, q, _, ?_, hat.recolorLeft, rfl,
      .of_black_hole (.red (RedFrame.blacken hrf (.red hl hr)) (.black hu1 hu2)) hq, by simp, ?_⟩
    · simp [rbInsertColorLoop_succ, hxpar, hfcol, hf, hfpar, hgnode, redNode, hui]
    · rw [fill_cons f, fill_cons (.left _ _ _) q]
      exact ids_fill_congr q (by cases f <;> simp)
  · have hub := uncle_black hu fun u1 ui u2 he => hur ⟨u1, ui, u2, he⟩
    have hred : redNode h u.top = none := by
      cases hub with
      | leaf => rfl
      | black _ _ => simp [redNode, ((at_left_iff_right).1 ((at_cons_iff).1 hat)).nodes_top, RBTree.top]
    have hpass {h' n} (hfix : insertFixupLeft aug h x f.id gi = some (h', n)) :
        rbInsertColorLoop aug (fuel + 1) h x = rbInsertColorLoop aug fuel h' n := by
      simp [rbInsertColorLoop_succ, hxpar, hfcol, hf, hfpar, hgnode, hred, hfix]
    rcases hrf with ⟨y, s, rfl, hs⟩ | ⟨s, y, rfl, hs⟩
    · obtain ⟨h', hfix, hat'⟩ := insertFixupLeft_outer aug hat
      refine ⟨h', x, _, _, hpass hfix, hat', rfl,
        ⟨n, .red hl hr, .inr ⟨N, .inl (.blackL (.red hs hub) hq)⟩⟩, by simp, ?_⟩
      exact ids_fill_congr q (by simp)
    · obtain ⟨h', hfix, hat'⟩ := insertFixupLeft_inner aug hat
      refine ⟨h', y, _, _, hpass hfix, hat', rfl,
        ⟨n, .red hs hl, .inr ⟨N, .inl (.blackL (.red hr hub) hq)⟩⟩, by simp, ?_⟩
      exact ids_fill_congr q (by simp)

/-- the mirror of `insertPass_left`: the parent is the right child of the grandparent -/
theorem insertPass_right {f : Frame Nat} {u t : RBTree Nat} {cg : Color} (fuel : Nat)
    (hat : At h (f :: .right u cg gi :: q) t) (hx : t.top = some x) (hinv : InsertInv (f :: .right u cg gi :: q) t)
    (hf : f.color = .red) :
    ∃ h' x' p' t', rbInsertColorLoop aug (fuel + 1) h x = rbInsertColorLoop aug fuel h' x' ∧ At h' p' t' ∧
      t'.top = some x' ∧ InsertInv p' t' ∧ p'.length < q.length + 2 ∧
      (fill p' t').ids = (fill (f :: .right u cg gi :: q) t).ids := by
  obtain ⟨n, N, g, q', hg, ht, hrf, hgc, ⟨cu, hu⟩, hq⟩ := hinv.red_parent hf
  obtain ⟨rfl, rfl⟩ := List.cons.inj hg
  cases hgc
  cases ht with
  | @red l r _ _ hl hr =>
  cases hx
  have hxpar : (h.nodes x).parent = some f.id := by simp [hat.nodes_top]
  obtain ⟨hfcol, hfpar⟩ := hat.frame_fields
  have hgnode := ((at_cons_iff).1 hat).path.1
  have hfu : u.top ≠ some f.id := by
    have hnt := ((at_cons_iff).1 ((at_cons_iff).1 hat)).nodup_tree
    have hmem : f.id ∈ (fill [f] (.node l .red x r)).ids := RBTree.mem_ids_of_top (top_fill_singleton f _)
    simp only [fill_right, fill_nil, RBTree.ids_node, List.nodup_append] at hnt
    exact RBTree.top_ne_of_not_mem fun hu' => hnt.2.2 _ hu' _ (List.mem_cons_of_mem _ hmem) rfl
  by_cases hur : ∃ u1 ui u2, u = .node u1 .red ui u2
  · obtain ⟨u1, ui, u2, rfl⟩ := hur
    have hui : (h.nodes ui).color = .red := by
      simp [((at_left_iff_right).2 ((at_cons_iff).1 hat)).nodes_top]
    obtain ⟨-, hu1, hu2⟩ := hu.red_inv
    have hfui : f.id ≠ ui := fun e => hfu (by simp [e])
    refine ⟨_, gi, q, _, ?_, hat.recolorRight, rfl,
      .of_black_hole (.red (.black hu1 hu2) (RedFrame.blacken hrf (.red hl hr))) hq, by simp, ?_⟩
    · simp [rbInsertColorLoop_succ, hxpar, hfcol, hf, hfpar, hgnode, hfui, redNode, hui]
    · rw [fill_cons f, fill_cons (.right _ _ _) q]
      exact ids_fill_congr q (by cases f <;> simp)
  · have hub := uncle_black hu fun u1 ui u2 he => hur ⟨u1, ui, u2, he⟩
    have hred : redNode h u.top = none := by
      cases hub with
      | leaf => rfl
      | black _ _ => simp [redNode, ((at_left_iff_right).2 ((at_cons_iff).1 hat)).nodes_top]
    have hpass {h' n} (hfix : insertFixupRight aug h x f.id gi = some (h', n)) :
        rbInsertColorLoop aug (fuel + 1) h x = rbInsertColorLoop aug fuel h' n := by
      simp [rbInsertColorLoop_succ, hxpar, hfcol, hf, hfpar, hgnode, hfu.symm, hred, hfix]
    rcases hrf with ⟨y, s, rfl, hs⟩ | ⟨s, y, rfl, hs⟩
    · obtain ⟨h', hfix, hat'⟩ := insertFixupRight_inner aug hat
      refine ⟨h', y, _, _, hpass hfix, hat', rfl,
        ⟨n, .red hr hs, .inr ⟨N, .inl (.blackR (.red hub hl) hq)⟩⟩, by simp, ?_⟩
      exact ids_fill_congr q (by simp)
    · obtain ⟨h', hfix, hat'⟩ := insertFixupRight_outer aug hat
      refine ⟨h', x, _, _, hpass hfix, hat', rfl,
        ⟨n, .red hl hr, .inr ⟨N, .inl (.blackR (.red hub hs) hq)⟩⟩, by simp, ?_⟩
      exact ids_fill_congr q (by simp)

/-- the loop of __rb_insert_color: from a red focus under the invariant, with fuel beyond the depth of the focus, it
ends, and the heap then holds a balanced tree on the same nodes -/
theorem rbInsertColorLoop_spec :
    ∀ (fuel : Nat) (h : RbHeap β) (p : List (Frame Nat)) (t : RBTree Nat) (x : Nat), At h p t → t.top = some x →
      InsertInv p t → p.length < fuel →
      ∃ h' T c N, rbInsertColorLoop aug fuel h x = some h' ∧ At h' [] T ∧ T.ids = (fill p t).ids ∧ Balanced T c N
  | 0, _, _, _, _, _, _, _, hlen => absurd hlen (Nat.not_lt_zero _)
  | fuel + 1, h, [], t, x, hat, hx, ⟨_, ht, _⟩, _ =>
    ⟨h, t, _, _, by simp [rbInsertColorLoop_succ, hat.parent_of_top hx], hat, rfl, ht⟩
  | fuel + 1, h, f :: q, t, x, hat, hx, hinv, hlen => by
    obtain ⟨hfcol, -⟩ := hat.frame_fields
    have hxpar := hat.parent_of_top hx
    cases hf : f.color with
    | black =>
      obtain ⟨N, hN⟩ := hinv.exit_black hf
      exact ⟨h, _, _, _, by simp [rbInsertColorLoop_succ, hxpar, hfcol, hf], (at_iff_fill).1 hat, rfl, hN⟩
    | red =>
      obtain ⟨_, _, g, q', rfl, -⟩ := hinv.red_parent hf
      have hpass : ∃ h' x' p' t', rbInsertColorLoop aug (fuel + 1) h x = rbInsertColorLoop aug fuel h' x' ∧
          At h' p' t' ∧ t'.top = some x' ∧ InsertInv p' t' ∧ p'.length < q'.length + 2 ∧
          (fill p' t').ids = (fill (f :: g :: q') t).ids := by
        cases g with
        | left cg gi u => exact insertPass_left aug fuel hat hx hinv hf
        | right u cg gi => exact insertPass_right aug fuel hat hx hinv hf
      obtain ⟨h', x', p', t', hstep, hat', hx', hinv', hlen', hids⟩ := hpass
      obtain ⟨h'', T, c, N, hrun, hatT, hidsT, hbal⟩ :=
        rbInsertColorLoop_spec fuel h' p' t' x' hat' hx' hinv' (by simp at hlen; omega)
      exact ⟨h'', T, c, N, hstep ▸ hrun, hatT, hidsT.trans hids, hbal⟩

/-- the end of __rb_insert_color, rb_set_black(root->rb_node): the root of a balanced tree turns black -/
theorem At.setBlackRoot {T : RBTree Nat} {c : Color} {N : Nat} (hat : At h [] T) (hbal : Balanced T c N)
    (hne : T ≠ .leaf) : ∃ r, h.root = some r ∧ At (h.setColor r .black) [] T.setBlack ∧ IsRB T.setBlack := by
  obtain ⟨l, c', y, r, rfl⟩ : ∃ l c' y r, T = .node l c' y r := by
    cases T with
    | leaf => exact absurd rfl hne
    | node l c' y r => exact ⟨l, c', y, r, rfl⟩
  exact ⟨y, hat.path, hat.setColor .black, hbal.setBlack⟩

/-- __rb_insert_color on a node linked as a red leaf into a red-black tree, with fuel beyond the size of the tree:
the heap then holds a red-black tree whose in-order sequence has the node at its linked place -/
theorem rbInsertColorCore_spec (fuel : Nat) (p : List (Frame Nat)) (hat : At h p (.node .leaf .red x .leaf))
    (hrb : IsRB (fill p .leaf)) (hfuel : (fill p .leaf).ids.length < fuel) :
    ∃ h' T, rbInsertColorCore aug fuel h x = some h' ∧ At h' [] T ∧ IsRB T ∧
      T.ids = leftIds p ++ x :: rightIds p := by
  have hlen := length_le_ids_fill p (.leaf : RBTree Nat)
  obtain ⟨h1, T, c, N, hrun, hat1, hids, hbal⟩ :=
    rbInsertColorLoop_spec aug fuel h p _ x hat rfl (.start x hrb) (by omega)
  have hne : T ≠ .leaf := by
    rintro rfl
    simp [ids_fill] at hids
  obtain ⟨r, hroot, hat', hrb'⟩ := hat1.setBlackRoot hbal hne
  refine ⟨_, T.setBlack, by simp only [rbInsertColorCore, hrun, Option.bind_some, hroot], hat', hrb', ?_⟩
  simp [hids, ids_fill]

/-- rb_insert_augmented: the augment calls along the path leave the links alone, and the fix-up then does what it
does for rb_insert_color -/
theorem rbInsertAugmented_spec (fuel : Nat) (p : List (Frame Nat)) (hat : At h p (.node .leaf .red x .leaf))
    (hrb : IsRB (fill p .leaf)) (hfuel : (fill p .leaf).ids.length < fuel) :
    ∃ h' T, rbInsertAugmented aug fuel h x = some h' ∧ At h' [] T ∧ IsRB T ∧
      T.ids = leftIds p ++ x :: rightIds p := by
  have hlen := length_le_ids_fill p (.leaf : RBTree Nat)
  obtain ⟨h1, haug, hn, hr⟩ := rbAugmentPath_links aug fuel hat rfl (by omega)
  obtain ⟨h', T, hcore, hat', hrb', hids⟩ := rbInsertColorCore_spec aug fuel p (hat.of_links hn hr) hrb hfuel
  exact ⟨h', T, by simp [rbInsertAugmented, haug, hcore], hat', hrb', hids⟩

end Naos.RbTree
