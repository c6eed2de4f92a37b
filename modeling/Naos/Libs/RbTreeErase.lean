/-
Erasure in rbtree.c: __rb_erase, its fix-up __rb_erase_color, rb_erase and rb_erase_augmented.

__rb_erase unlinks the node, or, when the node has two children, its successor, which then takes the node's place.
When the unlinked node was black, the subtree left in its place is one black node short. The invariant
`EraseInv p t` of the fix-up loop says that the hole of `p` holds either such a deficient black subtree, or a red
subtree that only needs blackening. A pass of the loop either ends it (case 4, a red focus, the root), or moves the
focus one level up (case 2, after at most one case 1 that leaves the parent red).

Results:
- `rbEraseColorLoop_spec`: with fuel beyond twice the depth of the hole, the loop ends, and blackening the node it
  ends on leaves a red-black tree;
- `rbEraseCore_spec`: for every node of a red-black tree, __rb_erase leaves the heap holding a red-black tree whose
  in-order sequence is the old one without that node.
-/
import Naos.Libs.RbTreeLinks

namespace Naos.RbTree

open RedBlack RbHeap

/-! ## The invariant of the fix-up -/

/-- the invariant of the loop of __rb_erase_color: a deficient black subtree, or a red one to blacken -/
def EraseInv (p : List (Frame Nat)) (t : RBTree Nat) : Prop :=
  ∃ N n, (Balanced t .black n ∧ PathBal .black N p .black (n + 1)) ∨
    (t.color = .red ∧ Balanced t.setBlack .black n ∧ PathBal .black N p .black n)

/-- what bounds the passes of the loop: a pass shortens the path, or keeps its length and leaves a red focus -/
def eraseMeasure (p : List (Frame Nat)) (c : Color) : Nat :=
  2 * p.length + match c with
    | .red => 0
    | .black => 1

theorem eraseMeasure_le (p : List (Frame Nat)) (c : Color) : eraseMeasure p c ≤ 2 * p.length + 1 := by
  cases c <;> simp [eraseMeasure]

/-- the subtree left in place of an unlinked black node -/
theorem EraseInv.of_removed_black {p : List (Frame Nat)} {t : RBTree Nat} {c : Color} {N n : Nat}
    (ht : Balanced t c n) (hp : PathBal .black N p .black (n + 1)) : EraseInv p t := by
  cases c with
  | black => exact ⟨N, n, .inl ⟨ht, hp⟩⟩
  | red =>
    cases ht with
    | red hl hr => exact ⟨N, n + 1, .inr ⟨rfl, .black hl hr, hp⟩⟩

/-- a red focus ends the loop: blackening it balances the tree -/
theorem EraseInv.red_done {p : List (Frame Nat)} {t : RBTree Nat} (hinv : EraseInv p t) (hc : t.color = .red) :
    IsRB (fill p t.setBlack) := by
  obtain ⟨N, n, ⟨ht, -⟩ | ⟨-, ht, hp⟩⟩ := hinv
  · cases ht.color_eq.symm.trans hc
  · exact ⟨N, hp.fill ht⟩

/-- a black focus is deficient -/
theorem EraseInv.deficient {p : List (Frame Nat)} {t : RBTree Nat} (hinv : EraseInv p t) (hc : t.color = .black) :
    ∃ N n, Balanced t .black n ∧ PathBal .black N p .black (n + 1) := by
  obtain ⟨N, n, h | ⟨hr, -⟩⟩ := hinv
  · exact ⟨N, n, h⟩
  · cases hr.symm.trans hc

/-- a deficient focus at the root ends the loop: the tree is one black level lower -/
theorem EraseInv.root_done {t : RBTree Nat} (hinv : EraseInv [] t) (hc : t.color = .black) :
    IsRB (fill [] t.setBlack) := by
  obtain ⟨N, n, ht, -⟩ := hinv.deficient hc
  exact ⟨n, by simpa [ht.setBlack_eq] using ht⟩

/-! ## The cases of one pass, on trees -/

section Trees

variable {q : List (Frame Nat)} {t w w1 w2 w11 w12 w21 w22 : RBTree Nat} {cz : Color} {z wi w1i w2i : Nat}
  {N n : Nat}

/-- case 1 needs a black parent, and leaves the hole deficient below a red parent and a black grandparent -/
theorem case1Left_inv (hp : PathBal .black N (.left cz z (.node w1 .red wi w2) :: q) .black (n + 1)) :
    cz = .black ∧ PathBal .black N (.left .red z w1 :: .left .black wi w2 :: q) .black (n + 1) := by
  rcases hp.left_inv with ⟨-, -, hw, -⟩ | ⟨rfl, cw, hw, hq⟩
  · cases hw
  · obtain ⟨-, hw1, hw2⟩ := hw.red_inv
    exact ⟨rfl, .redL hw1 (.blackL hw2 hq)⟩

theorem case1Right_inv (hp : PathBal .black N (.right (.node w1 .red wi w2) cz z :: q) .black (n + 1)) :
    cz = .black ∧ PathBal .black N (.right w2 .red z :: .right w1 .black wi :: q) .black (n + 1) := by
  rcases hp.right_inv with ⟨-, -, hw, -⟩ | ⟨rfl, cw, hw, hq⟩
  · cases hw
  · obtain ⟨-, hw1, hw2⟩ := hw.red_inv
    exact ⟨rfl, .redR hw2 (.blackR hw1 hq)⟩

/-- the sibling of a deficient hole is a black tree one level higher -/
theorem sibling_black_left (hp : PathBal .black N (.left cz z (.node w1 .black wi w2) :: q) .black (n + 1)) :
    Balanced (.node w1 .black wi w2) .black (n + 1) := by
  rcases hp.left_inv with ⟨-, -, hw, -⟩ | ⟨-, cw, hw, -⟩
  · exact hw
  · obtain rfl : cw = .black := hw.color_eq.symm
    exact hw

theorem sibling_black_right (hp : PathBal .black N (.right (.node w1 .black wi w2) cz z :: q) .black (n + 1)) :
    Balanced (.node w1 .black wi w2) .black (n + 1) := by
  rcases hp.right_inv with ⟨-, -, hw, -⟩ | ⟨-, cw, hw, -⟩
  · exact hw
  · obtain rfl : cw = .black := hw.color_eq.symm
    exact hw

/-- case 2 moves the deficiency to the parent, or ends it at a red parent -/
theorem case2Left_inv (ht : Balanced t .black n) (hw1 : Balanced w1 .black n) (hw2 : Balanced w2 .black n)
    (hp : PathBal .black N (.left cz z w :: q) .black (n + 1)) : EraseInv q (.node t cz z (.node w1 .red wi w2)) := by
  rcases hp.left_inv with ⟨rfl, -, -, hq⟩ | ⟨rfl, -, -, hq⟩
  · exact ⟨N, n + 1, .inr ⟨rfl, .black ht (.red hw1 hw2), hq.of_red_hole⟩⟩
  · exact ⟨N, n + 1, .inl ⟨.black ht (.red hw1 hw2), hq⟩⟩

theorem case2Right_inv (ht : Balanced t .black n) (hw1 : Balanced w1 .black n) (hw2 : Balanced w2 .black n)
    (hp : PathBal .black N (.right w cz z :: q) .black (n + 1)) : EraseInv q (.node (.node w1 .red wi w2) cz z t) := by
  rcases hp.right_inv with ⟨rfl, -, -, hq⟩ | ⟨rfl, -, -, hq⟩
  · exact ⟨N, n + 1, .inr ⟨rfl, .black (.red hw1 hw2) ht, hq.of_red_hole⟩⟩
  · exact ⟨N, n + 1, .inl ⟨.black (.red hw1 hw2) ht, hq⟩⟩

/-- case 4 ends the deficiency: the sibling in the parent's place has the parent's colour and height -/
theorem case4Left_isRB {cw1 : Color} (ht : Balanced t .black n) (hw1 : Balanced w1 cw1 n)
    (hw21 : Balanced w21 .black n) (hw22 : Balanced w22 .black n)
    (hp : PathBal .black N (.left cz z w :: q) .black (n + 1)) :
    IsRB (fill q (.node (.node t .black z w1) cz wi (.node w21 .black w2i w22))) := by
  rcases hp.left_inv with ⟨rfl, -, -, hq⟩ | ⟨rfl, -, -, hq⟩
  · exact ⟨N, hq.fill (.red (.black ht hw1) (.black hw21 hw22))⟩
  · exact ⟨N, hq.fill (.black (.black ht hw1) (.black hw21 hw22))⟩

theorem case4Right_isRB {cw2 : Color} (ht : Balanced t .black n) (hw2 : Balanced w2 cw2 n)
    (hw11 : Balanced w11 .black n) (hw12 : Balanced w12 .black n)
    (hp : PathBal .black N (.right w cz z :: q) .black (n + 1)) :
    IsRB (fill q (.node (.node w11 .black w1i w12) cz wi (.node w2 .black z t))) := by
  rcases hp.right_inv with ⟨rfl, -, -, hq⟩ | ⟨rfl, -, -, hq⟩
  · exact ⟨N, hq.fill (.red (.black hw11 hw12) (.black hw2 ht))⟩
  · exact ⟨N, hq.fill (.black (.black hw11 hw12) (.black hw2 ht))⟩

end Trees

/-- what one pass of the loop of __rb_erase_color leaves, started at the hole of `p` holding `t`: the loop goes on
at the hole of `p'`, which holds a tree of colour `c`, or it stops with the heap holding a red-black tree; the nodes
stay those of `fill p t` -/
def EraseStepOk {β : Type} (p : List (Frame Nat)) (t : RBTree Nat) (p' : List (Frame Nat)) (c : Color) :
    EraseStep β → Prop
  | .next h node parent => ∃ t', At h p' t' ∧ node = t'.top ∧ parent = pathTop p' ∧ t'.color = c ∧
      EraseInv p' t' ∧ (fill p' t').ids = (fill p t).ids
  | .done h node => ∃ T, At h [] T ∧ node = T.top ∧ IsRB T ∧ T.ids = (fill p t).ids

/-- the outcome of a pass only depends on the nodes of the tree it started on, in order -/
theorem EraseStepOk.of_ids {β : Type} {p p₂ p' : List (Frame Nat)} {t t₂ : RBTree Nat} {c : Color}
    {s : EraseStep β} (hs : EraseStepOk p t p' c s) (hids : (fill p t).ids = (fill p₂ t₂).ids) :
    EraseStepOk p₂ t₂ p' c s := by
  cases s with
  | next h node parent =>
    obtain ⟨t', hat, hnode, hpar, hc, hinv, hs⟩ := hs
    exact ⟨t', hat, hnode, hpar, hc, hinv, hs.trans hids⟩
  | done h node =>
    obtain ⟨T, hat, hnode, hrb, hs⟩ := hs
    exact ⟨T, hat, hnode, hrb, hs.trans hids⟩

/-- a pass that ends on the root pointer with the heap at a hole of a red-black tree -/
theorem EraseStepOk.done_of_at {β : Type} {h : RbHeap β} {p q p' : List (Frame Nat)} {t t' : RBTree Nat}
    {c : Color} (hat : At h q t') (hrb : IsRB (fill q t')) (hids : (fill q t').ids = (fill p t).ids) :
    EraseStepOk p t p' c (.done h h.root) :=
  ⟨fill q t', (at_iff_fill).1 hat, ((at_iff_fill).1 hat).path, hrb, hids⟩

/-! ## The cases of one pass, on the heap -/

variable {β : Type} {h : RbHeap β} {q : List (Frame Nat)} (aug : Option (RbAugmentF β))
variable {t w1 w2 w11 w12 w21 w22 : RBTree Nat} {cz : Color} {z wi w1i w2i : Nat}

/-- case 1, node a left child: the red sibling turns black and the parent red, and a rotation left at the parent
puts the sibling above it -/
theorem eraseCase1Left (hat : At h (.left .black z (.node w1 .red wi w2) :: q) t) :
    ∃ h1, rbRotateLeft aug ((h.setColor wi .black).setColor z .red) z = some h1 ∧
      At h1 (.left .red z w1 :: .left .black wi w2 :: q) t := by
  have hat1 := (hat.setColor_sibling_left .black).setColor_parent .red
  obtain ⟨h2, hrot, hat2⟩ := rbRotateLeft_at aug ((at_cons_iff).1 hat1)
  exact ⟨h2, hrot, (at_cons_iff).2 ((at_cons_iff).2 hat2)⟩

/-- case 2, node a left child: the black sibling turns red and the focus moves to the parent -/
theorem eraseCase2Left {cw : Color} (hat : At h (.left cz z (.node w1 cw wi w2) :: q) t) :
    At (h.setColor wi .red) q (.node t cz z (.node w1 .red wi w2)) :=
  (at_cons_iff).1 (hat.setColor_sibling_left .red)

/-- case 3, node a left child: the sibling's red left child turns black, the sibling red, and a rotation right at the
sibling puts its left child in its place -/
theorem eraseCase3Left (hat : At h (.left cz z (.node (.node w11 .red w1i w12) .black wi w2) :: q) t) :
    ∃ h1, rbRotateRight aug ((h.setColor w1i .black).setColor wi .red) wi = some h1 ∧
      At h1 (.left cz z (.node w11 .black w1i (.node w12 .red wi w2)) :: q) t := by
  have hw1 : At h (.left .black wi w2 :: .right t cz z :: q) (.node w11 .red w1i w12) :=
    (at_cons_iff).2 ((at_left_iff_right).1 hat)
  have hw : At ((h.setColor w1i .black).setColor wi .red) (.right t cz z :: q)
      (.node (.node w11 .black w1i w12) .red wi w2) :=
    ((at_cons_iff).1 (hw1.setColor .black)).setColor .red
  obtain ⟨h2, hrot, hat2⟩ := rbRotateRight_at aug hw
  exact ⟨h2, hrot, (at_left_iff_right).2 hat2⟩

/-- case 4, node a left child: the sibling takes the parent's colour, the parent and the sibling's red right child
turn black, and a rotation left at the parent puts the sibling in its place -/
theorem eraseCase4Left (hat : At h (.left cz z (.node w1 .black wi (.node w21 .red w2i w22)) :: q) t) :
    ∃ h1, rbRotateLeft aug (((h.setColor wi cz).setColor z .black).setColor w2i .black) z = some h1 ∧
      At h1 q (.node (.node t .black z w1) cz wi (.node w21 .black w2i w22)) := by
  have hat1 := (hat.setColor_sibling_left cz).setColor_parent .black
  have hw2 : At ((h.setColor wi cz).setColor z .black) (.right w1 cz wi :: .right t .black z :: q)
      (.node w21 .red w2i w22) :=
    (at_cons_iff).2 ((at_left_iff_right).1 hat1)
  have hat3 : At (((h.setColor wi cz).setColor z .black).setColor w2i .black) q
      (.node t .black z (.node w1 cz wi (.node w21 .black w2i w22))) :=
    (at_cons_iff).1 ((at_left_iff_right).2 ((at_cons_iff).1 (hw2.setColor .black)))
  exact rbRotateLeft_at aug hat3

/-- the mirror of `eraseCase1Left`: node a right child -/
theorem eraseCase1Right (hat : At h (.right (.node w1 .red wi w2) .black z :: q) t) :
    ∃ h1, rbRotateRight aug ((h.setColor wi .black).setColor z .red) z = some h1 ∧
      At h1 (.right w2 .red z :: .right w1 .black wi :: q) t := by
  have hat1 := (hat.setColor_sibling_right .black).setColor_parent .red
  obtain ⟨h2, hrot, hat2⟩ := rbRotateRight_at aug ((at_cons_iff).1 hat1)
  exact ⟨h2, hrot, (at_cons_iff).2 ((at_cons_iff).2 hat2)⟩

/-- the mirror of `eraseCase2Left` -/
theorem eraseCase2Right {cw : Color} (hat : At h (.right (.node w1 cw wi w2) cz z :: q) t) :
    At (h.setColor wi .red) q (.node (.node w1 .red wi w2) cz z t) :=
  (at_cons_iff).1 (hat.setColor_sibling_right .red)

/-- the mirror of `eraseCase3Left`: the sibling's red right child is rotated above it -/
theorem eraseCase3Right (hat : At h (.right (.node w1 .black wi (.node w21 .red w2i w22)) cz z :: q) t) :
    ∃ h1, rbRotateLeft aug ((h.setColor w2i .black).setColor wi .red) wi = some h1 ∧
      At h1 (.right (.node (.node w1 .red wi w21) .black w2i w22) cz z :: q) t := by
  have hw2 : At h (.right w1 .black wi :: .left cz z t :: q) (.node w21 .red w2i w22) :=
    (at_cons_iff).2 ((at_left_iff_right).2 hat)
  have hw : At ((h.setColor w2i .black).setColor wi .red) (.left cz z t :: q)
      (.node w1 .red wi (.node w21 .black w2i w22)) :=
    ((at_cons_iff).1 (hw2.setColor .black)).setColor .red
  obtain ⟨h2, hrot, hat2⟩ := rbRotateLeft_at aug hw
  exact ⟨h2, hrot, (at_left_iff_right).1 hat2⟩

/-- the mirror of `eraseCase4Left` -/
theorem eraseCase4Right (hat : At h (.right (.node (.node w11 .red w1i w12) .black wi w2) cz z :: q) t) :
    ∃ h1, rbRotateRight aug (((h.setColor wi cz).setColor z .black).setColor w1i .black) z = some h1 ∧
      At h1 q (.node (.node w11 .black w1i w12) cz wi (.node w2 .black z t)) := by
  have hat1 := (hat.setColor_sibling_right cz).setColor_parent .black
  have hw1 : At ((h.setColor wi cz).setColor z .black) (.left cz wi w2 :: .left .black z t :: q)
      (.node w11 .red w1i w12) :=
    (at_cons_iff).2 ((at_left_iff_right).2 hat1)
  have hat3 : At (((h.setColor wi cz).setColor z .black).setColor w1i .black) q
      (.node (.node (.node w11 .black w1i w12) cz wi w2) .black z t) :=
    (at_cons_iff).1 ((at_left_iff_right).1 ((at_cons_iff).1 (hw1.setColor .black)))
  exact rbRotateRight_at aug hat3

/-! ## One pass of the loop -/

/-- case 4, node a left child, as __rb_erase_color runs it -/
theorem eraseColorLeftRotate_spec (hat : At h (.left cz z (.node w1 .black wi (.node w21 .red w2i w22)) :: q) t) :
    ∃ h', eraseColorLeftRotate aug h z wi = some (.done h' h'.root) ∧
      At h' q (.node (.node t .black z w1) cz wi (.node w21 .black w2i w22)) := by
  obtain ⟨h', hrot, hat'⟩ := eraseCase4Left aug hat
  have hsib := (at_left_iff_right).1 hat
  have hzw : wi ≠ z := fun e => hsib.top_not_mem (z := z) rfl (by simp [e])
  have hz : (h.nodes z).color = cz := by simp [hat.path.1]
  have hw : (((h.setColor wi cz).setColor z .black).nodes wi).right = some w2i := by
    simp [hsib.nodes_top, hzw]
  refine ⟨h', ?_, hat'⟩
  simp only [eraseColorLeftRotate, hz, hw, hrot, Option.map_some]

/-- cases 2 to 4, node a deficient left child with a black sibling: case 2 moves the focus to the parent, cases 3
and 4 end the loop -/
theorem eraseColorLeftSibling_spec {N n : Nat} (hat : At h (.left cz z (.node w1 .black wi w2) :: q) t)
    (ht : Balanced t .black n) (hp : PathBal .black N (.left cz z (.node w1 .black wi w2) :: q) .black (n + 1)) :
    ∃ s, eraseColorLeftSibling aug h z wi = some s ∧
      EraseStepOk (.left cz z (.node w1 .black wi w2) :: q) t q cz s := by
  have hsib := (at_left_iff_right).1 hat
  obtain ⟨hr1, hr2⟩ := hsib.isRed_children
  obtain ⟨-, m, cw1, cw2, hm, hw1, hw2⟩ := (sibling_black_left hp).black_inv
  obtain rfl : m = n := by omega
  rw [hw1.color_eq] at hr1
  rw [hw2.color_eq] at hr2
  cases cw2 with
  | red =>
    cases hw2 with
    | @red w21 w22 w2i _ hw21 hw22 =>
      obtain ⟨h', hrun, hat'⟩ := eraseColorLeftRotate_spec aug hat
      refine ⟨_, ?_, EraseStepOk.done_of_at hat' (case4Left_isRB ht hw1 hw21 hw22 hp) (by simp [ids_fill])⟩
      cases cw1 <;> simp only [eraseColorLeftSibling, hr1, hr2, hrun] <;> rfl
  | black =>
    cases cw1 with
    | black =>
      have hat' := eraseCase2Left hat
      have hpar : ((h.setColor wi .red).nodes z).parent = pathTop q := hat'.parent_of_top rfl
      refine ⟨.next (h.setColor wi .red) (some z) (pathTop q), ?_, _, hat', rfl, rfl, rfl,
        case2Left_inv ht hw1 hw2 hp, by simp [ids_fill]⟩
      simp only [eraseColorLeftSibling, hr1, hr2, hpar]
      rfl
    | red =>
      cases hw1 with
      | @red w11 w12 w1i _ hw11 hw12 =>
        obtain ⟨h1, hrot, hat1⟩ := eraseCase3Left aug hat
        have hz : (h1.nodes z).right = some w1i := by simp [hat1.path.1]
        have hleft : (h.nodes wi).left = some w1i := by simp [hsib.nodes_top]
        obtain ⟨h', hrun, hat'⟩ := eraseColorLeftRotate_spec aug hat1
        refine ⟨_, ?_, EraseStepOk.done_of_at hat' (case4Left_isRB ht hw11 hw12 hw2 hp) (by simp [ids_fill])⟩
        simp only [eraseColorLeftSibling, hr1, hr2]
        simp only [hleft, hrot, Option.bind_some, hz, hrun]
        rfl

/-- the sibling of a deficient hole has black height `n + 1`, so it is a node -/
theorem exists_sibling_left {w : RBTree Nat} {N n : Nat} (hp : PathBal .black N (.left cz z w :: q) .black (n + 1)) :
    ∃ w1 cw wi w2, w = .node w1 cw wi w2 ∧ Balanced (.node w1 cw wi w2) cw (n + 1) := by
  obtain ⟨cw, hw⟩ : ∃ cw, Balanced w cw (n + 1) := by
    rcases hp.left_inv with ⟨-, -, hw, -⟩ | ⟨-, cw, hw, -⟩
    · exact ⟨_, hw⟩
    · exact ⟨_, hw⟩
  cases w with
  | leaf => cases hw
  | node w1 cw' wi w2 =>
    obtain rfl : cw' = cw := hw.color_eq
    exact ⟨w1, cw', wi, w2, rfl, hw⟩

theorem exists_sibling_right {w : RBTree Nat} {N n : Nat}
    (hp : PathBal .black N (.right w cz z :: q) .black (n + 1)) :
    ∃ w1 cw wi w2, w = .node w1 cw wi w2 ∧ Balanced (.node w1 cw wi w2) cw (n + 1) := by
  obtain ⟨cw, hw⟩ : ∃ cw, Balanced w cw (n + 1) := by
    rcases hp.right_inv with ⟨-, -, hw, -⟩ | ⟨-, cw, hw, -⟩
    · exact ⟨_, hw⟩
    · exact ⟨_, hw⟩
  cases w with
  | leaf => cases hw
  | node w1 cw' wi w2 =>
    obtain rfl : cw' = cw := hw.color_eq
    exact ⟨w1, cw', wi, w2, rfl, hw⟩

/-- one pass of the loop, node a deficient left child: it ends the loop, or moves the focus to a hole of lower
measure -/
theorem eraseColorLeft_spec {w : RBTree Nat} {N n : Nat} (hat : At h (.left cz z w :: q) t)
    (ht : Balanced t .black n) (hp : PathBal .black N (.left cz z w :: q) .black (n + 1)) :
    ∃ s p' c, eraseColorLeft aug h z = some s ∧ eraseMeasure p' c < eraseMeasure (.left cz z w :: q) .black ∧
      EraseStepOk (.left cz z w :: q) t p' c s := by
  obtain ⟨w1, cw, wi, w2, rfl, hw⟩ := exists_sibling_left hp
  have hz : (h.nodes z).right = some wi := by simp [hat.path.1]
  have hwi : (h.nodes wi).color = cw := by simp [((at_left_iff_right).1 hat).nodes_top]
  cases cw with
  | red =>
    obtain ⟨rfl, hp1⟩ := case1Left_inv hp
    obtain ⟨-, hw1, -⟩ := hw.red_inv
    obtain ⟨w11, c1, w1i, w12, rfl, hw1'⟩ := exists_sibling_left hp1
    obtain rfl : c1 = .black := hw1'.color_eq.symm.trans hw1.color_eq
    obtain ⟨h1, hrot, hat1⟩ := eraseCase1Left aug hat
    have hz1 : (h1.nodes z).right = some w1i := by simp [hat1.path.1]
    obtain ⟨s, hs, hok⟩ := eraseColorLeftSibling_spec aug hat1 ht hp1
    refine ⟨s, _, _, ?_, ?_, hok.of_ids (by simp [ids_fill])⟩
    · simp only [eraseColorLeft, hz, hwi, hrot, Option.bind_some, hz1, hs]
    · simp [eraseMeasure]
  | black =>
    obtain ⟨s, hs, hok⟩ := eraseColorLeftSibling_spec aug hat ht hp
    refine ⟨s, q, cz, ?_, ?_, hok⟩
    · simp only [eraseColorLeft, hz, hwi, hs]
    · cases cz <;> simp [eraseMeasure]

/-- the mirror of `eraseColorLeftRotate_spec` -/
theorem eraseColorRightRotate_spec
    (hat : At h (.right (.node (.node w11 .red w1i w12) .black wi w2) cz z :: q) t) :
    ∃ h', eraseColorRightRotate aug h z wi = some (.done h' h'.root) ∧
      At h' q (.node (.node w11 .black w1i w12) cz wi (.node w2 .black z t)) := by
  obtain ⟨h', hrot, hat'⟩ := eraseCase4Right aug hat
  have hsib := (at_left_iff_right).2 hat
  have hzw : wi ≠ z := fun e => hsib.top_not_mem (z := z) rfl (by simp [e])
  have hz : (h.nodes z).color = cz := by simp [hat.path.1]
  have hw : (((h.setColor wi cz).setColor z .black).nodes wi).left = some w1i := by
    simp [hsib.nodes_top, hzw]
  refine ⟨h', ?_, hat'⟩
  simp only [eraseColorRightRotate, hz, hw, hrot, Option.map_some]

/-- the mirror of `eraseColorLeftSibling_spec` -/
theorem eraseColorRightSibling_spec {N n : Nat} (hat : At h (.right (.node w1 .black wi w2) cz z :: q) t)
    (ht : Balanced t .black n) (hp : PathBal .black N (.right (.node w1 .black wi w2) cz z :: q) .black (n + 1)) :
    ∃ s, eraseColorRightSibling aug h z wi = some s ∧
      EraseStepOk (.right (.node w1 .black wi w2) cz z :: q) t q cz s := by
  have hsib := (at_left_iff_right).2 hat
  obtain ⟨hr1, hr2⟩ := hsib.isRed_children
  obtain ⟨-, m, cw1, cw2, hm, hw1, hw2⟩ := (sibling_black_right hp).black_inv
  obtain rfl : m = n := by omega
  rw [hw1.color_eq] at hr1
  rw [hw2.color_eq] at hr2
  cases cw1 with
  | red =>
    cases hw1 with
    | @red w11 w12 w1i _ hw11 hw12 =>
      obtain ⟨h', hrun, hat'⟩ := eraseColorRightRotate_spec aug hat
      refine ⟨_, ?_, EraseStepOk.done_of_at hat' (case4Right_isRB ht hw2 hw11 hw12 hp) (by simp [ids_fill])⟩
      cases cw2 <;> simp only [eraseColorRightSibling, hr1, hr2, hrun] <;> rfl
  | black =>
    cases cw2 with
    | black =>
      have hat' := eraseCase2Right hat
      have hpar : ((h.setColor wi .red).nodes z).parent = pathTop q := hat'.parent_of_top rfl
      refine ⟨.next (h.setColor wi .red) (some z) (pathTop q), ?_, _, hat', rfl, rfl, rfl,
        case2Right_inv ht hw1 hw2 hp, by simp [ids_fill]⟩
      simp only [eraseColorRightSibling, hr1, hr2, hpar]
      rfl
    | red =>
      cases hw2 with
      | @red w21 w22 w2i _ hw21 hw22 =>
        obtain ⟨h1, hrot, hat1⟩ := eraseCase3Right aug hat
        have hz : (h1.nodes z).left = some w2i := by simp [hat1.path.1]
        have hright : (h.nodes wi).right = some w2i := by simp [hsib.nodes_top]
        obtain ⟨h', hrun, hat'⟩ := eraseColorRightRotate_spec aug hat1
        refine ⟨_, ?_, EraseStepOk.done_of_at hat' (case4Right_isRB ht hw22 hw1 hw21 hp) (by simp [ids_fill])⟩
        simp only [eraseColorRightSibling, hr1, hr2]
        simp only [hright, hrot, Option.bind_some, hz, hrun]
        rfl

/-- the mirror of `eraseColorLeft_spec` -/
theorem eraseColorRight_spec {w : RBTree Nat} {N n : Nat} (hat : At h (.right w cz z :: q) t)
    (ht : Balanced t .black n) (hp : PathBal .black N (.right w cz z :: q) .black (n + 1)) :
    ∃ s p' c, eraseColorRight aug h z = some s ∧ eraseMeasure p' c < eraseMeasure (.right w cz z :: q) .black ∧
      EraseStepOk (.right w cz z :: q) t p' c s := by
  obtain ⟨w1, cw, wi, w2, rfl, hw⟩ := exists_sibling_right hp
  have hz : (h.nodes z).left = some wi := by simp [hat.path.1]
  have hwi : (h.nodes wi).color = cw := by simp [((at_left_iff_right).2 hat).nodes_top]
  cases cw with
  | red =>
    obtain ⟨rfl, hp1⟩ := case1Right_inv hp
    obtain ⟨-, -, hw2⟩ := hw.red_inv
    obtain ⟨w21, c2, w2i, w22, rfl, hw2'⟩ := exists_sibling_right hp1
    obtain rfl : c2 = .black := hw2'.color_eq.symm.trans hw2.color_eq
    obtain ⟨h1, hrot, hat1⟩ := eraseCase1Right aug hat
    have hz1 : (h1.nodes z).left = some w2i := by simp [hat1.path.1]
    obtain ⟨s, hs, hok⟩ := eraseColorRightSibling_spec aug hat1 ht hp1
    refine ⟨s, _, _, ?_, ?_, hok.of_ids (by simp [ids_fill])⟩
    · simp only [eraseColorRight, hz, hwi, hrot, Option.bind_some, hz1, hs]
    · simp [eraseMeasure]
  | black =>
    obtain ⟨s, hs, hok⟩ := eraseColorRightSibling_spec aug hat ht hp
    refine ⟨s, q, cz, ?_, ?_, hok⟩
    · simp only [eraseColorRight, hz, hwi, hs]
    · cases cz <;> simp [eraseMeasure]

/-! ## The loop -/

/-- where the loop of __rb_erase_color stops: the heap at a hole whose subtree, once blackened, completes a
red-black tree on the nodes `S` -/
def EraseEnd {β : Type} (S : List Nat) (h : RbHeap β) (node : Option Nat) : Prop :=
  ∃ p t, At h p t ∧ node = t.top ∧ IsRB (fill p t.setBlack) ∧ (fill p t).ids = S

/-- the parent of a deficient right child has the sibling, not the hole, on its left -/
theorem left_ne_of_right {w : RBTree Nat} {N n : Nat} (hat : At h (.right w cz z :: q) t)
    (hp : PathBal .black N (.right w cz z :: q) .black (n + 1)) : (h.nodes z).left ≠ t.top := by
  obtain ⟨w1, cw, wi, w2, rfl, -⟩ := exists_sibling_right hp
  have hsib := (at_left_iff_right).2 hat
  have hwt : wi ∉ t.ids := fun hw => hsib.not_mem_path (i := wi) (by simp) (by simp [pathIds_eq, hw])
  simpa [hat.path.1] using (RBTree.top_ne_of_not_mem hwt).symm

/-- the loop of __rb_erase_color, started at a hole that keeps the invariant and with fuel beyond its measure,
stops where blackening the node it stops on leaves a red-black tree on the same nodes -/
theorem rbEraseColorLoop_spec (fuel : Nat) (h : RbHeap β) {p : List (Frame Nat)} {t : RBTree Nat}
    (hat : At h p t) (hinv : EraseInv p t) (hfuel : eraseMeasure p t.color < fuel) :
    ∃ h' node, rbEraseColorLoop aug fuel h t.top (pathTop p) = some (h', node) ∧ EraseEnd (fill p t).ids h' node := by
  induction fuel generalizing h p t with
  | zero => exact absurd hfuel (Nat.not_lt_zero _)
  | succ fuel ih =>
    have hred := hat.isRed_top
    cases hc : t.color with
    | red =>
      refine ⟨h, t.top, ?_, p, t, hat, rfl, hinv.red_done hc, rfl⟩
      simp [rbEraseColorLoop, hred, hc]
    | black =>
      rw [hc] at hfuel
      by_cases hroot : t.top = h.root
      · have hp : p = [] := by
          cases p with
          | nil => rfl
          | cons f p => exact absurd hroot.symm hat.root_ne_top
        subst hp
        refine ⟨h, t.top, ?_, [], t, hat, rfl, hinv.root_done hc, rfl⟩
        simp [rbEraseColorLoop, hroot]
      · obtain ⟨N, n, ht, hpb⟩ := hinv.deficient hc
        cases p with
        | nil => exact absurd hat.path.symm hroot
        | cons f q =>
          obtain ⟨s, p', c, hs, hlt, hok⟩ : ∃ s p' c, (if (h.nodes f.id).left = t.top then eraseColorLeft aug h f.id
              else eraseColorRight aug h f.id) = some s ∧ eraseMeasure p' c < eraseMeasure (f :: q) .black ∧
              EraseStepOk (f :: q) t p' c s := by
            cases f with
            | left cz z w =>
              have hleft : (h.nodes z).left = t.top := by simp [hat.path.1]
              simpa [hleft] using eraseColorLeft_spec aug hat ht hpb
            | right w cz z =>
              simpa [left_ne_of_right hat hpb] using eraseColorRight_spec aug hat ht hpb
          have hloop : rbEraseColorLoop aug (fuel + 1) h t.top (pathTop (f :: q)) =
              match s with
              | .done h node => some (h, node)
              | .next h node parent => rbEraseColorLoop aug fuel h node parent := by
            simp [rbEraseColorLoop, hred, hc, hroot, hs]
            cases s <;> rfl
          rw [hloop]
          cases s with
          | done h' node =>
            obtain ⟨T, hatT, hnode, hrb, hids⟩ := hok
            exact ⟨h', node, rfl, [], T, hatT, hnode, hrb.setBlack, hids⟩
          | next h' node parent =>
            obtain ⟨t', hat', rfl, rfl, hc', hinv', hids⟩ := hok
            obtain ⟨h'', node', hrun, hend⟩ := ih h' hat' hinv' (by rw [hc']; omega)
            exact ⟨h'', node', hrun, hids ▸ hend⟩

/-- __rb_erase_color: the loop, then the blackening of the node it stops on -/
theorem rbEraseColorCore_spec (fuel : Nat) {p : List (Frame Nat)} {t : RBTree Nat} (hat : At h p t)
    (hinv : EraseInv p t) (hfuel : eraseMeasure p t.color < fuel) :
    ∃ h' T, rbEraseColorCore aug fuel h t.top (pathTop p) = some h' ∧ At h' [] T ∧ IsRB T ∧
      T.ids = (fill p t).ids := by
  obtain ⟨h', node, hrun, p', t', hat', rfl, hrb, hids⟩ := rbEraseColorLoop_spec aug fuel h hat hinv hfuel
  cases t' with
  | leaf =>
    exact ⟨h', fill p' .leaf, by simp only [rbEraseColorCore, hrun, Option.map_some]; rfl, (at_iff_fill).1 hat',
      hrb, hids⟩
  | node l c x r =>
    refine ⟨h'.setColor x .black, fill p' (.node l .black x r), ?_, (at_iff_fill).1 (hat'.setColor .black), hrb,
      by rw [← hids]; exact ids_fill_congr p' rfl⟩
    simp only [rbEraseColorCore, hrun, Option.map_some]
    rfl

end Naos.RbTree
