/-
The tree of the VMA manager as a search tree: each walk of vma.c down the heap gives what a descent of
`Naos.Lib.TreeSearch` gives on the tree the heap links, and vma_insert and vma_remove add one VMA to that tree and
take one out.

`TreeOk mgr T`: the heap of `mgr` holds the red-black tree `T`, and the VMAs of its nodes are nonempty and in order
of address, each ending where or before the next one begins.

Results:
- `vmaSearchLoop_eq`, `vmaPrevLoop_eq`, `vmaNextLoop_eq`, `vmaInsertLoop_eq`: with fuel beyond the size of the tree
  below, a walk of the heap is the descent of the tree;
- `TreeOk.ordered_findDir`, `TreeOk.ordered_intersectionDir`: the comparisons of the walks follow the order of the
  VMAs;
- `at_link`: the node setup and `*link = node` of vma_insert hang the new node as a red leaf at the hole;
- `vmaInsert_spec`: vma_insert of a VMA outside the tree whose range meets none of it links it in and adds its length
  to vm_used;
- `vmaIsLinked_of_mem`, `eraseVma_spec`, `vmaRemove_spec`: vma_remove of a VMA of the tree takes it out and takes its
  length off vm_used.
-/
import Naos.Mm.Vma
import Naos.Lib.TreeSearch
import Naos.Lib.Intervals
import Naos.Libs.RbTreeUnlink

namespace Naos.Vmas

open RedBlack RBTree Naos.RbTree RbHeap VmaManager

/-! ## The comparisons of the walks -/

section Dirs

variable {addr start «end» : Nat} {v : Vma}

@[simp] theorem findDir_eq_lt : findDir addr v = .lt ↔ addr < v.vmStart := by
  unfold findDir
  split_ifs <;> simp <;> omega

@[simp] theorem findDir_eq_eq : findDir addr v = .eq ↔ v.vmStart ≤ addr ∧ addr < v.vmEnd := by
  unfold findDir
  split_ifs <;> simp <;> omega

@[simp] theorem findDir_eq_gt : findDir addr v = .gt ↔ v.vmStart ≤ addr ∧ v.vmEnd ≤ addr := by
  unfold findDir
  split_ifs <;> simp <;> omega

@[simp] theorem intersectionDir_eq_lt : intersectionDir start «end» v = .lt ↔ «end» ≤ v.vmStart := by
  unfold intersectionDir
  split_ifs <;> simp <;> omega

@[simp] theorem intersectionDir_eq_eq :
    intersectionDir start «end» v = .eq ↔ v.vmStart < «end» ∧ start < v.vmEnd := by
  unfold intersectionDir
  split_ifs <;> simp <;> omega

@[simp] theorem intersectionDir_eq_gt :
    intersectionDir start «end» v = .gt ↔ v.vmStart < «end» ∧ v.vmEnd ≤ start := by
  unfold intersectionDir
  split_ifs <;> simp <;> omega

end Dirs

/-! ## The walks are descents of the tree -/

section Walks

variable {h : RbHeap Unit} {vmas : Nat → Vma} {par : Option Nat}

/-- the walk of vma_find, vma_find_intersection and vma_is_linked is `search` -/
theorem vmaSearchLoop_eq (dir : Vma → Ordering) {t : RBTree Nat} (ht : Linked h.nodes par t) {fuel : Nat}
    (hfuel : t.ids.length ≤ fuel) : vmaSearchLoop h vmas dir t.top fuel = some (t.search fun x => dir (vmas x)) := by
  induction t generalizing par fuel with
  | leaf => cases fuel <;> rfl
  | node l c x r ihl ihr =>
    obtain ⟨hx, hl, hr⟩ := ht
    cases fuel with
    | zero => simp at hfuel
    | succ fuel =>
      simp only [ids_node, List.length_append, List.length_cons] at hfuel
      simp only [top_node, vmaSearchLoop, search, hx]
      cases dir (vmas x) with
      | lt => exact ihl hl (by omega)
      | eq => rfl
      | gt => exact ihr hr (by omega)

/-- the walk of vma_prev is `lastBelow`, for the VMAs that start below the target -/
theorem vmaPrevLoop_eq (target : Vma) {t : RBTree Nat} (ht : Linked h.nodes par t) (best : Option Nat) {fuel : Nat}
    (hfuel : t.ids.length ≤ fuel) :
    vmaPrevLoop h vmas target t.top best fuel =
      some (t.lastBelow (fun x => decide ((vmas x).vmStart < target.vmStart)) best) := by
  induction t generalizing par best fuel with
  | leaf => cases fuel <;> rfl
  | node l c x r ihl ihr =>
    obtain ⟨hx, hl, hr⟩ := ht
    cases fuel with
    | zero => simp at hfuel
    | succ fuel =>
      simp only [ids_node, List.length_append, List.length_cons] at hfuel
      simp only [top_node, vmaPrevLoop, lastBelow, hx]
      by_cases hlt : (vmas x).vmStart < target.vmStart
      · rw [if_neg (by omega), if_pos (by simpa using hlt)]
        exact ihr hr _ (by omega)
      · rw [if_pos (by omega), if_neg (by simpa using hlt)]
        exact ihl hl _ (by omega)

/-- the walk of vma_next is `firstAbove`, for the VMAs that start above the target -/
theorem vmaNextLoop_eq (target : Vma) {t : RBTree Nat} (ht : Linked h.nodes par t) (best : Option Nat) {fuel : Nat}
    (hfuel : t.ids.length ≤ fuel) :
    vmaNextLoop h vmas target t.top best fuel =
      some (t.firstAbove (fun x => decide (target.vmStart < (vmas x).vmStart)) best) := by
  induction t generalizing par best fuel with
  | leaf => cases fuel <;> rfl
  | node l c x r ihl ihr =>
    obtain ⟨hx, hl, hr⟩ := ht
    cases fuel with
    | zero => simp at hfuel
    | succ fuel =>
      simp only [ids_node, List.length_append, List.length_cons] at hfuel
      simp only [top_node, vmaNextLoop, firstAbove, hx]
      by_cases hlt : target.vmStart < (vmas x).vmStart
      · rw [if_pos hlt, if_pos (by simpa using hlt)]
        exact ihl hl _ (by omega)
      · rw [if_neg hlt, if_neg (by simpa using hlt)]
        exact ihr hr _ (by omega)

/-- the link that points at the hole of a path: the root pointer, or the child pointer of the hole's parent -/
def linkOf : List (Frame Nat) → Link
  | [] => .root
  | .left _ y _ :: _ => .left y
  | .right _ _ y :: _ => .right y

theorem parent_linkOf : ∀ p : List (Frame Nat), (linkOf p).parent = pathTop p
  | [] => rfl
  | .left _ _ _ :: _ => rfl
  | .right _ _ _ :: _ => rfl

theorem linkTarget_linkOf {p : List (Frame Nat)} {hole : Option Nat} (hp : LinkedPath h.nodes h.root hole p) :
    linkTarget h (linkOf p) = hole := by
  match p, hp with
  | [], hp => exact hp
  | .left _ _ _ :: _, hp => simp [linkOf, linkTarget, hp.1]
  | .right _ _ _ :: _, hp => simp [linkOf, linkTarget, hp.1]

/-- the walk of vma_insert is `descend` with the comparisons of vma_find_intersection, and gives the link of the
hole it reaches -/
theorem vmaInsertLoop_eq (new : Vma) {p : List (Frame Nat)} {t : RBTree Nat} (hat : At h p t) {fuel : Nat}
    (hfuel : t.ids.length < fuel) :
    vmaInsertLoop h vmas new (linkOf p) fuel =
      some ((t.descend (fun x => intersectionDir new.vmStart new.vmEnd (vmas x)) p).map linkOf) := by
  induction t generalizing p fuel with
  | leaf =>
    obtain ⟨fuel, rfl⟩ : ∃ f, fuel = f + 1 := ⟨fuel - 1, by simp at hfuel; omega⟩
    simp [vmaInsertLoop, linkTarget_linkOf hat.path, descend]
  | node l c x r ihl ihr =>
    obtain ⟨fuel, rfl⟩ : ∃ f, fuel = f + 1 := ⟨fuel - 1, by simp at hfuel; omega⟩
    simp only [ids_node, List.length_append, List.length_cons] at hfuel
    simp only [vmaInsertLoop, linkTarget_linkOf hat.path, top_node, descend]
    cases intersectionDir new.vmStart new.vmEnd (vmas x) with
    | lt => exact ihl (p := .left c x r :: p) ((at_cons_iff).2 hat) (by omega)
    | eq => rfl
    | gt => exact ihr (p := .right l c x :: p) ((at_cons_iff).2 hat) (by omega)

end Walks

/-! ## The node vma_insert links -/

section Link

variable {h : RbHeap Unit}

/-- `node->rb_parent_color = parent; node->rb_left = node->rb_right = NULL; *link = node;`: a node outside the tree
hangs at the hole as a red leaf -/
theorem at_link {p : List (Frame Nat)} {x : Nat} (hat : At h p .leaf) (hx : x ∉ (fill p .leaf).ids) :
    At (setLink (h.modify x fun _ => ⟨pathTop p, .red, none, none⟩) (linkOf p) (some x)) p (.node .leaf .red x .leaf) := by
  have hxp : x ∉ pathIds p := by
    rw [ids_fill] at hx
    simpa [pathIds_eq] using hx
  have hnd : (fill p (.node .leaf .red x .leaf)).ids.Nodup :=
    (nodup_fill_iff p _).2 ⟨by simp, hat.nodup_path, by simpa using hxp⟩
  have hpath : LinkedPath (Function.update h.nodes x ⟨pathTop p, .red, none, none⟩) h.root none p :=
    (linkedPath_update hxp).2 hat.path
  match p, hpath with
  | [], _ => exact ⟨rfl, by simp [setLink, linkOf], hnd⟩
  | .left c y r :: q, ⟨hy, hr, hq⟩ =>
    have hyq := (perm_pathIds_left c y r q).nodup_iff.1 hat.nodup_path
    simp only [List.cons_append, List.nodup_cons, List.mem_append, not_or] at hyq
    have hxy : x ≠ y := fun e => hxp ((perm_pathIds_left c y r q).mem_iff.2 (by simp [e]))
    rw [pathTop_cons, Frame.id_left] at hy
    refine ⟨⟨?_, (linked_update hyq.1.1).2 hr, (linkedPath_update hyq.1.2).2 hq⟩, ?_, hnd⟩
    · simp [setLink, linkOf, hy]
    · simp [setLink, linkOf, Function.update_of_ne hxy]
  | .right l c y :: q, ⟨hy, hl, hq⟩ =>
    have hyq := (perm_pathIds_right l c y q).nodup_iff.1 hat.nodup_path
    simp only [List.cons_append, List.nodup_cons, List.mem_append, not_or] at hyq
    have hxy : x ≠ y := fun e => hxp ((perm_pathIds_right l c y q).mem_iff.2 (by simp [e]))
    rw [pathTop_cons, Frame.id_right] at hy
    refine ⟨⟨?_, (linked_update hyq.1.1).2 hl, (linkedPath_update hyq.1.2).2 hq⟩, ?_, hnd⟩
    · simp [setLink, linkOf, hy]
    · simp [setLink, linkOf, Function.update_of_ne hxy]

end Link

/-! ## The tree invariant -/

/-- the heap holds the red-black tree `T`, whose VMAs are nonempty and in order of address without overlap -/
structure TreeOk (mgr : VmaManager) (T : RBTree Nat) : Prop where
  linked : At mgr.vmaTree [] T
  rb : IsRB T
  sorted : T.ids.Pairwise fun x y => (mgr.vmas x).vmEnd ≤ (mgr.vmas y).vmStart
  nonempty : ∀ x ∈ T.ids, (mgr.vmas x).vmStart < (mgr.vmas x).vmEnd

namespace TreeOk

variable {mgr : VmaManager} {T : RBTree Nat}

theorem apart (hok : TreeOk mgr T) :
    T.ids.Pairwise (Intervals.Apart (fun x => (mgr.vmas x).vmStart) fun x => (mgr.vmas x).vmEnd) :=
  hok.sorted.imp Or.inl

/-- the comparisons of vma_find run from `.gt` to `.lt` along the VMAs -/
theorem ordered_findDir (hok : TreeOk mgr T) (addr : Nat) :
    SearchOrdered (fun x => findDir addr (mgr.vmas x)) T.ids := by
  refine hok.sorted.imp_of_mem fun {x y} hx hy hxy => ?_
  have hxn := hok.nonempty x hx
  have hyn := hok.nonempty y hy
  simp only [findDir_eq_lt, findDir_eq_gt]
  omega

/-- the comparisons of vma_find_intersection run from `.gt` to `.lt` along the VMAs -/
theorem ordered_intersectionDir (hok : TreeOk mgr T) (start «end» : Nat) :
    SearchOrdered (fun x => intersectionDir start «end» (mgr.vmas x)) T.ids := by
  refine hok.sorted.imp_of_mem fun {x y} hx hy hxy => ?_
  have hxn := hok.nonempty x hx
  have hyn := hok.nonempty y hy
  simp only [intersectionDir_eq_lt, intersectionDir_eq_gt]
  omega

/-- the VMAs that start below a point come first -/
theorem below_prefix (hok : TreeOk mgr T) (s : Nat) :
    T.ids.Pairwise fun x y => decide ((mgr.vmas y).vmStart < s) → decide ((mgr.vmas x).vmStart < s) := by
  refine hok.sorted.imp_of_mem fun {x y} hx _ hxy => ?_
  have hxn := hok.nonempty x hx
  simp only [decide_eq_true_eq]
  omega

/-- the VMAs that start above a point come last -/
theorem above_suffix (hok : TreeOk mgr T) (s : Nat) :
    T.ids.Pairwise fun x y => decide (s < (mgr.vmas x).vmStart) → decide (s < (mgr.vmas y).vmStart) := by
  refine hok.sorted.imp_of_mem fun {x y} hx _ hxy => ?_
  have hxn := hok.nonempty x hx
  simp only [decide_eq_true_eq]
  omega

/-- the invariant reads the heap and the bounds of the VMAs of the tree only -/
theorem congr {mgr' : VmaManager} (hok : TreeOk mgr T) (htree : mgr'.vmaTree = mgr.vmaTree)
    (hv : ∀ x ∈ T.ids, (mgr'.vmas x).vmStart = (mgr.vmas x).vmStart ∧ (mgr'.vmas x).vmEnd = (mgr.vmas x).vmEnd) :
    TreeOk mgr' T where
  linked := htree ▸ hok.linked
  rb := hok.rb
  sorted := hok.sorted.imp_of_mem fun {x y} hx hy hxy => by rw [(hv x hx).2, (hv y hy).1]; exact hxy
  nonempty x hx := by rw [(hv x hx).1, (hv x hx).2]; exact hok.nonempty x hx

theorem setVma_of_not_mem (hok : TreeOk mgr T) {x : Nat} (hx : x ∉ T.ids) (v : Vma) : TreeOk (mgr.setVma x v) T :=
  hok.congr rfl fun y hy => by simp [setVma, Function.update_of_ne (ne_of_mem_of_not_mem hy hx)]

/-- a write to a VMA of the tree that keeps its range -/
theorem setVma_range (hok : TreeOk mgr T) {x : Nat} {v : Vma} (hs : v.vmStart = (mgr.vmas x).vmStart)
    (he : v.vmEnd = (mgr.vmas x).vmEnd) : TreeOk (mgr.setVma x v) T :=
  hok.congr rfl fun y _ => by
    by_cases hxy : y = x
    · subst hxy
      simp [setVma, hs, he]
    · simp [setVma, Function.update_of_ne hxy]

theorem resetNode (hok : TreeOk mgr T) {x : Nat} (hx : x ∉ T.ids) : TreeOk (mgr.resetNode x) T where
  linked := ⟨hok.linked.path, (linked_update hx).2 hok.linked.tree, hok.linked.nodup⟩
  rb := hok.rb
  sorted := hok.sorted
  nonempty := hok.nonempty

end TreeOk

/-! ## vma_insert -/

section Insert

variable {mgr : VmaManager} {T : RBTree Nat} {x : Nat}

/-- two VMAs whose ranges do not overlap -/
abbrev Disjoint (v w : Vma) : Prop := Intervals.Apart Vma.vmStart Vma.vmEnd v w

theorem TreeOk.disjoint (hok : TreeOk mgr T) {y : Nat} (hx : x ∈ T.ids) (hy : y ∈ T.ids) (hxy : x ≠ y) :
    Disjoint (mgr.vmas x) (mgr.vmas y) :=
  hok.apart.forall hx hy hxy

/-- the place vma_insert's walk reaches: a hole with the VMAs that end before the new one on its left and those
that begin after it on its right -/
theorem TreeOk.insertPlace (hok : TreeOk mgr T) (hfree : ∀ y ∈ T.ids, Disjoint (mgr.vmas y) (mgr.vmas x)) :
    ∃ q, T.descend (fun y => intersectionDir (mgr.vmas x).vmStart (mgr.vmas x).vmEnd (mgr.vmas y)) [] = some q ∧
      fill q .leaf = T ∧ (∀ y ∈ leftIds q, (mgr.vmas y).vmEnd ≤ (mgr.vmas x).vmStart) ∧
      ∀ y ∈ rightIds q, (mgr.vmas x).vmEnd ≤ (mgr.vmas y).vmStart := by
  have hne : ∀ y ∈ T.ids, intersectionDir (mgr.vmas x).vmStart (mgr.vmas x).vmEnd (mgr.vmas y) ≠ .eq := by
    intro y hy heq
    have hxy := hfree y hy
    rw [intersectionDir_eq_eq] at heq
    unfold Disjoint Intervals.Apart at hxy
    omega
  obtain ⟨q, hq, hfill, hleft, hright⟩ := descend_eq_some (hok.ordered_intersectionDir _ _) hne []
  refine ⟨q, by simpa using hq, hfill, fun y hy => ?_, fun y hy => (intersectionDir_eq_lt).1 (hright y hy)⟩
  have hgt := (intersectionDir_eq_gt).1 (hleft y hy)
  omega

/-- vma_insert of a nonempty VMA outside the tree whose range meets none of the tree's: it is linked in, between the
VMAs before and after it, and its length is added to vm_used -/
theorem vmaInsert_spec (fuel : Nat) (hok : TreeOk mgr T) (hx : x ∉ T.ids)
    (hne : (mgr.vmas x).vmStart < (mgr.vmas x).vmEnd) (hfree : ∀ y ∈ T.ids, Disjoint (mgr.vmas y) (mgr.vmas x))
    (hfuel : T.ids.length < fuel) :
    ∃ mgr' T', vmaInsert fuel mgr x = some (0, mgr') ∧ mgr'.vmas = mgr.vmas ∧
      mgr'.vmUsed = mgr.vmUsed + vmaLen (mgr.vmas x) ∧ TreeOk mgr' T' ∧ T'.ids.Perm (x :: T.ids) := by
  obtain ⟨q, hq, hfill, hleft, hright⟩ := hok.insertPlace hfree
  subst hfill
  have hloop : vmaInsertLoop mgr.vmaTree mgr.vmas (mgr.vmas x) .root fuel = some (some (linkOf q)) := by
    have : vmaInsertLoop mgr.vmaTree mgr.vmas (mgr.vmas x) (linkOf []) fuel = _ :=
      vmaInsertLoop_eq (p := []) (mgr.vmas x) hok.linked hfuel
    rwa [hq] at this
  have hlink := at_link ((at_iff_fill).2 hok.linked : At mgr.vmaTree q .leaf) hx
  obtain ⟨h', T', hcolor, hat', hrb', hids'⟩ := rbInsertColorCore_spec none fuel q hlink hok.rb hfuel
  have hT : (fill q .leaf).ids = leftIds q ++ rightIds q := by simp [ids_fill]
  have hsorted := hok.sorted
  rw [hT, List.pairwise_append] at hsorted
  refine ⟨{ mgr with vmaTree := h', vmUsed := mgr.vmUsed + vmaLen (mgr.vmas x) }, T', ?_, rfl, rfl,
    ⟨hat', hrb', ?_, ?_⟩, ?_⟩
  · simp [vmaInsert, not_le.2 hne, hloop, parent_linkOf, rbInsertColor, hcolor]
  · rw [hids', List.pairwise_append, List.pairwise_cons]
    refine ⟨hsorted.1, ⟨hright, hsorted.2.1⟩, fun a ha b hb => ?_⟩
    rcases List.mem_cons.1 hb with rfl | hb
    · exact hleft a ha
    · exact hsorted.2.2 a ha b hb
  · intro y hy
    rw [hids', List.mem_append, List.mem_cons] at hy
    rcases hy with hy | rfl | hy
    · exact hok.nonempty y (by simp [hT, hy])
    · exact hne
    · exact hok.nonempty y (by simp [hT, hy])
  · rw [hids', hT]
    exact List.perm_middle

end Insert

/-! ## vma_remove -/

section Remove

variable {mgr : VmaManager} {T : RBTree Nat} {x : Nat}

/-- the walk of vma_is_linked finds every VMA of the tree -/
theorem vmaIsLinked_of_mem (fuel : Nat) (hok : TreeOk mgr T) (hx : x ∈ T.ids) (hfuel : T.ids.length ≤ fuel) :
    vmaIsLinked fuel mgr x = some true := by
  have hsearch : vmaSearchLoop mgr.vmaTree mgr.vmas _ _ fuel = _ :=
    vmaSearchLoop_eq (findDir (mgr.vmas x).vmStart) hok.linked.tree hfuel
  have hroot : mgr.vmaTree.root = T.top := hok.linked.path
  have hxn := hok.nonempty x hx
  have hsome : T.search (fun y => findDir (mgr.vmas x).vmStart (mgr.vmas y)) ≠ none := by
    rw [ne_eq, search_eq_none_iff (hok.ordered_findDir _)]
    intro hall
    exact hall x hx (by unfold findDir; split_ifs <;> first | rfl | omega)
  obtain ⟨y, hy⟩ := Option.ne_none_iff_exists'.1 hsome
  obtain ⟨hyT, hdy⟩ := search_eq_some hy
  have hyx : y = x := by
    refine Intervals.eq_of_holds hok.apart hyT hx ?_ ⟨le_rfl, hxn⟩
    exact (findDir_eq_eq).1 hdy
  simp [vmaIsLinked, hroot, hsearch, hy, hyx]

/-- rb_erase of a VMA of the tree, with fuel beyond twice its size -/
theorem eraseVma_spec (fuel : Nat) (hok : TreeOk mgr T) (hx : x ∈ T.ids) (hfuel : 2 * T.ids.length < fuel) :
    ∃ mgr' T', eraseVma fuel mgr x = some mgr' ∧ mgr'.vmas = mgr.vmas ∧ mgr'.vmUsed = mgr.vmUsed ∧
      TreeOk mgr' T' ∧ T'.ids = T.ids.erase x := by
  obtain ⟨h', T', herase, hat', hrb', hids'⟩ := rbErase_spec fuel hok.linked hok.rb hx hfuel
  refine ⟨{ mgr with vmaTree := h' }, T', by simp [eraseVma, herase], rfl, rfl, ⟨hat', hrb', ?_, ?_⟩, hids'⟩
  · rw [hids']
    exact hok.sorted.sublist (List.erase_sublist)
  · intro y hy
    rw [hids'] at hy
    exact hok.nonempty y (List.mem_of_mem_erase hy)

/-- vma_remove of a VMA of the tree takes it out of the tree and its length off vm_used -/
theorem vmaRemove_spec (fuel : Nat) (hok : TreeOk mgr T) (hx : x ∈ T.ids) (hfuel : 2 * T.ids.length < fuel) :
    ∃ mgr' T', vmaRemove fuel mgr x = some (0, mgr') ∧ mgr'.vmas = mgr.vmas ∧
      mgr'.vmUsed = mgr.vmUsed - vmaLen (mgr.vmas x) ∧ TreeOk mgr' T' ∧ T'.ids = T.ids.erase x := by
  have hlinked := vmaIsLinked_of_mem fuel hok hx (by omega)
  obtain ⟨mgr1, T', herase, hv, hu, hok', hids'⟩ := eraseVma_spec fuel hok hx hfuel
  have hxT' : x ∉ T'.ids := by
    rw [hids']
    exact hok.linked.nodup_tree.not_mem_erase
  refine ⟨{ mgr1.resetNode x with vmUsed := mgr1.vmUsed - vmaLen (mgr1.vmas x) }, T', ?_, hv, by simp [hu, hv],
    (hok'.resetNode hxT').congr rfl fun _ _ => ⟨rfl, rfl⟩, hids'⟩
  simp [vmaRemove, hlinked, herase, resetNode]

end Remove

end Naos.Vmas
