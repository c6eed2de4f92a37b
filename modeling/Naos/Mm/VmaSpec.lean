/-
What the VMA manager stands for, and vma_split and vma_merge against it.

`Vma.viewAt v a` is what the address `a` sees of the VMA `v`: its flags, type, inode, shm and file flags, and for a
file VMA the offset in the file of `a` (`vm_offset + a - vm_start`, in 64 bits) and whether the file backs `a`
(`a - vm_start < vm_file_len`). `view L a` is what `a` sees of the VMAs of the list `L`, through the one that holds
it (`Naos.Lib.Intervals`), and `addrView mgr T a` that of the VMAs of the tree `T` of the manager: the partial
function from addresses that the manager stands for. `VmaOk mgr T` is the invariant: the tree invariant
(`TreeOk`), each VMA well formed as the kernel builds it (`Vma.Wf`), and vm_used the sum of the lengths.

Results:
- `view_split`, `view_merged`: the two halves of a split, and the VMA vma_merge makes of two it may merge, give each
  address what the VMA, or the two, gave it;
- `vmaMergeable_iff`: the checks of vma_merge, as a structure of named conditions (`Mergeable`);
- `vmaSplit_spec`: vma_split at an address inside a VMA, with a fresh node, replaces it by its two halves;
- `vmaMerge_spec`: vma_merge of two VMAs of the tree grows the first over the second when the checks pass, and
  changes nothing otherwise;
- `vma_split_merge`: a split keeps the view of every address and partitions the file length, a merge of the halves
  restores the VMA, and a merge that succeeds joins two adjacent VMAs whose views already agree with the one it
  makes.
-/
import Naos.Mm.VmaTree

namespace Naos.Vmas

open RedBlack RBTree Naos.RbTree VmaManager

/-! ## What an address sees -/

/-- what an address sees of the VMA that maps it -/
structure AddrView where
  flags : Nat
  type : VmaType
  node : Option Nat
  shm : Option Nat
  fileFlags : Nat
  /-- for a file VMA, the offset in the file of the address and whether the file backs it -/
  file : Option (Nat × Bool)
  deriving DecidableEq, Repr

namespace Vma

/-- what the address `a` sees of `v` -/
def viewAt (v : Vma) (a : Nat) : AddrView where
  flags := v.vmFlags
  type := v.vmType
  node := v.node
  shm := v.shm
  fileFlags := v.vmFileFlags
  file := if v.vmType = .file then
      some ((v.vmOffset + (a - v.vmStart)) % 2 ^ 64, decide (a - v.vmStart < v.vmFileLen))
    else none

/-- a VMA as the kernel builds it: its end and offset fit in 64 bits, and its file length is at most its length
for a file VMA (alloc_mapping_vma and the ELF loader set it so) and zero for any other (vma_alloc zeroes it) -/
structure Wf (v : Vma) : Prop where
  end_lt : v.vmEnd < 2 ^ 64
  offset_lt : v.vmOffset < 2 ^ 64
  file_len_le : v.vmType = .file → v.vmFileLen ≤ v.vmEnd - v.vmStart
  file_len_zero : v.vmType ≠ .file → v.vmFileLen = 0

theorem Wf.fileLen_lt {v : Vma} (hwf : v.Wf) : v.vmFileLen < 2 ^ 64 := by
  have he := hwf.end_lt
  by_cases hf : v.vmType = .file
  · have := hwf.file_len_le hf
    omega
  · rw [hwf.file_len_zero hf]
    positivity

end Vma

/-- what `a` sees of the VMAs of `L`: the view of the one that holds it -/
def view (L : List Vma) (a : Nat) : Option AddrView := Intervals.lookup Vma.vmStart Vma.vmEnd Vma.viewAt L a

section Cons

variable {v : Vma} {L : List Vma} {a : Nat}

theorem view_cons_of_holds (h : v.vmStart ≤ a ∧ a < v.vmEnd) : view (v :: L) a = some (v.viewAt a) := by
  rw [view, Intervals.lookup_cons, if_pos (show Intervals.Holds Vma.vmStart Vma.vmEnd v a from h)]

theorem view_cons_of_not_holds (h : ¬(v.vmStart ≤ a ∧ a < v.vmEnd)) : view (v :: L) a = view L a := by
  rw [view, Intervals.lookup_cons, if_neg (show ¬Intervals.Holds Vma.vmStart Vma.vmEnd v a from h)]
  rfl

end Cons

/-! ## The two halves of a split -/

section Split

variable {v : Vma} {addr a : Nat}

@[simp] theorem vmStart_splitLow : (splitLow v addr).vmStart = v.vmStart := rfl
@[simp] theorem vmEnd_splitLow : (splitLow v addr).vmEnd = addr := rfl
@[simp] theorem vmStart_splitHigh : (splitHigh v addr).vmStart = addr := rfl
@[simp] theorem vmEnd_splitHigh : (splitHigh v addr).vmEnd = v.vmEnd := rfl

/-- below the split, the low half gives an address what the VMA gave it: the file length it keeps covers the
addresses below the split that the file backed -/
theorem viewAt_splitLow (hlo : v.vmStart < addr) (ha : a < addr) : (splitLow v addr).viewAt a = v.viewAt a := by
  by_cases hf : v.vmType = .file
  · simp only [Vma.viewAt, splitLow, hf, if_true, Option.some.injEq, Prod.mk.injEq, true_and, AddrView.mk.injEq]
    simp only [decide_eq_decide]
    omega
  · simp [Vma.viewAt, splitLow, hf]

/-- from the split on, the high half gives an address what the VMA gave it: the offset moves on by the split, and
so does the backed length -/
theorem viewAt_splitHigh (hlo : v.vmStart ≤ addr) (ha : addr ≤ a) : (splitHigh v addr).viewAt a = v.viewAt a := by
  by_cases hf : v.vmType = .file
  · have hoff : ((v.vmOffset + (addr - v.vmStart)) % 2 ^ 64 + (a - addr)) % 2 ^ 64 =
        (v.vmOffset + (a - v.vmStart)) % 2 ^ 64 := by
      rw [Nat.mod_add_mod]
      congr 1
      omega
    simp only [Vma.viewAt, splitHigh, hf, if_true, Option.some.injEq, Prod.mk.injEq, AddrView.mk.injEq, hoff,
      true_and, decide_eq_decide]
    split_ifs <;> omega
  · simp [Vma.viewAt, splitHigh, hf]

/-- the file lengths of the two halves add up to that of the VMA -/
theorem fileLen_split (hwf : v.Wf) : (splitLow v addr).vmFileLen + (splitHigh v addr).vmFileLen = v.vmFileLen := by
  by_cases hf : v.vmType = .file
  · simp only [splitLow, splitHigh, hf, if_true]
    split_ifs <;> omega
  · simp [splitLow, splitHigh, hf, hwf.file_len_zero hf]

theorem wf_splitLow (hwf : v.Wf) (hhi : addr < v.vmEnd) : (splitLow v addr).Wf where
  end_lt := by simp only [vmEnd_splitLow]; have := hwf.end_lt; omega
  offset_lt := hwf.offset_lt
  file_len_le hf := by simp only [splitLow] at hf ⊢; simp only [hf, if_true]; omega
  file_len_zero hf := by simp only [splitLow] at hf ⊢; simp only [hf, if_false]; exact hwf.file_len_zero hf

theorem wf_splitHigh (hwf : v.Wf) (hlo : v.vmStart ≤ addr) : (splitHigh v addr).Wf where
  end_lt := hwf.end_lt
  offset_lt := by
    simp only [splitHigh]
    split_ifs
    · exact Nat.mod_lt _ (by positivity)
    · exact hwf.offset_lt
  file_len_le hf := by
    simp only [splitHigh] at hf ⊢
    have := hwf.file_len_le hf
    simp only [hf, if_true]
    split_ifs <;> omega
  file_len_zero hf := by simp only [splitHigh] at hf ⊢; simp only [hf, if_false]; exact hwf.file_len_zero hf

/-- the two halves give every address what the VMA gave it -/
theorem view_split (hlo : v.vmStart < addr) (hhi : addr < v.vmEnd) (R : List Vma) (a : Nat) :
    view (splitLow v addr :: splitHigh v addr :: R) a = view (v :: R) a := by
  rcases lt_or_ge a v.vmStart with ha | ha
  · rw [view_cons_of_not_holds (v := splitLow v addr) (by simp only [vmStart_splitLow]; omega),
      view_cons_of_not_holds (v := splitHigh v addr) (by simp only [vmStart_splitHigh]; omega),
      view_cons_of_not_holds (v := v) (by omega)]
  rcases lt_or_ge a addr with hb | hb
  · rw [view_cons_of_holds (v := splitLow v addr) ⟨ha, hb⟩, view_cons_of_holds (v := v) ⟨ha, by omega⟩,
      viewAt_splitLow hlo hb]
  rcases lt_or_ge a v.vmEnd with hc | hc
  · rw [view_cons_of_not_holds (v := splitLow v addr) (by simp only [vmEnd_splitLow]; omega),
      view_cons_of_holds (v := splitHigh v addr) ⟨hb, hc⟩, view_cons_of_holds (v := v) ⟨ha, hc⟩,
      viewAt_splitHigh hlo.le hb]
  · rw [view_cons_of_not_holds (v := splitLow v addr) (by simp only [vmEnd_splitLow]; omega),
      view_cons_of_not_holds (v := splitHigh v addr) (by simp only [vmEnd_splitHigh]; omega),
      view_cons_of_not_holds (v := v) (by omega)]

end Split

/-! ## The VMA a merge makes -/

/-- the checks of vma_merge that pass -/
structure Mergeable (v1 v2 : Vma) : Prop where
  adjacent : v1.vmEnd = v2.vmStart
  flags : v1.vmFlags = v2.vmFlags
  type : v1.vmType = v2.vmType
  node : v1.node = v2.node
  shm : v1.shm = v2.shm
  fileFlags : v1.vmFileFlags = v2.vmFileFlags
  offset : v1.vmType = .file → (v1.vmOffset + (v1.vmEnd - v1.vmStart)) % 2 ^ 64 = v2.vmOffset
  no_wrap : v1.vmType = .file → v1.vmFileLen ≤ (v1.vmFileLen + v2.vmFileLen) % 2 ^ 64
  within : v1.vmType = .file → (v1.vmFileLen + v2.vmFileLen) % 2 ^ 64 ≤ v2.vmEnd - v1.vmStart
  whole_first : v1.vmType = .file → v1.vmFileLen < v1.vmEnd - v1.vmStart → v2.vmFileLen = 0

section Merge

variable {v1 v2 : Vma} {a : Nat}

theorem vmaMergeable_iff : vmaMergeable v1 v2 = true ↔ Mergeable v1 v2 := by
  constructor
  · intro hm
    unfold vmaMergeable at hm
    dsimp only at hm
    split_ifs at hm with h1 h2 h3 h4 h5 h6 <;> simp only at hm
    · simp only [ne_eq, not_not, not_or, not_and, not_lt] at h1 h2 h3 h5 h6
      exact ⟨h1, h2.1, h2.2.1, h2.2.2.1, h2.2.2.2.1, h2.2.2.2.2, fun _ => h3 h4, fun _ => h5.1, fun _ => h5.2,
        fun _ hlt => h6 hlt⟩
    · simp only [ne_eq, not_not, not_or] at h1 h2
      exact ⟨h1, h2.1, h2.2.1, h2.2.2.1, h2.2.2.2.1, h2.2.2.2.2, fun h => absurd h h4, fun h => absurd h h4,
        fun h => absurd h h4, fun h => absurd h h4⟩
  · intro hm
    have hne : ¬(v1.vmFlags ≠ v2.vmFlags ∨ v1.vmType ≠ v2.vmType ∨ v1.node ≠ v2.node ∨ v1.shm ≠ v2.shm ∨
        v1.vmFileFlags ≠ v2.vmFileFlags) := by
      simp [hm.flags, hm.type, hm.node, hm.shm, hm.fileFlags]
    unfold vmaMergeable
    dsimp only
    rw [if_neg (not_not.2 hm.adjacent), if_neg hne]
    by_cases hf : v1.vmType = .file
    · have hw := hm.no_wrap hf
      have hi := hm.within hf
      rw [if_neg (fun h => h.2 (hm.offset hf)), if_pos hf, if_neg (by omega),
        if_neg (fun h => h.2 (hm.whole_first hf h.1))]
    · rw [if_neg (by simp [hf]), if_neg hf]

@[simp] theorem vmStart_mergedVma : (mergedVma v1 v2).vmStart = v1.vmStart := rfl
@[simp] theorem vmEnd_mergedVma : (mergedVma v1 v2).vmEnd = v2.vmEnd := rfl

/-- the file lengths of two VMAs that may merge add up without wrapping -/
theorem fileLen_mergedVma (hwf1 : v1.Wf) (hwf2 : v2.Wf) (hm : Mergeable v1 v2) (hf : v1.vmType = .file) :
    (v1.vmFileLen + v2.vmFileLen) % 2 ^ 64 = v1.vmFileLen + v2.vmFileLen := by
  have hw := hm.no_wrap hf
  have h1 := hwf1.file_len_le hf
  have h2 := hwf2.file_len_le (hm.type ▸ hf)
  have he1 := hwf1.end_lt
  have he2 := hwf2.end_lt
  rw [Nat.mod_eq_of_lt]
  by_contra hge
  rw [Nat.mod_eq_sub_mod (by omega), Nat.mod_eq_of_lt (by omega)] at hw
  omega

/-- below the join, the merged VMA gives an address what the first VMA gave it -/
theorem viewAt_mergedVma_left (hwf1 : v1.Wf) (hwf2 : v2.Wf) (hm : Mergeable v1 v2) (ha1 : v1.vmStart ≤ a)
    (ha : a < v1.vmEnd) : (mergedVma v1 v2).viewAt a = v1.viewAt a := by
  by_cases hf : v1.vmType = .file
  · have hsum := fileLen_mergedVma hwf1 hwf2 hm hf
    have hle := hwf1.file_len_le hf
    have hwhole := hm.whole_first hf
    simp only [Vma.viewAt, mergedVma, hf, if_true, hsum, Option.some.injEq, Prod.mk.injEq, AddrView.mk.injEq,
      true_and, decide_eq_decide]
    omega
  · simp [Vma.viewAt, mergedVma, hf]

/-- from the join on, the merged VMA gives an address what the second VMA gave it: the offset runs on, and the
file backs it as far as the second's file length goes -/
theorem viewAt_mergedVma_right (hwf1 : v1.Wf) (hwf2 : v2.Wf) (hm : Mergeable v1 v2)
    (hne1 : v1.vmStart < v1.vmEnd) (ha : v2.vmStart ≤ a) : (mergedVma v1 v2).viewAt a = v2.viewAt a := by
  have hadj := hm.adjacent
  by_cases hf : v1.vmType = .file
  · have hsum := fileLen_mergedVma hwf1 hwf2 hm hf
    have hle := hwf1.file_len_le hf
    have hwhole := hm.whole_first hf
    have hoff : (v1.vmOffset + (a - v1.vmStart)) % 2 ^ 64 = (v2.vmOffset + (a - v2.vmStart)) % 2 ^ 64 := by
      rw [← hm.offset hf, Nat.mod_add_mod]
      congr 1
      omega
    simp only [Vma.viewAt, mergedVma, hf, ← hm.type, if_true, hsum, hoff, hm.flags, hm.node, hm.shm, hm.fileFlags,
      Option.some.injEq, Prod.mk.injEq, AddrView.mk.injEq, true_and, decide_eq_decide]
    omega
  · simp [Vma.viewAt, mergedVma, hf, ← hm.type, hm.flags, hm.node, hm.shm, hm.fileFlags]

theorem vmaLen_mergedVma (hm : Mergeable v1 v2) (hne1 : v1.vmStart < v1.vmEnd) (hne2 : v2.vmStart < v2.vmEnd) :
    vmaLen (mergedVma v1 v2) = vmaLen v1 + vmaLen v2 := by
  have hadj := hm.adjacent
  simp only [vmaLen, vmStart_mergedVma, vmEnd_mergedVma]
  omega

theorem wf_mergedVma (hwf1 : v1.Wf) (hwf2 : v2.Wf) (hm : Mergeable v1 v2) : (mergedVma v1 v2).Wf where
  end_lt := hwf2.end_lt
  offset_lt := hwf1.offset_lt
  file_len_le hf := by
    simp only [mergedVma] at hf ⊢
    simp only [hf, if_true]
    exact hm.within hf
  file_len_zero hf := by
    simp only [mergedVma] at hf ⊢
    simp only [hf, if_false]
    exact hwf1.file_len_zero hf

/-- the merged VMA gives every address what the two gave it -/
theorem view_merged (hwf1 : v1.Wf) (hwf2 : v2.Wf) (hm : Mergeable v1 v2) (hne1 : v1.vmStart < v1.vmEnd)
    (hne2 : v2.vmStart < v2.vmEnd) (R : List Vma) (a : Nat) : view (mergedVma v1 v2 :: R) a = view (v1 :: v2 :: R) a := by
  have hadj := hm.adjacent
  rcases lt_or_ge a v1.vmStart with ha | ha
  · rw [view_cons_of_not_holds (v := mergedVma v1 v2) (by simp only [vmStart_mergedVma]; omega),
      view_cons_of_not_holds (v := v1) (by omega), view_cons_of_not_holds (v := v2) (by omega)]
  rcases lt_or_ge a v1.vmEnd with hb | hb
  · rw [view_cons_of_holds (v := mergedVma v1 v2) ⟨ha, by simp only [vmEnd_mergedVma]; omega⟩,
      view_cons_of_holds (v := v1) ⟨ha, hb⟩, viewAt_mergedVma_left hwf1 hwf2 hm ha hb]
  rcases lt_or_ge a v2.vmEnd with hc | hc
  · rw [view_cons_of_holds (v := mergedVma v1 v2) ⟨ha, hc⟩, view_cons_of_not_holds (v := v1) (by omega),
      view_cons_of_holds (v := v2) ⟨by omega, hc⟩, viewAt_mergedVma_right hwf1 hwf2 hm hne1 (by omega)]
  · rw [view_cons_of_not_holds (v := mergedVma v1 v2) (by simp only [vmEnd_mergedVma]; omega),
      view_cons_of_not_holds (v := v1) (by omega), view_cons_of_not_holds (v := v2) (by omega)]

end Merge

/-! ## The merge of the two halves of a split -/

section Halves

variable {v : Vma} {addr : Nat}

/-- the two halves of a split pass the checks of vma_merge -/
theorem mergeable_split (hwf : v.Wf) : Mergeable (splitLow v addr) (splitHigh v addr) where
  adjacent := rfl
  flags := rfl
  type := rfl
  node := rfl
  shm := rfl
  fileFlags := rfl
  offset hf := by
    change v.vmType = .file at hf
    simp [splitLow, splitHigh, hf]
  no_wrap hf := by
    change v.vmType = .file at hf
    rw [fileLen_split hwf, Nat.mod_eq_of_lt hwf.fileLen_lt]
    simp only [splitLow, hf, if_true]
    omega
  within hf := by
    change v.vmType = .file at hf
    rw [fileLen_split hwf, Nat.mod_eq_of_lt hwf.fileLen_lt, vmEnd_splitHigh, vmStart_splitLow]
    exact hwf.file_len_le hf
  whole_first hf hlt := by
    change v.vmType = .file at hf
    simp only [splitLow, splitHigh, hf, if_true] at hlt ⊢
    split_ifs <;> omega

/-- the merge of the two halves of a split is the VMA -/
theorem mergedVma_split (hwf : v.Wf) : mergedVma (splitLow v addr) (splitHigh v addr) = v := by
  have hsum : (splitLow v addr).vmFileLen + (splitHigh v addr).vmFileLen = v.vmFileLen := fileLen_split hwf
  have hlen : (mergedVma (splitLow v addr) (splitHigh v addr)).vmFileLen = v.vmFileLen := by
    show (if v.vmType = .file then ((splitLow v addr).vmFileLen + (splitHigh v addr).vmFileLen) % 2 ^ 64
      else (splitLow v addr).vmFileLen) = v.vmFileLen
    by_cases hf : v.vmType = .file
    · rw [if_pos hf, hsum, Nat.mod_eq_of_lt hwf.fileLen_lt]
    · rw [if_neg hf]
      simp [splitLow, hf]
  cases v
  simp only [mergedVma, splitLow, splitHigh] at hlen ⊢
  rw [hlen]

end Halves

/-! ## The manager and what it stands for -/

/-- the VMAs of the tree, in order -/
def vmaList (mgr : VmaManager) (T : RBTree Nat) : List Vma := T.ids.map mgr.vmas

/-- what the address `a` sees in the manager -/
def addrView (mgr : VmaManager) (T : RBTree Nat) (a : Nat) : Option AddrView := view (vmaList mgr T) a

/-- the invariant of the VMA manager -/
structure VmaOk (mgr : VmaManager) (T : RBTree Nat) : Prop where
  tree : TreeOk mgr T
  wf : ∀ v ∈ vmaList mgr T, v.Wf
  used : mgr.vmUsed = ((vmaList mgr T).map vmaLen).sum

/-- a manager with one anonymous VMA `[3, 7)` at node 1, the black root of its tree -/
def oneVma : VmaManager where
  vmaTree :=
    { nodes := fun i => if i = 1 then ⟨none, .black, none, none⟩ else unlinkedNode
      data := fun _ => ()
      root := some 1 }
  vmas i := if i = 1 then { vmaZero with vmStart := 3, vmEnd := 7 } else vmaZero
  vmUsed := 4

theorem oneVma_ok : VmaOk oneVma (.node .leaf .black 1 .leaf) where
  tree :=
    { linked := ⟨rfl, by simp [oneVma, pathTop], by decide⟩
      rb := ⟨1, .black .leaf .leaf⟩
      sorted := by simp
      nonempty := by simp [oneVma] }
  wf := by
    simp only [vmaList, ids_node, ids_leaf, List.nil_append, List.map_cons, List.map_nil, List.mem_singleton,
      forall_eq]
    exact ⟨by decide, by decide, fun h => (by cases h), fun _ => rfl⟩
  used := rfl

/-- the tree of `oneVma` over one page-aligned anonymous read and write VMA `[0x1000, 0x4000)` -/
def pageVma : VmaManager :=
  { oneVma with
    vmas := fun i => if i = 1 then { vmaZero with vmStart := 0x1000, vmEnd := 0x4000, vmFlags := 3 } else vmaZero
    vmUsed := 0x3000 }

theorem pageVma_ok : VmaOk pageVma (.node .leaf .black 1 .leaf) where
  tree :=
    { linked := oneVma_ok.tree.linked
      rb := ⟨1, .black .leaf .leaf⟩
      sorted := by simp
      nonempty := by simp [pageVma] }
  wf := by
    simp only [vmaList, ids_node, ids_leaf, List.nil_append, List.map_cons, List.map_nil, List.mem_singleton,
      forall_eq]
    exact ⟨by decide, by decide, fun h => (by cases h), fun _ => rfl⟩
  used := rfl

section Manager

variable {mgr mgr' : VmaManager} {T T' : RBTree Nat}

theorem TreeOk.apart_vmaList (hok : TreeOk mgr T) : (vmaList mgr T).Pairwise (Intervals.Apart Vma.vmStart Vma.vmEnd) :=
  List.pairwise_map.2 hok.apart

/-- the view of a manager, through the VMAs of its tree in any order -/
theorem addrView_eq_view (hok : TreeOk mgr T) {L : List Vma} (hp : (vmaList mgr T).Perm L) (a : Nat) :
    addrView mgr T a = view L a :=
  Intervals.lookup_perm hok.apart_vmaList hp

/-- the VMAs of the tree without one of them -/
theorem vmaList_perm_erase (hx : x ∈ T.ids) :
    (vmaList mgr T).Perm (mgr.vmas x :: (T.ids.erase x).map mgr.vmas) := by
  exact (List.perm_cons_erase hx).map mgr.vmas

end Manager

/-! ## The walks on a manager that keeps the invariant -/

section Walks

variable {mgr : VmaManager} {T : RBTree Nat} {fuel : Nat}

/-- vma_find gives the VMA that holds the address, if there is one -/
theorem vmaFind_eq (hok : TreeOk mgr T) (hfuel : T.ids.length ≤ fuel) (addr : Nat) :
    vmaFind fuel mgr addr =
      some (T.ids.find? fun x => (mgr.vmas x).vmStart ≤ addr ∧ addr < (mgr.vmas x).vmEnd) := by
  have hroot : mgr.vmaTree.root = T.top := hok.linked.path
  have huniq : ∀ x ∈ T.ids, ∀ y ∈ T.ids, findDir addr (mgr.vmas x) = .eq → findDir addr (mgr.vmas y) = .eq →
      x = y := fun x hx y hy hdx hdy =>
    Intervals.eq_of_holds hok.apart hx hy ((findDir_eq_eq).1 hdx) ((findDir_eq_eq).1 hdy)
  rw [vmaFind, hroot, vmaSearchLoop_eq _ hok.linked.tree hfuel, search_eq_find (hok.ordered_findDir addr) huniq]
  simp

/-- vma_find_intersection gives a VMA that meets the range by its comparisons, if there is one -/
theorem vmaFindIntersection_spec (hok : TreeOk mgr T) (hfuel : T.ids.length ≤ fuel) (start «end» : Nat) :
    ∃ r, vmaFindIntersection fuel mgr start «end» = some r ∧
      (r = none ↔ ∀ x ∈ T.ids, ¬((mgr.vmas x).vmStart < «end» ∧ start < (mgr.vmas x).vmEnd)) ∧
      ∀ x, r = some x → x ∈ T.ids ∧ (mgr.vmas x).vmStart < «end» ∧ start < (mgr.vmas x).vmEnd := by
  have hroot : mgr.vmaTree.root = T.top := hok.linked.path
  refine ⟨_, by rw [vmaFindIntersection, hroot, vmaSearchLoop_eq _ hok.linked.tree hfuel], ?_, fun x hx => ?_⟩
  · rw [search_eq_none_iff (hok.ordered_intersectionDir start «end»)]
    simp
  · obtain ⟨hxT, hdx⟩ := search_eq_some hx
    exact ⟨hxT, (intersectionDir_eq_eq).1 hdx⟩

/-- vma_prev gives the VMA before a VMA of the tree, and vma_next the one after it -/
theorem vmaPrev_vmaNext_eq (hok : TreeOk mgr T) (hfuel : T.ids.length ≤ fuel) {x : Nat} {A B : List Nat}
    (hids : T.ids = A ++ x :: B) : vmaPrev fuel mgr x = some A.getLast? ∧ vmaNext fuel mgr x = some B.head? := by
  have hroot : mgr.vmaTree.root = T.top := hok.linked.path
  have hx : x ∈ T.ids := by simp [hids]
  have hxn := hok.nonempty x hx
  have hsorted := hok.sorted
  rw [hids, List.pairwise_append, List.pairwise_cons] at hsorted
  obtain ⟨-, ⟨hxB, -⟩, hAxB⟩ := hsorted
  constructor
  · have hfilter : T.ids.filter (fun y => decide ((mgr.vmas y).vmStart < (mgr.vmas x).vmStart)) = A := by
      rw [hids, List.filter_append, List.filter_eq_self.2, List.filter_eq_nil_iff.2, List.append_nil]
      · intro y hy
        rcases List.mem_cons.1 hy with rfl | hy
        · simp
        · have := hxB y hy
          simp only [decide_eq_true_eq]
          omega
      · intro y hy
        have hyn := hok.nonempty y (by simp [hids, hy])
        have := hAxB y hy x (by simp)
        simp only [decide_eq_true_eq]
        omega
    rw [vmaPrev, hroot, vmaPrevLoop_eq _ hok.linked.tree _ hfuel, lastBelow_eq (hok.below_prefix _), hfilter]
    simp
  · have hfind : T.ids.find? (fun y => decide ((mgr.vmas x).vmStart < (mgr.vmas y).vmStart)) = B.head? := by
      rw [hids, List.find?_append, List.find?_eq_none.2, Option.none_or, List.find?_cons_of_neg (by simp)]
      · cases B with
        | nil => rfl
        | cons b B =>
          have := hxB b (by simp)
          rw [List.find?_cons_of_pos (by simp only [decide_eq_true_eq]; omega)]
          rfl
      · intro y hy
        have hyn := hok.nonempty y (by simp [hids, hy])
        have := hAxB y hy x (by simp)
        simp only [decide_eq_true_eq]
        omega
    rw [vmaNext, hroot, vmaNextLoop_eq _ hok.linked.tree _ hfuel, firstAbove_eq (hok.above_suffix _), hfind]
    simp

end Walks

/-! ## vma_split -/

section SplitSpec

variable {mgr : VmaManager} {T : RBTree Nat} {v addr p : Nat}

/-- vma_split at an address strictly inside a VMA of the tree, with a node outside the tree for the new VMA: the VMA
keeps its low half, the new one takes the high half, and both are linked in -/
theorem vmaSplit_spec (fuel : Nat) (hok : VmaOk mgr T) (hv : v ∈ T.ids) (hlo : (mgr.vmas v).vmStart < addr)
    (hhi : addr < (mgr.vmas v).vmEnd) (hp : p ∉ T.ids) (hfuel : 2 * T.ids.length < fuel) :
    ∃ mgr' T', vmaSplit fuel mgr v addr (some p) = some (0, mgr') ∧ VmaOk mgr' T' ∧ T'.ids.Perm (p :: T.ids) ∧
      mgr'.vmas = Function.update (Function.update mgr.vmas p (splitHigh (mgr.vmas v) addr)) v
        (splitLow (mgr.vmas v) addr) ∧ ∀ a, addrView mgr' T' a = addrView mgr T a := by
  have hpv : p ≠ v := fun h => hp (h ▸ hv)
  have hnd := hok.tree.linked.nodup_tree
  have hok1 : TreeOk ((((mgr.setVma p vmaZero).resetNode p).setVma p (splitHigh (mgr.vmas v) addr)).setVma v
      { mgr.vmas v with vmFileLen := (splitLow (mgr.vmas v) addr).vmFileLen }) T :=
    (((hok.tree.setVma_of_not_mem hp _).resetNode hp).setVma_of_not_mem hp _).setVma_range
      (by simp [setVma, resetNode, Function.update_of_ne hpv.symm])
      (by simp [setVma, resetNode, Function.update_of_ne hpv.symm])
  obtain ⟨m3, T3, herase, hv3, hu3, hok3, hids3⟩ := eraseVma_spec fuel hok1 hv hfuel
  have hvT3 : v ∉ T3.ids := by
    rw [hids3]
    exact hnd.not_mem_erase
  have hpT3 : p ∉ T3.ids := by
    rw [hids3]
    exact fun h => hp (List.mem_of_mem_erase h)
  have hok4 : TreeOk { m3 with vmUsed := m3.vmUsed - ((mgr.vmas v).vmEnd - (mgr.vmas v).vmStart) } T3 :=
    hok3.congr rfl fun _ _ => ⟨rfl, rfl⟩
  have hok5 := (hok4.resetNode hvT3).setVma_of_not_mem hvT3 { m3.vmas v with vmEnd := addr }
  have hvm5 : ((({ m3 with vmUsed := m3.vmUsed - ((mgr.vmas v).vmEnd - (mgr.vmas v).vmStart) }).resetNode v).setVma
      v { m3.vmas v with vmEnd := addr }).vmas = Function.update (Function.update mgr.vmas p
        (splitHigh (mgr.vmas v) addr)) v (splitLow (mgr.vmas v) addr) := by
    funext y
    by_cases hyv : y = v
    · subst hyv
      simp [setVma, resetNode, hv3]
      rfl
    · simp [setVma, resetNode, hv3, Function.update_of_ne hyv]
  have hother : ∀ y ∈ T3.ids, y ≠ v ∧ y ≠ p ∧ Disjoint (mgr.vmas y) (mgr.vmas v) := by
    intro y hy
    have hyv : y ≠ v := fun h => hvT3 (h ▸ hy)
    rw [hids3] at hy
    exact ⟨hyv, fun h => hpT3 (h ▸ (hids3 ▸ hy)), hok.tree.disjoint (List.mem_of_mem_erase hy) hv hyv⟩
  have hlen3 : T3.ids.length + 1 = T.ids.length := by
    rw [hids3, List.length_erase_of_mem hv]
    have := List.length_pos_of_mem hv
    omega
  obtain ⟨m6, T4, hins1, hv6, hu6, hok6, hperm4⟩ := vmaInsert_spec fuel hok5 hvT3
    (by rw [hvm5]; simpa using hlo)
    (fun y hy => by
      obtain ⟨hyv, hyp, hdis⟩ := hother y hy
      rw [hvm5, Function.update_of_ne hyv, Function.update_of_ne hyp, Function.update_self]
      unfold Disjoint Intervals.Apart at hdis ⊢
      simp only [vmStart_splitLow, vmEnd_splitLow]
      omega)
    (by omega)
  rw [hvm5] at hv6
  have hpT4 : p ∉ T4.ids := fun h => by
    rcases List.mem_cons.1 (hperm4.mem_iff.1 h) with h | h
    exacts [hpv h, hpT3 h]
  obtain ⟨m7, T5, hins2, hv7, hu7, hok7, hperm5⟩ := vmaInsert_spec fuel hok6 hpT4
    (by rw [hv6, Function.update_of_ne hpv, Function.update_self]; simpa using hhi)
    (fun y hy => by
      rw [hv6, Function.update_of_ne hpv, Function.update_self]
      rcases List.mem_cons.1 (hperm4.mem_iff.1 hy) with rfl | hy
      · rw [Function.update_self]
        exact Or.inl le_rfl
      · obtain ⟨hyv, hyp, hdis⟩ := hother y hy
        rw [Function.update_of_ne hyv, Function.update_of_ne hyp]
        unfold Disjoint Intervals.Apart at hdis ⊢
        simp only [vmStart_splitHigh, vmEnd_splitHigh]
        omega)
    (by rw [hperm4.length_eq]; simp; omega)
  have hvm7 := hv7.trans hv6
  have hp7 : m7.vmas p = splitHigh (mgr.vmas v) addr := by
    rw [hvm7, Function.update_of_ne hpv, Function.update_self]
  have hv7' : m7.vmas v = splitLow (mgr.vmas v) addr := by rw [hvm7, Function.update_self]
  have hids : T5.ids.Perm (p :: v :: T.ids.erase v) := hperm5.trans ((hperm4.cons p).trans (by rw [hids3]))
  have hrest : (T.ids.erase v).map m7.vmas = (T.ids.erase v).map mgr.vmas := by
    refine List.map_congr_left fun y hy => ?_
    obtain ⟨hyv, hyp, -⟩ := hother y (hids3 ▸ hy)
    rw [hvm7, Function.update_of_ne hyv, Function.update_of_ne hyp]
  have hlist : (vmaList m7 T5).Perm
      (splitLow (mgr.vmas v) addr :: splitHigh (mgr.vmas v) addr :: (T.ids.erase v).map mgr.vmas) := by
    have := hids.map m7.vmas
    rw [List.map_cons, List.map_cons, hp7, hv7', hrest] at this
    exact this.trans (.swap _ _ _)
  have hold : (vmaList mgr T).Perm _ := vmaList_perm_erase hv
  have hwfv : (mgr.vmas v).Wf := hok.wf _ (hold.mem_iff.2 (List.mem_cons_self ..))
  refine ⟨m7, T5, ?_, ⟨hok7, fun w hw => ?_, ?_⟩, hids.trans (.cons p (List.perm_cons_erase hv).symm),
    hvm7, fun a => ?_⟩
  · simp only [vmaSplit, vmaAlloc, if_neg (show ¬(addr ≤ (mgr.vmas v).vmStart ∨ addr ≥ (mgr.vmas v).vmEnd) by omega),
      herase, Option.bind_eq_bind, Option.bind_some, hins1, hins2, ne_eq, not_true_eq_false, if_false]
    rfl
  · rcases List.mem_cons.1 (hlist.mem_iff.1 hw) with rfl | hw
    · exact wf_splitLow hwfv hhi
    rcases List.mem_cons.1 hw with rfl | hw
    · exact wf_splitHigh hwfv hlo.le
    · exact hok.wf w (hold.mem_iff.2 (List.mem_cons_of_mem _ hw))
  · have hsum := (hlist.map vmaLen).sum_eq
    have hsum0 := (hold.map vmaLen).sum_eq
    simp only [List.map_cons, List.sum_cons] at hsum hsum0
    have hlenv : vmaLen (mgr.vmas v) = (mgr.vmas v).vmEnd - (mgr.vmas v).vmStart := rfl
    have hp6 : m6.vmas p = splitHigh (mgr.vmas v) addr := by
      rw [hv6, Function.update_of_ne hpv, Function.update_self]
    rw [hvm5, Function.update_self] at hu6
    simp only [setVma, resetNode] at hu6 hu3
    rw [hu7, hu6, hu3, hp6, hsum]
    have := hok.used
    omega
  · rw [addrView_eq_view hok7 hlist, view_split hlo hhi, ← addrView_eq_view hok.tree hold]

end SplitSpec

/-! ## vma_merge -/

section MergeSpec

variable {mgr : VmaManager} {T : RBTree Nat} {v1 v2 : Nat}

/-- vma_merge of two VMAs that do not pass its checks fails and changes nothing -/
theorem vmaMerge_of_not_mergeable (fuel : Nat) (hm : vmaMergeable (mgr.vmas v1) (mgr.vmas v2) = false) :
    vmaMerge fuel mgr v1 v2 = some (-1, mgr) := by
  simp [vmaMerge, hm]

/-- vma_merge of two VMAs of the tree that pass its checks: the second leaves the tree and the first grows over it -/
theorem vmaMerge_spec (fuel : Nat) (hok : VmaOk mgr T) (h1 : v1 ∈ T.ids) (h2 : v2 ∈ T.ids)
    (hm : Mergeable (mgr.vmas v1) (mgr.vmas v2)) (hfuel : 2 * T.ids.length < fuel) :
    ∃ mgr' T', vmaMerge fuel mgr v1 v2 = some (0, mgr') ∧ VmaOk mgr' T' ∧ T'.ids.Perm (T.ids.erase v2) ∧
      mgr'.vmas = Function.update mgr.vmas v1 (mergedVma (mgr.vmas v1) (mgr.vmas v2)) ∧
      ∀ a, addrView mgr' T' a = addrView mgr T a := by
  have hnd := hok.tree.linked.nodup_tree
  have hne1 := hok.tree.nonempty v1 h1
  have hne2 := hok.tree.nonempty v2 h2
  have hadj := hm.adjacent
  have h12 : v1 ≠ v2 := fun h => by subst h; omega
  have hokA : TreeOk { mgr with vmUsed := mgr.vmUsed - vmaLen (mgr.vmas v2) } T :=
    hok.tree.congr rfl fun _ _ => ⟨rfl, rfl⟩
  obtain ⟨m2, T2, herase2, hv2, hu2, hok2, hids2⟩ := eraseVma_spec fuel hokA h2 hfuel
  have h1T2 : v1 ∈ T2.ids := by
    rw [hids2]
    exact (List.mem_erase_of_ne h12).2 h1
  have hlen2 : T2.ids.length + 1 = T.ids.length := by
    rw [hids2, List.length_erase_of_mem h2]
    have := List.length_pos_of_mem h2
    omega
  have hokB : TreeOk { m2 with vmUsed := m2.vmUsed - vmaLen (mgr.vmas v1) } T2 :=
    hok2.congr rfl fun _ _ => ⟨rfl, rfl⟩
  obtain ⟨m4, T4, herase1, hv4, hu4, hok4, hids4⟩ := eraseVma_spec fuel hokB h1T2 (by omega)
  have h1T4 : v1 ∉ T4.ids := by
    rw [hids4]
    exact (hids2 ▸ hnd.erase v2).not_mem_erase
  have hok5 := (hok4.resetNode h1T4).setVma_of_not_mem h1T4 (mergedVma (mgr.vmas v1) (mgr.vmas v2))
  have hvm4 : m4.vmas = mgr.vmas := hv4.trans hv2
  have hother : ∀ y ∈ T4.ids, y ≠ v1 ∧ y ≠ v2 ∧ y ∈ T.ids := by
    intro y hy
    rw [hids4] at hy
    have hy2 := List.mem_of_mem_erase hy
    rw [hids2] at hy2
    exact ⟨fun h => h1T4 (hids4 ▸ h ▸ hy), fun h => (hnd.not_mem_erase (a := v2)) (h ▸ hy2),
      List.mem_of_mem_erase hy2⟩
  obtain ⟨m6, T6, hins, hv6, hu6, hok6, hperm6⟩ := vmaInsert_spec fuel hok5 h1T4
    (by simp only [setVma, resetNode, Function.update_self, vmStart_mergedVma, vmEnd_mergedVma]; omega)
    (fun y hy => by
      obtain ⟨hy1, hy2, hyT⟩ := hother y hy
      have hd1 := hok.tree.disjoint hyT h1 hy1
      have hd2 := hok.tree.disjoint hyT h2 hy2
      have hyn := hok.tree.nonempty y hyT
      simp only [setVma, resetNode, Function.update_self, Function.update_of_ne hy1, hvm4]
      unfold Disjoint Intervals.Apart at hd1 hd2 ⊢
      simp only [vmStart_mergedVma, vmEnd_mergedVma]
      omega)
    (by rw [hids4, List.length_erase_of_mem h1T2]; omega)
  have hvm6 : m6.vmas = Function.update mgr.vmas v1 (mergedVma (mgr.vmas v1) (mgr.vmas v2)) := by
    rw [hv6]
    simp only [setVma, resetNode, hvm4]
  have hrest : ((T.ids.erase v2).erase v1).map m6.vmas = ((T.ids.erase v2).erase v1).map mgr.vmas := by
    refine List.map_congr_left fun y hy => ?_
    obtain ⟨hy1, -, -⟩ := hother y (by rw [hids4, hids2]; exact hy)
    rw [hvm6, Function.update_of_ne hy1]
  have hids : T6.ids.Perm (v1 :: (T.ids.erase v2).erase v1) := by
    rw [← hids2, ← hids4]
    exact hperm6
  have hlist : (vmaList m6 T6).Perm (mergedVma (mgr.vmas v1) (mgr.vmas v2) :: ((T.ids.erase v2).erase v1).map mgr.vmas) := by
    have hv1 : m6.vmas v1 = mergedVma (mgr.vmas v1) (mgr.vmas v2) := by rw [hvm6, Function.update_self]
    have := hids.map m6.vmas
    rw [List.map_cons, hrest, hv1] at this
    exact this
  have hold : (vmaList mgr T).Perm (mgr.vmas v1 :: mgr.vmas v2 :: ((T.ids.erase v2).erase v1).map mgr.vmas) := by
    have h1' : v1 ∈ T.ids.erase v2 := (List.mem_erase_of_ne h12).2 h1
    have := (List.perm_cons_erase h2).trans (.cons v2 (List.perm_cons_erase h1'))
    exact (this.map mgr.vmas).trans (.swap _ _ _)
  have hwf1 : (mgr.vmas v1).Wf := hok.wf _ (hold.mem_iff.2 (List.mem_cons_self ..))
  have hwf2 : (mgr.vmas v2).Wf := hok.wf _ (hold.mem_iff.2 (List.mem_cons_of_mem _ (List.mem_cons_self ..)))
  refine ⟨m6, T6, ?_, ⟨hok6, fun w hw => ?_, ?_⟩, hids.trans ?_, hvm6, fun a => ?_⟩
  · have hmerge : vmaMergeable (mgr.vmas v1) (mgr.vmas v2) = true := (vmaMergeable_iff).2 hm
    simp only [vmaMerge, hmerge, Bool.not_true, Bool.false_eq_true, if_false, herase2, Option.bind_eq_bind,
      Option.bind_some, herase1, hins, ne_eq, not_true_eq_false]
    rfl
  · rcases List.mem_cons.1 (hlist.mem_iff.1 hw) with rfl | hw
    · exact wf_mergedVma hwf1 hwf2 hm
    · exact hok.wf w (hold.mem_iff.2 (List.mem_cons_of_mem _ (List.mem_cons_of_mem _ hw)))
  · have hsum := (hlist.map vmaLen).sum_eq
    have hsum0 := (hold.map vmaLen).sum_eq
    simp only [List.map_cons, List.sum_cons] at hsum hsum0
    have hlen := vmaLen_mergedVma hm hne1 hne2
    simp only [setVma, resetNode, Function.update_self] at hu6
    rw [hu6, hu4, hu2, hsum, hlen]
    dsimp only
    have := hok.used
    omega
  · exact (List.perm_cons_erase ((List.mem_erase_of_ne h12).2 h1)).symm
  · rw [addrView_eq_view hok6 hlist, view_merged hwf1 hwf2 hm hne1 hne2, ← addrView_eq_view hok.tree hold]

end MergeSpec

/-! ## vma_split and vma_merge against the view -/

section SplitMerge

variable {mgr : VmaManager} {T : RBTree Nat}

/-- vma_split and vma_merge against what the manager stands for. A split at an address strictly inside a VMA of
the tree, with a node outside the tree for the new VMA, returns 0: the VMA keeps `[vm_start, addr)` and the new one
takes `[addr, vm_end)`, each gives the addresses of its half what the VMA gave them, the file length is shared
between them, and no address sees a change; a merge of the two halves then returns 0 and gives the VMA back. A merge
of two VMAs of the tree either returns 0, when the first ended where the second began, with one VMA over both that
gives each address what the one that held it gave it, or returns -1 and changes nothing. -/
theorem vma_split_merge (fuel : Nat) (hok : VmaOk mgr T) (hfuel : 2 * T.ids.length + 2 < fuel) :
    (∀ v addr p, v ∈ T.ids → (mgr.vmas v).vmStart < addr → addr < (mgr.vmas v).vmEnd → p ∉ T.ids →
      ∃ mgr' T', vmaSplit fuel mgr v addr (some p) = some (0, mgr') ∧ VmaOk mgr' T' ∧ T'.ids.Perm (p :: T.ids) ∧
        (mgr'.vmas v).vmStart = (mgr.vmas v).vmStart ∧ (mgr'.vmas v).vmEnd = addr ∧
        (mgr'.vmas p).vmStart = addr ∧ (mgr'.vmas p).vmEnd = (mgr.vmas v).vmEnd ∧
        (∀ a, a < addr → (mgr'.vmas v).viewAt a = (mgr.vmas v).viewAt a) ∧
        (∀ a, addr ≤ a → (mgr'.vmas p).viewAt a = (mgr.vmas v).viewAt a) ∧
        (mgr'.vmas v).vmFileLen + (mgr'.vmas p).vmFileLen = (mgr.vmas v).vmFileLen ∧
        (∀ a, addrView mgr' T' a = addrView mgr T a) ∧
        ∃ mgr'' T'', vmaMerge fuel mgr' v p = some (0, mgr'') ∧ VmaOk mgr'' T'' ∧ T''.ids.Perm T.ids ∧
          mgr''.vmas v = mgr.vmas v ∧ ∀ a, addrView mgr'' T'' a = addrView mgr T a) ∧
    ∀ v1 v2, v1 ∈ T.ids → v2 ∈ T.ids → ∃ r mgr', vmaMerge fuel mgr v1 v2 = some (r, mgr') ∧
      ((r = 0 ∧ (mgr.vmas v1).vmEnd = (mgr.vmas v2).vmStart ∧
          (mgr'.vmas v1).vmStart = (mgr.vmas v1).vmStart ∧ (mgr'.vmas v1).vmEnd = (mgr.vmas v2).vmEnd ∧
          (∀ a, (mgr.vmas v1).vmStart ≤ a → a < (mgr.vmas v1).vmEnd →
            (mgr'.vmas v1).viewAt a = (mgr.vmas v1).viewAt a) ∧
          (∀ a, (mgr.vmas v2).vmStart ≤ a → a < (mgr.vmas v2).vmEnd →
            (mgr'.vmas v1).viewAt a = (mgr.vmas v2).viewAt a) ∧
          ∃ T', VmaOk mgr' T' ∧ ∀ a, addrView mgr' T' a = addrView mgr T a) ∨
        (r = -1 ∧ mgr' = mgr)) := by
  refine ⟨fun v addr p hv hlo hhi hp => ?_, fun v1 v2 h1 h2 => ?_⟩
  · obtain ⟨mgr', T', hsplit, hok', hids', hvm', hview'⟩ := vmaSplit_spec fuel hok hv hlo hhi hp (by omega)
    have hpv : p ≠ v := fun h => hp (h ▸ hv)
    have hlow : mgr'.vmas v = splitLow (mgr.vmas v) addr := by rw [hvm', Function.update_self]
    have hhigh : mgr'.vmas p = splitHigh (mgr.vmas v) addr := by
      rw [hvm', Function.update_of_ne hpv, Function.update_self]
    have hwf : (mgr.vmas v).Wf := hok.wf _ (List.mem_map_of_mem hv)
    have hv' : v ∈ T'.ids := hids'.mem_iff.2 (List.mem_cons_of_mem _ hv)
    have hp' : p ∈ T'.ids := hids'.mem_iff.2 (List.mem_cons_self ..)
    obtain ⟨mgr'', T'', hmerge, hok'', hids'', hvm'', hview''⟩ := vmaMerge_spec fuel hok' hv' hp'
      (by rw [hlow, hhigh]; exact mergeable_split hwf) (by rw [hids'.length_eq, List.length_cons]; omega)
    have hback : T''.ids.Perm T.ids := by
      have := hids''.trans (hids'.erase p)
      rwa [List.erase_cons_head] at this
    refine ⟨mgr', T', hsplit, hok', hids', by rw [hlow]; rfl, by rw [hlow]; rfl, by rw [hhigh]; rfl,
      by rw [hhigh]; rfl, fun a ha => by rw [hlow, viewAt_splitLow hlo ha],
      fun a ha => by rw [hhigh, viewAt_splitHigh hlo.le ha], by rw [hlow, hhigh, fileLen_split hwf], hview',
      mgr'', T'', hmerge, hok'', hback, ?_, fun a => (hview'' a).trans (hview' a)⟩
    rw [hvm'', Function.update_self, hlow, hhigh, mergedVma_split hwf]
  · by_cases hm : vmaMergeable (mgr.vmas v1) (mgr.vmas v2) = true
    · have hm' := vmaMergeable_iff.1 hm
      obtain ⟨mgr', T', hmerge, hok', -, hvm', hview'⟩ := vmaMerge_spec fuel hok h1 h2 hm' (by omega)
      have hwf1 : (mgr.vmas v1).Wf := hok.wf _ (List.mem_map_of_mem h1)
      have hwf2 : (mgr.vmas v2).Wf := hok.wf _ (List.mem_map_of_mem h2)
      have hne1 := hok.tree.nonempty v1 h1
      have hw : mgr'.vmas v1 = mergedVma (mgr.vmas v1) (mgr.vmas v2) := by rw [hvm', Function.update_self]
      refine ⟨0, mgr', hmerge, .inl ⟨rfl, hm'.adjacent, by rw [hw]; rfl, by rw [hw]; rfl, fun a ha1 ha => ?_,
        fun a ha2 _ => ?_, T', hok', hview'⟩⟩
      · rw [hw, viewAt_mergedVma_left hwf1 hwf2 hm' ha1 ha]
      · rw [hw, viewAt_mergedVma_right hwf1 hwf2 hm' hne1 ha2]
    · exact ⟨-1, mgr, vmaMerge_of_not_mergeable fuel (by simpa using hm), .inr ⟨rfl, rfl⟩⟩

/-- the split of `[3, 7)` at 5, with node 2 for the new VMA, and the merge of the halves back -/
theorem vma_split_merge_oneVma :
    ∃ mgr' T', vmaSplit 5 oneVma 1 5 (some 2) = some (0, mgr') ∧ VmaOk mgr' T' ∧
      (mgr'.vmas 1).vmEnd = 5 ∧ (mgr'.vmas 2).vmStart = 5 ∧
      ∃ mgr'' T'', vmaMerge 5 mgr' 1 2 = some (0, mgr'') ∧ VmaOk mgr'' T'' ∧ mgr''.vmas 1 = oneVma.vmas 1 := by
  obtain ⟨mgr', T', hsplit, hok', -, -, hend, hstart, -, -, -, -, -, mgr'', T'', hmerge, hok'', -, hv, -⟩ :=
    (vma_split_merge 5 oneVma_ok (by decide)).1 1 5 2 (by decide) (by decide) (by decide) (by decide)
  exact ⟨mgr', T', hsplit, hok', hend, hstart, mgr'', T'', hmerge, hok'', hv⟩

end SplitMerge

end Naos.Vmas
