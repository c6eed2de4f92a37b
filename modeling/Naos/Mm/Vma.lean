/-
The VMA manager of src/kernel/src/mm/vma.{h,c}: the virtual memory areas of an address space in a red-black tree
keyed by their start address.

A `vma_t` lives in memory at its address, which is also the address of its embedded `rb_node_t`. The model keeps the
two parts apart: `vmaTree` is the rbtree heap of the `rb_node`s (the rbtree code of libs/rbtree.c reads and writes
only those), and `vmas` maps an address to the other fields of the `vma_t` there. A `VmaManager` holds both and
`vm_used`.

`vm_offset` is an `int64_t` that the code adds `unsigned long`s to, so it is kept as its 64-bit pattern, with the
additions taken modulo 2^64; `vm_file_len` is a `uint64_t` and its sum in vma_merge is taken modulo 2^64 as well.
Addresses, lengths and `vm_used` are `Nat`: in a manager that keeps its invariant none of their arithmetic wraps.
vma_alloc's malloc is the allocator's answer, `fresh` (NULL is `none`). A NULL `mgr`, `vma` or `vma_ptr` argument is
not modelled: the model's calls take them. The tree walks run for at most `fuel` steps, like those of the rbtree
model, and return `none` when they have not ended by then.

The three walks that stop at a VMA (vma_is_linked, vma_find, vma_find_intersection) are one loop, `vmaSearchLoop`,
with the comparisons of each as its direction; vma_insert's walk makes the comparisons of vma_find_intersection.

Functions: `vmaLen`, `vmaPrev`, `vmaNext`, `vmaIsLinked`, `vmaAlloc`, `vmaFind`, `vmaFindIntersection`,
`vmaInsert`, `vmaRemove`, `vmaSplit`, `vmaMerge`, `vmaTryMergeAround`, `vmaUnmapRange`.
-/
import Naos.Libs.RbTree

namespace Naos.Vmas

open RedBlack Naos.RbTree RbHeap

/-- vma_type_t -/
inductive VmaType where
  | anon
  | file
  | shm
  deriving DecidableEq, Repr

/-- the fields of vma_t that the functions of vma.c read, without its rb node -/
structure Vma where
  vmStart : Nat
  vmEnd : Nat
  vmFlags : Nat
  vmType : VmaType
  node : Option Nat
  shm : Option Nat
  vmOffset : Nat
  vmFileLen : Nat
  vmFileFlags : Nat
  shmId : Int
  deriving DecidableEq, Repr

/-- vma_manager_t, with the vma_t structs its tree links -/
structure VmaManager where
  vmaTree : RbHeap Unit
  vmas : Nat → Vma
  vmUsed : Nat

/-- vma_len -/
def vmaLen (vma : Vma) : Nat := vma.vmEnd - vma.vmStart

/-- the rb node of a VMA outside the tree: rb_parent_color 0 (no parent, red) and no children -/
def unlinkedNode : RbNode := ⟨none, .red, none, none⟩

namespace VmaManager

/-- a write to the fields of the VMA at `p` -/
def setVma (mgr : VmaManager) (p : Nat) (v : Vma) : VmaManager :=
  { mgr with vmas := Function.update mgr.vmas p v }

/-- `vma->vm_rb.rb_parent_color = 0; vma->vm_rb.rb_left = NULL; vma->vm_rb.rb_right = NULL;` -/
def resetNode (mgr : VmaManager) (p : Nat) : VmaManager :=
  { mgr with vmaTree := mgr.vmaTree.modify p fun _ => unlinkedNode }

end VmaManager

open VmaManager

/-! ### Walks down the tree -/

/-- the walk of vma_prev: the last node passed on the right, which starts below `target` -/
def vmaPrevLoop (h : RbHeap Unit) (vmas : Nat → Vma) (target : Vma) :
    (node best : Option Nat) → (fuel : Nat) → Option (Option Nat)
  | none, best, _ => some best
  | some _, _, 0 => none
  | some n, best, fuel + 1 =>
    if target.vmStart ≤ (vmas n).vmStart then vmaPrevLoop h vmas target (h.nodes n).left best fuel
    else vmaPrevLoop h vmas target (h.nodes n).right (some n) fuel

/-- vma_prev -/
def vmaPrev (fuel : Nat) (mgr : VmaManager) (target : Nat) : Option (Option Nat) :=
  vmaPrevLoop mgr.vmaTree mgr.vmas (mgr.vmas target) mgr.vmaTree.root none fuel

/-- the walk of vma_next: the last node passed on the left, which starts above `target` -/
def vmaNextLoop (h : RbHeap Unit) (vmas : Nat → Vma) (target : Vma) :
    (node best : Option Nat) → (fuel : Nat) → Option (Option Nat)
  | none, best, _ => some best
  | some _, _, 0 => none
  | some n, best, fuel + 1 =>
    if target.vmStart < (vmas n).vmStart then vmaNextLoop h vmas target (h.nodes n).left (some n) fuel
    else vmaNextLoop h vmas target (h.nodes n).right best fuel

/-- vma_next -/
def vmaNext (fuel : Nat) (mgr : VmaManager) (target : Nat) : Option (Option Nat) :=
  vmaNextLoop mgr.vmaTree mgr.vmas (mgr.vmas target) mgr.vmaTree.root none fuel

/-- the walk that vma_is_linked, vma_find and vma_find_intersection share: left on `.lt`, right on `.gt`, and the
node itself on `.eq`, as `dir` reads the node's VMA -/
def vmaSearchLoop (h : RbHeap Unit) (vmas : Nat → Vma) (dir : Vma → Ordering) : (node : Option Nat) →
    (fuel : Nat) → Option (Option Nat)
  | none, _ => some none
  | some _, 0 => none
  | some n, fuel + 1 =>
    match dir (vmas n) with
    | .lt => vmaSearchLoop h vmas dir (h.nodes n).left fuel
    | .eq => some (some n)
    | .gt => vmaSearchLoop h vmas dir (h.nodes n).right fuel

/-- the comparisons of vma_find and vma_is_linked: `addr < vm_start` goes left, `addr >= vm_end` right -/
def findDir (addr : Nat) (vma : Vma) : Ordering :=
  if addr < vma.vmStart then .lt else if addr ≥ vma.vmEnd then .gt else .eq

/-- the comparisons of vma_find_intersection and vma_insert: `end <= vm_start` goes left, `start >= vm_end` right -/
def intersectionDir (start «end» : Nat) (vma : Vma) : Ordering :=
  if «end» ≤ vma.vmStart then .lt else if start ≥ vma.vmEnd then .gt else .eq

/-- vma_is_linked: the walk to the VMA that holds `target`'s start, and whether that is `target` -/
def vmaIsLinked (fuel : Nat) (mgr : VmaManager) (target : Nat) : Option Bool :=
  (vmaSearchLoop mgr.vmaTree mgr.vmas (findDir (mgr.vmas target).vmStart) mgr.vmaTree.root fuel).map
    fun found => decide (found = some target)

/-- vma_find -/
def vmaFind (fuel : Nat) (mgr : VmaManager) (addr : Nat) : Option (Option Nat) :=
  vmaSearchLoop mgr.vmaTree mgr.vmas (findDir addr) mgr.vmaTree.root fuel

/-- vma_find_intersection -/
def vmaFindIntersection (fuel : Nat) (mgr : VmaManager) (start «end» : Nat) : Option (Option Nat) :=
  vmaSearchLoop mgr.vmaTree mgr.vmas (intersectionDir start «end») mgr.vmaTree.root fuel

/-! ### Insertion and removal -/

/-- a link of the tree: the root pointer, or the left or right child pointer of a node -/
inductive Link where
  | root
  | left (parent : Nat)
  | right (parent : Nat)
  deriving DecidableEq, Repr

/-- the node a link points at, the parent of that node -/
def Link.parent : Link → Option Nat
  | .root => none
  | .left p => some p
  | .right p => some p

/-- `*link` -/
def linkTarget (h : RbHeap Unit) : Link → Option Nat
  | .root => h.root
  | .left p => (h.nodes p).left
  | .right p => (h.nodes p).right

/-- `*link = v` -/
def setLink (h : RbHeap Unit) : Link → Option Nat → RbHeap Unit
  | .root, v => h.setRoot v
  | .left p, v => h.setLeft p v
  | .right p, v => h.setRight p v

/-- the walk of vma_insert: the link where the new VMA goes, `none` inside when it overlaps a VMA of the tree -/
def vmaInsertLoop (h : RbHeap Unit) (vmas : Nat → Vma) (new : Vma) : (link : Link) → (fuel : Nat) →
    Option (Option Link)
  | _, 0 => none
  | link, fuel + 1 =>
    match linkTarget h link with
    | none => some (some link)
    | some n =>
      match intersectionDir new.vmStart new.vmEnd (vmas n) with
      | .lt => vmaInsertLoop h vmas new (.left n) fuel
      | .eq => some none
      | .gt => vmaInsertLoop h vmas new (.right n) fuel

/-- vma_insert: the new VMA's rb node gets its parent (so it is red) and no children, `*link` points at it, and
rb_insert_color balances the tree -/
def vmaInsert (fuel : Nat) (mgr : VmaManager) (newVma : Nat) : Option (Int × VmaManager) :=
  let new := mgr.vmas newVma
  if new.vmStart ≥ new.vmEnd then some (-1, mgr)
  else
    match vmaInsertLoop mgr.vmaTree mgr.vmas new .root fuel with
    | none => none
    | some none => some (-1, mgr)
    | some (some link) =>
      let h := setLink (mgr.vmaTree.modify newVma fun _ => ⟨link.parent, .red, none, none⟩) link (some newVma)
      (rbInsertColor fuel h newVma).map fun h => (0, { mgr with vmaTree := h, vmUsed := mgr.vmUsed + vmaLen new })

/-- rb_erase of a VMA and the reset of its rb node -/
def eraseVma (fuel : Nat) (mgr : VmaManager) (vma : Nat) : Option VmaManager :=
  (rbErase fuel mgr.vmaTree vma).map fun h => { mgr with vmaTree := h }

/-- vma_remove -/
def vmaRemove (fuel : Nat) (mgr : VmaManager) (vma : Nat) : Option (Int × VmaManager) := do
  let linked ← vmaIsLinked fuel mgr vma
  if !linked then return (-1, mgr)
  let mgr ← eraseVma fuel mgr vma
  let mgr := mgr.resetNode vma
  return (0, { mgr with vmUsed := mgr.vmUsed - vmaLen (mgr.vmas vma) })

/-- vma_alloc: a zeroed vma_t with shm_id -1 and an unlinked rb node -/
def vmaZero : Vma :=
  { vmStart := 0, vmEnd := 0, vmFlags := 0, vmType := .anon, node := none, shm := none, vmOffset := 0,
    vmFileLen := 0, vmFileFlags := 0, shmId := -1 }

def vmaAlloc (mgr : VmaManager) (fresh : Option Nat) : Option Nat × VmaManager :=
  match fresh with
  | none => (none, mgr)
  | some p => (some p, (mgr.setVma p vmaZero).resetNode p)

/-! ### Split and merge -/

/-- the new VMA of vma_split: the fields of `vma` from `addr` on; for a file VMA the offset moves on by the split
and the file length left past it -/
def splitHigh (vma : Vma) (addr : Nat) : Vma :=
  let splitDelta := addr - vma.vmStart
  { vma with
    vmStart := addr
    vmOffset := if vma.vmType = .file then (vma.vmOffset + (addr - vma.vmStart)) % 2 ^ 64 else vma.vmOffset
    vmFileLen :=
      if vma.vmType = .file then (if vma.vmFileLen > splitDelta then vma.vmFileLen - splitDelta else 0)
      else vma.vmFileLen }

/-- the old VMA of vma_split, up to `addr`: a file VMA keeps the file length below the split -/
def splitLow (vma : Vma) (addr : Nat) : Vma :=
  { vma with
    vmEnd := addr
    vmFileLen := if vma.vmType = .file then min vma.vmFileLen (addr - vma.vmStart) else vma.vmFileLen }

/-- the second failure of vma_split: `vma` leaves the tree again and goes back in whole -/
def splitUndo (fuel : Nat) (mgr : VmaManager) (vma addr : Nat) (old : Vma) : Option (Int × VmaManager) := do
  let mgr ← eraseVma fuel mgr vma
  let mgr := { mgr with vmUsed := mgr.vmUsed - (addr - old.vmStart) }
  let mgr := (mgr.resetNode vma).setVma vma { mgr.vmas vma with vmEnd := old.vmEnd, vmFileLen := old.vmFileLen }
  let (_, mgr) ← vmaInsert fuel mgr vma
  return (-1, mgr)

/-- vma_split: `vma` leaves the tree, shrinks to `[vm_start, addr)` and goes back in, then the new VMA `[addr,
vm_end)` goes in. vma_free of the new VMA on a failure is not modelled: its memory is not the manager's. -/
def vmaSplit (fuel : Nat) (mgr : VmaManager) (vma addr : Nat) (fresh : Option Nat) : Option (Int × VmaManager) :=
  let old := mgr.vmas vma
  if addr ≤ old.vmStart ∨ addr ≥ old.vmEnd then some (-1, mgr)
  else
    match vmaAlloc mgr fresh with
    | (none, _) => some (-1, mgr)
    | (some newVma, mgr) => do
      let mgr := (mgr.setVma newVma (splitHigh old addr)).setVma vma
        { old with vmFileLen := (splitLow old addr).vmFileLen }
      let mgr ← eraseVma fuel mgr vma
      let mgr := { mgr with vmUsed := mgr.vmUsed - (old.vmEnd - old.vmStart) }
      let mgr := (mgr.resetNode vma).setVma vma { mgr.vmas vma with vmEnd := addr }
      let (rc, mgr) ← vmaInsert fuel mgr vma
      if rc ≠ 0 then
        let mgr := mgr.setVma vma { mgr.vmas vma with vmEnd := old.vmEnd, vmFileLen := old.vmFileLen }
        let (_, mgr) ← vmaInsert fuel mgr vma
        return (-1, mgr)
      let (rc, mgr) ← vmaInsert fuel mgr newVma
      if rc ≠ 0 then splitUndo fuel mgr vma addr old
      else return (0, mgr)

/-- the checks of vma_merge: adjacent, with the same flags, type, inode, shm and file flags, and for a file VMA a
continuing offset and a file length that is a prefix of the two -/
def vmaMergeable (vma1 vma2 : Vma) : Bool :=
  if vma1.vmEnd ≠ vma2.vmStart then false
  else if vma1.vmFlags ≠ vma2.vmFlags ∨ vma1.vmType ≠ vma2.vmType ∨ vma1.node ≠ vma2.node ∨ vma1.shm ≠ vma2.shm ∨
      vma1.vmFileFlags ≠ vma2.vmFileFlags then false
  else if vma1.vmType = .file ∧ (vma1.vmOffset + (vma1.vmEnd - vma1.vmStart)) % 2 ^ 64 ≠ vma2.vmOffset then false
  else if vma1.vmType = .file then
    let vma1Len := vma1.vmEnd - vma1.vmStart
    let mergedFileLen := (vma1.vmFileLen + vma2.vmFileLen) % 2 ^ 64
    let mergedLen := vma2.vmEnd - vma1.vmStart
    if mergedFileLen < vma1.vmFileLen ∨ mergedFileLen > mergedLen then false
    else if vma1.vmFileLen < vma1Len ∧ vma2.vmFileLen ≠ 0 then false
    else true
  else true

/-- `vma1->vm_end = new_end; if (vma1->vm_type == VMA_TYPE_FILE) vma1->vm_file_len += vma2->vm_file_len;` -/
def mergedVma (vma1 vma2 : Vma) : Vma :=
  { vma1 with
    vmEnd := vma2.vmEnd
    vmFileLen := if vma1.vmType = .file then (vma1.vmFileLen + vma2.vmFileLen) % 2 ^ 64 else vma1.vmFileLen }

/-- vma_merge: both VMAs leave the tree, the first grows over the second and goes back in. Moving vm_name and
vma_free of the second are not modelled. -/
def vmaMerge (fuel : Nat) (mgr : VmaManager) (vma1 vma2 : Nat) : Option (Int × VmaManager) :=
  let v1 := mgr.vmas vma1
  let v2 := mgr.vmas vma2
  if !vmaMergeable v1 v2 then some (-1, mgr)
  else do
    let mgr := { mgr with vmUsed := mgr.vmUsed - vmaLen v2 }
    let mgr ← eraseVma fuel mgr vma2
    let mgr := { mgr with vmUsed := mgr.vmUsed - vmaLen v1 }
    let mgr ← eraseVma fuel mgr vma1
    let mgr := (mgr.resetNode vma1).setVma vma1 (mergedVma v1 v2)
    let (rc, mgr) ← vmaInsert fuel mgr vma1
    if rc ≠ 0 then
      let merged := mgr.vmas vma1
      let mgr := mgr.setVma vma1 { merged with
        vmEnd := v1.vmEnd
        vmFileLen := if merged.vmType = .file then (merged.vmFileLen + 2 ^ 64 - v2.vmFileLen) % 2 ^ 64
          else merged.vmFileLen }
      let (_, mgr) ← vmaInsert fuel mgr vma1
      let (_, mgr) ← vmaInsert fuel (mgr.resetNode vma2) vma2
      return (-1, mgr)
    return (0, mgr)

/-- `vma_merge(...) == 0` when the test before it holds, threading the manager the call leaves -/
def mergeIf (fuel : Nat) (mgr : VmaManager) (test : Bool) (vma1 vma2 : Nat) : Option (Bool × VmaManager) :=
  if test then (vmaMerge fuel mgr vma1 vma2).map fun (rc, mgr) => (decide (rc = 0), mgr) else some (false, mgr)

/-- the loop of vma_try_merge_around, on the VMA `*vma_ptr` points at; it gives the manager and `*vma_ptr` -/
def vmaTryMergeAroundLoop (fuel : Nat) : (mgr : VmaManager) → (vma : Nat) → (loopFuel : Nat) →
    Option (VmaManager × Nat)
  | _, _, 0 => none
  | mgr, vma, loopFuel + 1 => do
    let prev ← vmaPrev fuel mgr vma
    let (mergedPrev, mgr) ← match prev with
      | some p => mergeIf fuel mgr (decide ((mgr.vmas p).vmEnd = (mgr.vmas vma).vmStart)) p vma
      | none => some (false, mgr)
    match prev, mergedPrev with
    | some p, true => vmaTryMergeAroundLoop fuel mgr p loopFuel
    | _, _ => do
      let next ← vmaNext fuel mgr vma
      let (mergedNext, mgr) ← match next with
        | some n => mergeIf fuel mgr (decide ((mgr.vmas vma).vmEnd = (mgr.vmas n).vmStart)) vma n
        | none => some (false, mgr)
      if mergedNext then vmaTryMergeAroundLoop fuel mgr vma loopFuel
      else some (mgr, vma)

theorem vmaTryMergeAroundLoop_succ (fuel : Nat) (mgr : VmaManager) (vma loopFuel : Nat) :
    vmaTryMergeAroundLoop fuel mgr vma (loopFuel + 1) = (do
      let prev ← vmaPrev fuel mgr vma
      let (mergedPrev, mgr) ← match prev with
        | some p => mergeIf fuel mgr (decide ((mgr.vmas p).vmEnd = (mgr.vmas vma).vmStart)) p vma
        | none => some (false, mgr)
      match prev, mergedPrev with
      | some p, true => vmaTryMergeAroundLoop fuel mgr p loopFuel
      | _, _ => do
        let next ← vmaNext fuel mgr vma
        let (mergedNext, mgr) ← match next with
          | some n => mergeIf fuel mgr (decide ((mgr.vmas vma).vmEnd = (mgr.vmas n).vmStart)) vma n
          | none => some (false, mgr)
        if mergedNext then vmaTryMergeAroundLoop fuel mgr vma loopFuel
        else some (mgr, vma)) := rfl

/-- vma_try_merge_around -/
def vmaTryMergeAround (fuel : Nat) (mgr : VmaManager) (vma : Nat) : Option (VmaManager × Nat) :=
  vmaTryMergeAroundLoop fuel mgr vma fuel

/-- the loop of vma_unmap_range; `malloc` answers the allocation of each split. vma_free of a removed VMA is not
modelled. -/
def vmaUnmapRangeLoop (fuel : Nat) (malloc : VmaManager → Option Nat) (start «end» : Nat) :
    (mgr : VmaManager) → (loopFuel : Nat) → Option (Int × VmaManager)
  | _, 0 => none
  | mgr, loopFuel + 1 => do
    let found ← vmaFindIntersection fuel mgr start «end»
    match found with
    | none => some (0, mgr)
    | some vma =>
      if (mgr.vmas vma).vmStart < start then
        let (rc, mgr) ← vmaSplit fuel mgr vma start (malloc mgr)
        if rc ≠ 0 then some (-1, mgr) else vmaUnmapRangeLoop fuel malloc start «end» mgr loopFuel
      else if (mgr.vmas vma).vmEnd > «end» then
        let (rc, mgr) ← vmaSplit fuel mgr vma «end» (malloc mgr)
        if rc ≠ 0 then some (-1, mgr) else vmaUnmapRangeLoop fuel malloc start «end» mgr loopFuel
      else
        let (_, mgr) ← vmaRemove fuel mgr vma
        vmaUnmapRangeLoop fuel malloc start «end» mgr loopFuel

/-- vma_unmap_range -/
def vmaUnmapRange (fuel : Nat) (malloc : VmaManager → Option Nat) (mgr : VmaManager) (start «end» : Nat) :
    Option (Int × VmaManager) :=
  if start ≥ «end» then some (-1, mgr) else vmaUnmapRangeLoop fuel malloc start «end» mgr fuel

end Naos.Vmas
