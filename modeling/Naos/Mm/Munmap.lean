/-
sys_munmap of mm/mm_syscall.c: split_vma_boundaries_locked, the two removal paths do_munmap_locked and
do_munmap_detach_locked, and the choice between them.

Both paths round the range to pages, split the VMAs that reach across its two ends, and then take out of the tree,
one by one, the VMAs vma_find_intersection finds in the range. do_munmap_locked writes each shared writable file
VMA back first (`wb` is what page_cache_writeback_range returns for an inode and a file range); do_munmap_detach_locked
refuses with -EAGAIN when one would need it, before it takes any out, and keeps the VMAs it takes out in a list for
munmap_release_detached. Return values are the `uint64_t` the code returns, an error `-e` being `2^64 - e`. vma_alloc's
malloc in each split is the allocator's answer `malloc mgr`.

Results:
- `splitBoundaryLoop_spec`, `splitVmaBoundariesLocked_spec`: the splits keep the invariant and every address's view,
  and when they succeed no VMA holds both `start - 1` and `start`, or both `end - 1` and `end`;
- `doMunmapLockedLoop_spec`, `doMunmapDetachLoop_spec`: the removal loops take out exactly the VMAs in the range and
  keep the view of every address outside it; the failure branches of the detach loop are never taken;
- `doMunmapLocked_spec`, `doMunmapDetachLocked_spec`: the two paths; a failing detach leaves every address's view
  as it was;
- `sysMunmap_spec`: a sys_munmap that returns 0 leaves no VMA in the range and every other address as it was, and
  every call keeps the invariant.
-/
import Mathlib
import Naos.Mm.MmapArea
import Naos.Mm.Cow

namespace Naos.Vmas

open RedBlack RBTree Naos.RbTree VmaManager
open Naos.Buddy (PAGE_SIZE PADDING_DOWN PADDING_UP)
open Naos.Cow (checkUserOverflow)

/-! ## The model -/

def EAGAIN : Nat := 11
def EFAULT : Nat := 14
def EINVAL : Nat := 22

def VMA_WRITE : Nat := 0x2
def VMA_SHARED : Nat := 0x8
def VMA_DEVICE : Nat := 0x40

/-- user_range_valid, for the HHDM offset `hhdm` -/
def userRangeValid (hhdm addr len : Nat) : Bool := len ≠ 0 && !checkUserOverflow hhdm addr len

/-- vma_needs_file_writeback -/
def vmaNeedsFileWriteback (vma : Vma) : Bool :=
  vma.vmType = .file && vma.vmFlags &&& VMA_SHARED ≠ 0 && vma.vmFlags &&& VMA_WRITE ≠ 0 &&
    vma.vmFlags &&& VMA_DEVICE = 0 && vma.node.isSome

/-- writeback_vma_file_range; `wb node fileStart fileEnd` is the `int` page_cache_writeback_range returns -/
def writebackVmaFileRange (wb : Nat → Nat → Nat → Int) (vma : Vma) (start «end» : Nat) : Nat :=
  if !vmaNeedsFileWriteback vma || start ≥ «end» then 0
  else
    let delta := start - vma.vmStart
    let fileStart := (vma.vmOffset + delta) % 2 ^ 64
    let fileEnd := (fileStart + («end» - start)) % 2 ^ 64
    let ret := wb (vma.node.getD 0) fileStart fileEnd
    if ret < 0 then (ret % 2 ^ 64).toNat else 0

/-- one of the two loops of split_vma_boundaries_locked: while the VMA that holds `key` reaches across `addr`, split
it there. The first loop has `key = addr = start`, the second `key = end - 1` and `addr = end`. -/
def splitBoundaryLoop (fuel : Nat) (malloc : VmaManager → Option Nat) (key addr : Nat) :
    (mgr : VmaManager) → (loopFuel : Nat) → Option (Int × VmaManager)
  | _, 0 => none
  | mgr, loopFuel + 1 => do
    let found ← vmaFind fuel mgr key
    match found with
    | none => some (0, mgr)
    | some vma =>
      if (mgr.vmas vma).vmStart < addr ∧ addr < (mgr.vmas vma).vmEnd then
        let (rc, mgr) ← vmaSplit fuel mgr vma addr (malloc mgr)
        if rc ≠ 0 then some (-(ENOMEM : Int), mgr) else splitBoundaryLoop fuel malloc key addr mgr loopFuel
      else some (0, mgr)

/-- split_vma_boundaries_locked -/
def splitVmaBoundariesLocked (fuel : Nat) (malloc : VmaManager → Option Nat) (mgr : VmaManager)
    (start «end» : Nat) : Option (Int × VmaManager) :=
  if start ≥ «end» then some (0, mgr)
  else do
    let (rc, mgr) ← splitBoundaryLoop fuel malloc start start mgr fuel
    if rc ≠ 0 then some (rc, mgr)
    else splitBoundaryLoop fuel malloc («end» - 1) «end» mgr fuel

/-- the removal loop of do_munmap_locked -/
def doMunmapLockedLoop (fuel : Nat) (wb : Nat → Nat → Nat → Int) (addr «end» : Nat) :
    (mgr : VmaManager) → (loopFuel : Nat) → Option (Nat × VmaManager)
  | _, 0 => none
  | mgr, loopFuel + 1 => do
    let found ← vmaFindIntersection fuel mgr addr «end»
    match found with
    | none => some (0, mgr)
    | some vma =>
      let v := mgr.vmas vma
      if v.vmStart < addr ∨ v.vmEnd > «end» then some (enomemRet, mgr)
      else
        let ret := writebackVmaFileRange wb v v.vmStart (v.vmStart + (v.vmEnd - v.vmStart))
        -- `(int64_t)ret < 0`
        if ret ≥ 2 ^ 63 then some (ret, mgr)
        else
          let (rc, mgr) ← vmaRemove fuel mgr vma
          if rc ≠ 0 then some (enomemRet, mgr) else doMunmapLockedLoop fuel wb addr «end» mgr loopFuel

/-- do_munmap_locked; unmap_vma_resident_range and vma_free of each removed VMA touch only its pages and its memory -/
def doMunmapLocked (fuel : Nat) (malloc : VmaManager → Option Nat) (wb : Nat → Nat → Nat → Int) (hhdm : Nat)
    (mgr : VmaManager) (addr size : Nat) : Option (Nat × VmaManager) :=
  let addr := PADDING_DOWN addr PAGE_SIZE
  let size := PADDING_UP size PAGE_SIZE
  if size = 0 then some (2 ^ 64 - EINVAL, mgr)
  else if !userRangeValid hhdm addr size then some (2 ^ 64 - EFAULT, mgr)
  else do
    let «end» := addr + size
    let (rc, mgr) ← splitVmaBoundariesLocked fuel malloc mgr addr «end»
    if rc ≠ 0 then some (enomemRet, mgr)
    else doMunmapLockedLoop fuel wb addr «end» mgr fuel

/-- the check loop of do_munmap_detach_locked: does a VMA it reaches in `[cursor, end)` need a file writeback -/
def needsWritebackLoop (fuel : Nat) (mgr : VmaManager) («end» : Nat) :
    (cursor : Nat) → (loopFuel : Nat) → Option Bool
  | _, 0 => none
  | cursor, loopFuel + 1 =>
    if cursor < «end» then do
      let found ← vmaFindIntersection fuel mgr cursor «end»
      match found with
      | none => some false
      | some vma =>
        if vmaNeedsFileWriteback (mgr.vmas vma) then some true
        else needsWritebackLoop fuel mgr «end» (mgr.vmas vma).vmEnd loopFuel
    else some false

/-- the undo of do_munmap_detach_locked: every detached VMA goes back in with vma_insert, newest first. The code
threads the detached VMAs through their rb_left; the model keeps that chain as a list. -/
def reinsertDetached (fuel : Nat) : (mgr : VmaManager) → (head : List Nat) → Option VmaManager
  | mgr, [] => some mgr
  | mgr, cur :: rest => do
    let (_, mgr) ← vmaInsert fuel mgr cur
    reinsertDetached fuel mgr rest

/-- the removal loop of do_munmap_detach_locked, with the detached VMAs so far, newest first -/
def doMunmapDetachLoop (fuel : Nat) (addr «end» : Nat) :
    (mgr : VmaManager) → (head : List Nat) → (loopFuel : Nat) → Option (Nat × VmaManager × List Nat)
  | _, _, 0 => none
  | mgr, head, loopFuel + 1 => do
    let found ← vmaFindIntersection fuel mgr addr «end»
    match found with
    | none => some (0, mgr, head)
    | some vma =>
      let v := mgr.vmas vma
      if v.vmStart < addr ∨ v.vmEnd > «end» then do
        let mgr ← reinsertDetached fuel mgr head
        some (enomemRet, mgr, [])
      else
        let (rc, mgr) ← vmaRemove fuel mgr vma
        if rc ≠ 0 then do
          let mgr ← reinsertDetached fuel mgr head
          some (enomemRet, mgr, [])
        else doMunmapDetachLoop fuel addr «end» mgr (vma :: head) loopFuel

/-- do_munmap_detach_locked, with the list `*detached` is set to -/
def doMunmapDetachLocked (fuel : Nat) (malloc : VmaManager → Option Nat) (hhdm : Nat) (mgr : VmaManager)
    (addr size : Nat) : Option (Nat × VmaManager × List Nat) :=
  let addr := PADDING_DOWN addr PAGE_SIZE
  let size := PADDING_UP size PAGE_SIZE
  if size = 0 then some (2 ^ 64 - EINVAL, mgr, [])
  else if !userRangeValid hhdm addr size then some (2 ^ 64 - EFAULT, mgr, [])
  else do
    let «end» := addr + size
    let (rc, mgr) ← splitVmaBoundariesLocked fuel malloc mgr addr «end»
    if rc ≠ 0 then some (enomemRet, mgr, [])
    else
      let needs ← needsWritebackLoop fuel mgr «end» addr fuel
      if needs then some (2 ^ 64 - EAGAIN, mgr, [])
      else doMunmapDetachLoop fuel addr «end» mgr [] fuel

/-- sys_munmap, under mgr->lock; `singleOwner` is `mm->ref_count == 1`. munmap_release_detached unmaps the pages of
the detached VMAs and frees them, outside the tree, and returns 0. -/
def sysMunmap (fuel : Nat) (malloc : VmaManager → Option Nat) (wb : Nat → Nat → Nat → Int) (hhdm : Nat)
    (singleOwner : Bool) (mgr : VmaManager) (addr size : Nat) : Option (Nat × VmaManager) :=
  if addr % PAGE_SIZE ≠ 0 then some (2 ^ 64 - EINVAL, mgr)
  else if singleOwner then do
    let (ret, mgr, _) ← doMunmapDetachLocked fuel malloc hhdm mgr addr size
    if ret = 2 ^ 64 - EAGAIN then doMunmapLocked fuel malloc wb hhdm mgr addr size
    else some (ret, mgr)
  else doMunmapLocked fuel malloc wb hhdm mgr addr size

/-! ## Boundaries and ranges of a family of VMAs -/

/-- no VMA of the family holds both `x - 1` and `x` -/
def Boundary (L : List Vma) (x : Nat) : Prop := ∀ v ∈ L, ¬(v.vmStart < x ∧ x < v.vmEnd)

/-- every VMA of `L'` lies inside one of `L` -/
def Refines (L' L : List Vma) : Prop := ∀ w ∈ L', ∃ v ∈ L, v.vmStart ≤ w.vmStart ∧ w.vmEnd ≤ v.vmEnd

/-- every VMA of the family that meets `[s, e)` lies inside it -/
def Inside (L : List Vma) (s e : Nat) : Prop :=
  ∀ v ∈ L, v.vmStart < e → s < v.vmEnd → s ≤ v.vmStart ∧ v.vmEnd ≤ e

/-- no VMA of the family meets `[s, e)` -/
def Clear (L : List Vma) (s e : Nat) : Prop := ∀ v ∈ L, ¬(v.vmStart < e ∧ s < v.vmEnd)

section Families

variable {L L' L'' : List Vma} {x s e : Nat}

theorem Refines.refl (L : List Vma) : Refines L L := fun w hw => ⟨w, hw, le_rfl, le_rfl⟩

theorem Refines.trans (h₁ : Refines L'' L') (h₂ : Refines L' L) : Refines L'' L := by
  intro w hw
  obtain ⟨u, hu, hus, hue⟩ := h₁ w hw
  obtain ⟨v, hv, hvs, hve⟩ := h₂ u hu
  exact ⟨v, hv, hvs.trans hus, hue.trans hve⟩

/-- a boundary stays one when the VMAs are cut smaller -/
theorem Boundary.of_refines (hb : Boundary L x) (hr : Refines L' L) : Boundary L' x := by
  rintro w hw ⟨hws, hwe⟩
  obtain ⟨v, hv, hvs, hve⟩ := hr w hw
  exact hb v hv ⟨by omega, by omega⟩

/-- a range whose two ends are boundaries has every VMA that meets it inside it -/
theorem inside_of_boundary (hs : Boundary L s) (he : Boundary L e) : Inside L s e := by
  intro v hv hvs hve
  have h1 := hs v hv
  have h2 := he v hv
  omega

theorem Inside.mono (h : Inside L s e) (hsub : L' ⊆ L) : Inside L' s e := fun v hv => h v (hsub hv)

end Families

/-- the two halves of a split lie inside the VMA they come from -/
theorem refines_split (v : Vma) (addr : Nat) (hlo : v.vmStart < addr) (hhi : addr < v.vmEnd) (R : List Vma) :
    Refines (splitLow v addr :: splitHigh v addr :: R) (v :: R) := by
  intro w hw
  rcases List.mem_cons.1 hw with rfl | hw
  · exact ⟨v, List.mem_cons_self .., le_rfl, by simp only [vmEnd_splitLow]; omega⟩
  rcases List.mem_cons.1 hw with rfl | hw
  · exact ⟨v, List.mem_cons_self .., by simp only [vmStart_splitHigh]; omega, le_rfl⟩
  · exact ⟨w, List.mem_cons_of_mem _ hw, le_rfl, le_rfl⟩

/-- a split at an address that only the split VMA reaches across leaves it a boundary -/
theorem boundary_split {v : Vma} {addr : Nat} {R : List Vma}
    (hd : (v :: R).Pairwise (Intervals.Apart Vma.vmStart Vma.vmEnd))
    (hlo : v.vmStart < addr) (hhi : addr < v.vmEnd) : Boundary (splitLow v addr :: splitHigh v addr :: R) addr := by
  rw [List.pairwise_cons] at hd
  intro w hw
  rcases List.mem_cons.1 hw with rfl | hw
  · simp
  rcases List.mem_cons.1 hw with rfl | hw
  · simp
  · have := hd.1 w hw
    unfold Intervals.Apart at this
    omega

/-- the family of a manager whose VMAs are one family up to order -/
theorem Refines.of_perm {M M' : List Vma} (h : Refines L' L) (hl' : M'.Perm L') (hl : L.Perm M) : Refines M' M :=
  fun w hw => (h w (hl'.mem_iff.1 hw)).imp fun _ ⟨hv, hle⟩ => ⟨hl.mem_iff.1 hv, hle⟩

theorem Boundary.of_perm {M : List Vma} (h : Boundary L x) (hl : M.Perm L) : Boundary M x :=
  fun w hw => h w (hl.mem_iff.1 hw)

/-! ## The splits -/

/-- the allocator gives a node outside the tree of the manager it is asked in -/
def MallocFresh (malloc : VmaManager → Option Nat) : Prop :=
  ∀ mgr T p, TreeOk mgr T → malloc mgr = some p → p ∉ T.ids

/-- an allocator that hands out the first of the nodes `1, ..., n` whose VMA is empty -/
def firstEmptyVma (n : Nat) (mgr : VmaManager) : Option Nat :=
  (List.range' 1 n).find? fun i => (mgr.vmas i).vmEnd ≤ (mgr.vmas i).vmStart

/-- every VMA of a tree that keeps the invariant is non-empty, so an empty one is not in the tree -/
theorem mallocFresh_firstEmptyVma (n : Nat) : MallocFresh (firstEmptyVma n) := by
  intro mgr T p hok h hp
  have hempty := List.find?_some h
  simp only [decide_eq_true_eq] at hempty
  have := hok.nonempty p hp
  omega

/-- what a run of splits keeps: the invariant, every address's view, and VMAs that lie inside the old ones -/
structure SplitOf (mgr : VmaManager) (T : RBTree Nat) (mgr' : VmaManager) (T' : RBTree Nat) : Prop where
  ok : VmaOk mgr' T'
  refines : Refines (vmaList mgr' T') (vmaList mgr T)
  view : ∀ a, addrView mgr' T' a = addrView mgr T a

section Splits

variable {fuel : Nat} {malloc : VmaManager → Option Nat} {mgr mgr' mgr'' : VmaManager} {T T' T'' : RBTree Nat}

theorem SplitOf.refl (hok : VmaOk mgr T) : SplitOf mgr T mgr T := ⟨hok, Refines.refl _, fun _ => rfl⟩

theorem SplitOf.trans (h₁ : SplitOf mgr T mgr' T') (h₂ : SplitOf mgr' T' mgr'' T'') : SplitOf mgr T mgr'' T'' :=
  ⟨h₂.ok, h₂.refines.trans h₁.refines, fun a => (h₂.view a).trans (h₁.view a)⟩

/-- vma_split whose vma_alloc fails changes nothing -/
theorem vmaSplit_none (v addr : Nat) : vmaSplit fuel mgr v addr none = some (-1, mgr) := by
  unfold vmaSplit vmaAlloc
  dsimp only
  split_ifs <;> rfl

/-- vma_split strictly inside a VMA with a fresh node: the VMAs of the tree become the two halves and the others -/
theorem vmaSplit_fresh (hok : VmaOk mgr T) {v addr p : Nat} (hv : v ∈ T.ids) (hlo : (mgr.vmas v).vmStart < addr)
    (hhi : addr < (mgr.vmas v).vmEnd) (hp : p ∉ T.ids) (hfuel : 2 * T.ids.length < fuel) :
    ∃ mgr' T', vmaSplit fuel mgr v addr (some p) = some (0, mgr') ∧ SplitOf mgr T mgr' T' ∧
      T'.ids.length = T.ids.length + 1 ∧ Boundary (vmaList mgr' T') addr := by
  obtain ⟨mgr', T', hsplit, hok', hids, hvmas, hview⟩ := vmaSplit_spec fuel hok hv hlo hhi hp hfuel
  have hpv : p ≠ v := fun h => hp (h ▸ hv)
  have hnd := hok.tree.linked.nodup_tree
  have hrest : (T.ids.erase v).map mgr'.vmas = (T.ids.erase v).map mgr.vmas := by
    refine List.map_congr_left fun y hy => ?_
    have hyv : y ≠ v := fun h => hnd.not_mem_erase (h ▸ hy)
    have hyp : y ≠ p := fun h => hp (h ▸ List.mem_of_mem_erase hy)
    rw [hvmas, Function.update_of_ne hyv, Function.update_of_ne hyp]
  have hlist : (vmaList mgr' T').Perm
      (splitLow (mgr.vmas v) addr :: splitHigh (mgr.vmas v) addr :: (T.ids.erase v).map mgr.vmas) := by
    have hp' : mgr'.vmas p = splitHigh (mgr.vmas v) addr := by
      rw [hvmas, Function.update_of_ne hpv, Function.update_self]
    have hv' : mgr'.vmas v = splitLow (mgr.vmas v) addr := by rw [hvmas, Function.update_self]
    have h1 := (hids.trans (.cons p (List.perm_cons_erase hv))).map mgr'.vmas
    rw [List.map_cons, List.map_cons, hrest, hp', hv'] at h1
    exact h1.trans (.swap _ _ _)
  have hold : (vmaList mgr T).Perm (mgr.vmas v :: (T.ids.erase v).map mgr.vmas) := vmaList_perm_erase hv
  refine ⟨mgr', T', hsplit, ⟨hok', (refines_split _ addr hlo hhi _).of_perm hlist hold.symm, hview⟩,
    by simp [hids.length_eq], ?_⟩
  exact (boundary_split (hold.pairwise hok.tree.apart_vmaList fun h => h.symm) hlo hhi).of_perm hlist

/-- vma_find gives the VMA that holds the address, or none when no VMA holds it -/
theorem vmaFind_spec (hok : TreeOk mgr T) (hfuel : T.ids.length ≤ fuel) (key : Nat) :
    ∃ r, vmaFind fuel mgr key = some r ∧
      (r = none → ∀ y ∈ T.ids, ¬((mgr.vmas y).vmStart ≤ key ∧ key < (mgr.vmas y).vmEnd)) ∧
      ∀ y, r = some y → y ∈ T.ids ∧ (mgr.vmas y).vmStart ≤ key ∧ key < (mgr.vmas y).vmEnd := by
  refine ⟨_, vmaFind_eq hok hfuel key, fun h y hy => ?_, fun y hy => ?_⟩
  · simpa using List.find?_eq_none.1 h y hy
  · exact ⟨List.mem_of_find?_eq_some hy, by simpa using List.find?_some hy⟩

end Splits

section BoundaryLoop

variable {fuel : Nat} {malloc : VmaManager → Option Nat} {mgr : VmaManager} {T : RBTree Nat}

/-- when no VMA reaches across `addr`, the loop stops at its first pass and changes nothing -/
theorem splitBoundaryLoop_of_boundary (malloc : VmaManager → Option Nat) (key : Nat) {addr : Nat} (hok : TreeOk mgr T)
    (hfuel : T.ids.length ≤ fuel) (hb : Boundary (vmaList mgr T) addr) (loopFuel : Nat) :
    splitBoundaryLoop fuel malloc key addr mgr (loopFuel + 1) = some (0, mgr) := by
  obtain ⟨r, hfind, -, hsome⟩ := vmaFind_spec hok hfuel key
  cases r with
  | none => simp [splitBoundaryLoop, hfind]
  | some y =>
    have hy := hb _ (List.mem_map.2 ⟨y, (hsome y rfl).1, rfl⟩)
    simp [splitBoundaryLoop, hfind, hy]

/-- one loop of split_vma_boundaries_locked, for a key at `addr` or just below it: at most one split, after which
`addr` is a boundary, or a failed vma_alloc and -ENOMEM -/
theorem splitBoundaryLoop_spec (hmalloc : MallocFresh malloc) (key addr : Nat) (hkey : key = addr ∨ key + 1 = addr)
    (hok : VmaOk mgr T) (hfuel : 2 * T.ids.length < fuel) (loopFuel : Nat) :
    ∃ rc mgr' T', splitBoundaryLoop fuel malloc key addr mgr (loopFuel + 2) = some (rc, mgr') ∧
      SplitOf mgr T mgr' T' ∧ T'.ids.length ≤ T.ids.length + 1 ∧
      (rc = 0 ∧ Boundary (vmaList mgr' T') addr ∨ rc = -(ENOMEM : Int)) := by
  by_cases hb : Boundary (vmaList mgr T) addr
  · exact ⟨0, mgr, T, splitBoundaryLoop_of_boundary malloc key hok.tree (show T.ids.length ≤ fuel by omega) hb _,
      SplitOf.refl hok, by omega,
      .inl ⟨rfl, hb⟩⟩
  obtain ⟨w, hw, hwa⟩ : ∃ w ∈ vmaList mgr T, w.vmStart < addr ∧ addr < w.vmEnd := by
    simpa [Boundary] using hb
  obtain ⟨v, hv, rfl⟩ := List.mem_map.1 hw
  have hvk : (mgr.vmas v).vmStart ≤ key ∧ key < (mgr.vmas v).vmEnd := by omega
  obtain ⟨r, hfind, hnone, hsome⟩ := vmaFind_spec hok.tree (show T.ids.length ≤ fuel by omega) key
  have hr : r = some v := by
    cases r with
    | none => exact absurd hvk (hnone rfl v hv)
    | some y =>
      obtain ⟨hy, hyk⟩ := hsome y rfl
      rw [Intervals.eq_of_holds hok.tree.apart hy hv hyk hvk]
  subst hr
  cases hm : malloc mgr with
  | none =>
    refine ⟨-(ENOMEM : Int), mgr, T, ?_, SplitOf.refl hok, by omega, .inr rfl⟩
    simp [splitBoundaryLoop, hfind, hwa, hm, vmaSplit_none]
  | some p =>
    obtain ⟨mgr', T', hsplit, hsp, hlen, hb'⟩ :=
      vmaSplit_fresh hok hv hwa.1 hwa.2 (hmalloc mgr T p hok.tree hm) hfuel
    refine ⟨0, mgr', T', ?_, hsp, by omega, .inl ⟨rfl, hb'⟩⟩
    have hnext :=
      splitBoundaryLoop_of_boundary malloc key hsp.ok.tree (show T'.ids.length ≤ fuel by omega) hb' loopFuel
    simp [splitBoundaryLoop, hfind, hwa, hm, hsplit] at hnext ⊢
    exact hnext

end BoundaryLoop

/-- split_vma_boundaries_locked keeps the invariant and every address's view, and when it returns 0 on a nonempty
range, no VMA holds both `start - 1` and `start`, or both `end - 1` and `end` -/
theorem splitVmaBoundariesLocked_spec {fuel : Nat} {malloc : VmaManager → Option Nat} {mgr : VmaManager}
    {T : RBTree Nat} (hmalloc : MallocFresh malloc) (hok : VmaOk mgr T) (hfuel : 2 * T.ids.length + 2 < fuel)
    (start «end» : Nat) :
    ∃ rc mgr' T', splitVmaBoundariesLocked fuel malloc mgr start «end» = some (rc, mgr') ∧
      SplitOf mgr T mgr' T' ∧ T'.ids.length ≤ T.ids.length + 2 ∧ (rc = 0 ∨ rc = -(ENOMEM : Int)) ∧
      (rc = 0 → start < «end» → Boundary (vmaList mgr' T') start ∧ Boundary (vmaList mgr' T') «end») := by
  unfold splitVmaBoundariesLocked
  by_cases hse : start ≥ «end»
  · rw [if_pos hse]
    exact ⟨0, mgr, T, rfl, SplitOf.refl hok, by omega, .inl rfl, fun _ h => absurd h (by omega)⟩
  rw [if_neg hse]
  obtain ⟨n, rfl⟩ : ∃ n, fuel = n + 2 := ⟨fuel - 2, by omega⟩
  obtain ⟨rc1, mgr1, T1, h1, hs1, hl1, hr1⟩ := splitBoundaryLoop_spec hmalloc start start (.inl rfl) hok
    (show 2 * T.ids.length < n + 2 by omega) n
  rcases hr1 with ⟨rfl, hb1⟩ | rfl
  · obtain ⟨rc2, mgr2, T2, h2, hs2, hl2, hr2⟩ :=
      splitBoundaryLoop_spec hmalloc («end» - 1) «end» (.inr (by omega)) hs1.ok
        (show 2 * T1.ids.length < n + 2 by omega) n
    refine ⟨rc2, mgr2, T2, by simp [h1, h2], hs1.trans hs2, by omega, ?_, fun h0 _ => ?_⟩
    · rcases hr2 with ⟨rfl, -⟩ | rfl
      · exact .inl rfl
      · exact .inr rfl
    · rcases hr2 with ⟨-, hb2⟩ | rfl
      · exact ⟨hb1.of_refines hs2.refines, hb2⟩
      · simp [ENOMEM] at h0
  · exact ⟨-(ENOMEM : Int), mgr1, T1, by simp [h1, ENOMEM], hs1, by omega, .inr rfl,
      fun h0 => by simp [ENOMEM] at h0⟩

/-! ## The removal loops -/

/-- what the removal loops keep: the invariant, VMAs of the tree among the old ones, and the view of every address
outside `[s, e)` -/
structure RemovedIn (s e : Nat) (mgr : VmaManager) (T : RBTree Nat) (mgr' : VmaManager) (T' : RBTree Nat) : Prop where
  ok : VmaOk mgr' T'
  subset : vmaList mgr' T' ⊆ vmaList mgr T
  length_le : T'.ids.length ≤ T.ids.length
  outside : ∀ a, a < s ∨ e ≤ a → addrView mgr' T' a = addrView mgr T a

section Removal

variable {fuel s e : Nat} {mgr mgr' mgr'' : VmaManager} {T T' T'' : RBTree Nat}

theorem RemovedIn.refl (hok : VmaOk mgr T) : RemovedIn s e mgr T mgr T :=
  ⟨hok, fun _ h => h, le_rfl, fun _ _ => rfl⟩

theorem RemovedIn.trans (h₁ : RemovedIn s e mgr T mgr' T') (h₂ : RemovedIn s e mgr' T' mgr'' T'') :
    RemovedIn s e mgr T mgr'' T'' :=
  ⟨h₂.ok, fun _ h => h₁.subset (h₂.subset h), h₂.length_le.trans h₁.length_le,
    fun a ha => (h₂.outside a ha).trans (h₁.outside a ha)⟩

/-- in a family that is pairwise apart, the others do not hold what the first one holds -/
theorem view_eq_none_of_holds {v : Vma} {R : List Vma} (hd : (v :: R).Pairwise (Intervals.Apart Vma.vmStart Vma.vmEnd))
    {a : Nat} (h : v.vmStart ≤ a ∧ a < v.vmEnd) : view R a = none := by
  rw [List.pairwise_cons] at hd
  exact Intervals.lookup_eq_none_iff.2 fun w hw => Intervals.not_holds_of_apart (hd.1 w hw) h

/-- vma_remove of a VMA of the tree keeps the invariant, and takes exactly that VMA out of the family -/
theorem vmaRemove_ok (hok : VmaOk mgr T) {x : Nat} (hx : x ∈ T.ids) (hfuel : 2 * T.ids.length < fuel) :
    ∃ mgr' T', vmaRemove fuel mgr x = some (0, mgr') ∧ VmaOk mgr' T' ∧ T'.ids.length + 1 = T.ids.length ∧
      (vmaList mgr T).Perm (mgr.vmas x :: vmaList mgr' T') := by
  obtain ⟨mgr', T', hrem, hvmas, hused, hok', hids⟩ := vmaRemove_spec fuel hok.tree hx hfuel
  have hlist : vmaList mgr' T' = (T.ids.erase x).map mgr.vmas := by rw [vmaList, hids, hvmas]
  have hperm : (vmaList mgr T).Perm (mgr.vmas x :: vmaList mgr' T') := hlist ▸ vmaList_perm_erase hx
  refine ⟨mgr', T', hrem, ⟨hok', fun w hw => hok.wf w (hperm.mem_iff.2 (List.mem_cons_of_mem _ hw)), ?_⟩,
    by rw [hids, List.length_erase_of_mem hx]; have := List.length_pos_of_mem hx; omega, hperm⟩
  have hsum := (hperm.map vmaLen).sum_eq
  rw [List.map_cons, List.sum_cons, ← hok.used] at hsum
  omega

/-- after vma_remove, an address the removed VMA held is unmapped and every other keeps its view -/
theorem addrView_of_removed (hok : TreeOk mgr T) {v : Vma} (hperm : (vmaList mgr T).Perm (v :: vmaList mgr' T'))
    (a : Nat) : addrView mgr' T' a = if v.vmStart ≤ a ∧ a < v.vmEnd then none else addrView mgr T a := by
  have hd := hperm.pairwise hok.apart_vmaList fun h => h.symm
  rw [addrView_eq_view hok hperm]
  split_ifs with h
  · exact view_eq_none_of_holds hd h
  · rw [view_cons_of_not_holds h]
    rfl

end Removal

section Loops

variable {fuel : Nat} {addr «end» : Nat}

/-- one removal of a VMA that lies inside the range -/
theorem removedIn_of_remove {mgr mgr' : VmaManager} {T T' : RBTree Nat} {x : Nat} (hok : VmaOk mgr T)
    (hok' : VmaOk mgr' T') (hlen : T'.ids.length + 1 = T.ids.length)
    (hperm : (vmaList mgr T).Perm (mgr.vmas x :: vmaList mgr' T'))
    (hin : addr ≤ (mgr.vmas x).vmStart ∧ (mgr.vmas x).vmEnd ≤ «end») :
    RemovedIn addr «end» mgr T mgr' T' := by
  refine ⟨hok', fun w hw => hperm.mem_iff.2 (List.mem_cons_of_mem _ hw), by omega, fun a ha => ?_⟩
  rw [addrView_of_removed hok.tree hperm, if_neg (by omega)]

/-- vma_find_intersection finding nothing: the range is clear -/
theorem clear_of_none {mgr : VmaManager} {T : RBTree Nat}
    (h : ∀ x ∈ T.ids, ¬((mgr.vmas x).vmStart < «end» ∧ addr < (mgr.vmas x).vmEnd)) :
    Clear (vmaList mgr T) addr «end» := by
  intro w hw
  obtain ⟨y, hy, rfl⟩ := List.mem_map.1 hw
  exact h y hy

/-- the removal loop of do_munmap_locked, on a range that every VMA meeting it lies inside: it takes VMAs of the range
out one by one until none is left, or stops at the first failed writeback -/
theorem doMunmapLockedLoop_spec (wb : Nat → Nat → Nat → Int) (addr «end» loopFuel : Nat) :
    ∀ (mgr : VmaManager) (T : RBTree Nat), VmaOk mgr T → Inside (vmaList mgr T) addr «end» →
      2 * T.ids.length < fuel → T.ids.length < loopFuel →
      ∃ ret mgr' T', doMunmapLockedLoop fuel wb addr «end» mgr loopFuel = some (ret, mgr') ∧
        RemovedIn addr «end» mgr T mgr' T' ∧ (ret = 0 → Clear (vmaList mgr' T') addr «end») := by
  induction loopFuel with
  | zero => exact fun _ _ _ _ _ h => absurd h (Nat.not_lt_zero _)
  | succ n ih =>
    intro mgr T hok hin hfuel hloop
    obtain ⟨r, hfind, hnone, hsome⟩ :=
      vmaFindIntersection_spec hok.tree (show T.ids.length ≤ fuel by omega) addr «end»
    cases r with
    | none =>
      exact ⟨0, mgr, T, by simp [doMunmapLockedLoop, hfind], RemovedIn.refl hok,
        fun _ => clear_of_none (hnone.1 rfl)⟩
    | some x =>
      obtain ⟨hx, hxs, hxe⟩ := hsome x rfl
      have hxin := hin _ (List.mem_map.2 ⟨x, hx, rfl⟩) hxs hxe
      have hstr : ¬((mgr.vmas x).vmStart < addr ∨ (mgr.vmas x).vmEnd > «end») := by omega
      obtain ⟨ret, hret⟩ : ∃ ret, writebackVmaFileRange wb (mgr.vmas x) (mgr.vmas x).vmStart
          ((mgr.vmas x).vmStart + ((mgr.vmas x).vmEnd - (mgr.vmas x).vmStart)) = ret := ⟨_, rfl⟩
      by_cases hwb : ret ≥ 2 ^ 63
      · refine ⟨ret, mgr, T, ?_, RemovedIn.refl hok, fun h0 => ?_⟩
        · simp only [doMunmapLockedLoop, hfind, Option.bind_eq_bind, Option.bind_some, if_neg hstr, hret,
            if_pos hwb]
        · omega
      · obtain ⟨mgr1, T1, hrem, hok1, hlen, hperm⟩ := vmaRemove_ok hok hx hfuel
        obtain ⟨ret, mgr', T', hrun, hrm, hclear⟩ := ih mgr1 T1 hok1
          (hin.mono fun w hw => hperm.mem_iff.2 (List.mem_cons_of_mem _ hw)) (by omega) (by omega)
        refine ⟨ret, mgr', T', ?_, (removedIn_of_remove hok hok1 hlen hperm hxin).trans hrm, hclear⟩
        simp only [doMunmapLockedLoop, hfind, Option.bind_eq_bind, Option.bind_some, if_neg hstr, hret, if_neg hwb,
          hrem]
        exact hrun

/-- the removal loop of do_munmap_detach_locked, on a range that every VMA meeting it lies inside: it takes every VMA
of the range out and returns 0, so neither of its undo branches is ever taken -/
theorem doMunmapDetachLoop_spec (addr «end» loopFuel : Nat) :
    ∀ (mgr : VmaManager) (T : RBTree Nat) (head : List Nat), VmaOk mgr T → Inside (vmaList mgr T) addr «end» →
      2 * T.ids.length < fuel → T.ids.length < loopFuel →
      ∃ mgr' T' head', doMunmapDetachLoop fuel addr «end» mgr head loopFuel = some (0, mgr', head') ∧
        RemovedIn addr «end» mgr T mgr' T' ∧ Clear (vmaList mgr' T') addr «end» := by
  induction loopFuel with
  | zero => exact fun _ _ _ _ _ _ h => absurd h (Nat.not_lt_zero _)
  | succ n ih =>
    intro mgr T head hok hin hfuel hloop
    obtain ⟨r, hfind, hnone, hsome⟩ :=
      vmaFindIntersection_spec hok.tree (show T.ids.length ≤ fuel by omega) addr «end»
    cases r with
    | none =>
      exact ⟨mgr, T, head, by simp [doMunmapDetachLoop, hfind], RemovedIn.refl hok, clear_of_none (hnone.1 rfl)⟩
    | some x =>
      obtain ⟨hx, hxs, hxe⟩ := hsome x rfl
      have hxin := hin _ (List.mem_map.2 ⟨x, hx, rfl⟩) hxs hxe
      have hstr : ¬((mgr.vmas x).vmStart < addr ∨ (mgr.vmas x).vmEnd > «end») := by omega
      obtain ⟨mgr1, T1, hrem, hok1, hlen, hperm⟩ := vmaRemove_ok hok hx hfuel
      obtain ⟨mgr', T', head', hrun, hrm, hclear⟩ := ih mgr1 T1 (x :: head) hok1
        (hin.mono fun w hw => hperm.mem_iff.2 (List.mem_cons_of_mem _ hw)) (by omega) (by omega)
      refine ⟨mgr', T', head', ?_, (removedIn_of_remove hok hok1 hlen hperm hxin).trans hrm, hclear⟩
      simp only [doMunmapDetachLoop, hfind, Option.bind_eq_bind, Option.bind_some, if_neg hstr, hrem]
      exact hrun

/-- the VMAs of the tree that end above the cursor -/
def endingAbove (mgr : VmaManager) (T : RBTree Nat) (cursor : Nat) : Finset Nat :=
  T.ids.toFinset.filter fun y => cursor < (mgr.vmas y).vmEnd

/-- the check loop of do_munmap_detach_locked returns: each pass moves the cursor to the end of a VMA that ends above
it -/
theorem needsWritebackLoop_some {mgr : VmaManager} {T : RBTree Nat} (hok : TreeOk mgr T) (hfuel : T.ids.length ≤ fuel)
    («end» loopFuel : Nat) :
    ∀ cursor, (endingAbove mgr T cursor).card < loopFuel →
      ∃ b, needsWritebackLoop fuel mgr «end» cursor loopFuel = some b := by
  induction loopFuel with
  | zero => exact fun _ h => absurd h (Nat.not_lt_zero _)
  | succ n ih =>
    intro cursor hcard
    by_cases hc : cursor < «end»
    swap
    · exact ⟨false, by simp [needsWritebackLoop, hc]⟩
    obtain ⟨r, hfind, -, hsome⟩ := vmaFindIntersection_spec hok hfuel cursor «end»
    cases r with
    | none => exact ⟨false, by simp [needsWritebackLoop, hc, hfind]⟩
    | some x =>
      obtain ⟨hx, -, hxe⟩ := hsome x rfl
      by_cases hneeds : vmaNeedsFileWriteback (mgr.vmas x) = true
      · exact ⟨true, by simp [needsWritebackLoop, hc, hfind, hneeds]⟩
      have hlt : (endingAbove mgr T (mgr.vmas x).vmEnd).card < (endingAbove mgr T cursor).card := by
        refine Finset.card_lt_card ((Finset.ssubset_iff_of_subset fun y hy => ?_).2 ⟨x, ?_, ?_⟩)
        · simp only [endingAbove, Finset.mem_filter] at hy ⊢
          exact ⟨hy.1, by omega⟩
        · simpa [endingAbove] using ⟨hx, hxe⟩
        · simp [endingAbove]
      obtain ⟨b, hb⟩ := ih (mgr.vmas x).vmEnd (by omega)
      exact ⟨b, by simp [needsWritebackLoop, hc, hfind, hneeds, hb]⟩

theorem card_endingAbove_le (mgr : VmaManager) (T : RBTree Nat) (cursor : Nat) :
    (endingAbove mgr T cursor).card ≤ T.ids.length :=
  (Finset.card_filter_le _ _).trans (List.toFinset_card_le _)

end Loops

/-! ## The two paths and sys_munmap -/

section Paths

variable {fuel : Nat} {malloc : VmaManager → Option Nat} {mgr : VmaManager} {T : RBTree Nat}

/-- the boundary split of a nonempty range that succeeds leaves every VMA meeting the range inside it -/
theorem inside_of_split {mgr' : VmaManager} {T' : RBTree Nat} {start «end» : Nat} {rc : Int} (hlt : start < «end»)
    (hb : rc = 0 → start < «end» → Boundary (vmaList mgr' T') start ∧ Boundary (vmaList mgr' T') «end»)
    (h0 : rc = 0) : Inside (vmaList mgr' T') start «end» :=
  inside_of_boundary (hb h0 hlt).1 (hb h0 hlt).2

/-- do_munmap_locked: every address outside the rounded range keeps its view, and when it returns 0 no VMA meets the
range -/
theorem doMunmapLocked_spec (hmalloc : MallocFresh malloc) (hok : VmaOk mgr T) (hfuel : 2 * T.ids.length + 4 < fuel)
    (wb : Nat → Nat → Nat → Int) (hhdm addr size : Nat) :
    ∃ ret mgr' T', doMunmapLocked fuel malloc wb hhdm mgr addr size = some (ret, mgr') ∧ VmaOk mgr' T' ∧
      (∀ a, a < PADDING_DOWN addr PAGE_SIZE ∨ PADDING_DOWN addr PAGE_SIZE + PADDING_UP size PAGE_SIZE ≤ a →
        addrView mgr' T' a = addrView mgr T a) ∧
      (ret = 0 → Clear (vmaList mgr' T') (PADDING_DOWN addr PAGE_SIZE)
        (PADDING_DOWN addr PAGE_SIZE + PADDING_UP size PAGE_SIZE)) := by
  unfold doMunmapLocked
  dsimp only
  by_cases hsz : PADDING_UP size PAGE_SIZE = 0
  · rw [if_pos hsz]
    exact ⟨_, mgr, T, rfl, hok, fun _ _ => rfl, fun h => absurd h (by decide)⟩
  rw [if_neg hsz]
  by_cases hval : (!userRangeValid hhdm (PADDING_DOWN addr PAGE_SIZE) (PADDING_UP size PAGE_SIZE)) = true
  · rw [if_pos hval]
    exact ⟨_, mgr, T, rfl, hok, fun _ _ => rfl, fun h => absurd h (by decide)⟩
  rw [if_neg hval]
  obtain ⟨rc, mgr1, T1, hsplit, hs1, hl1, hrc, hb⟩ := splitVmaBoundariesLocked_spec hmalloc hok
    (show 2 * T.ids.length + 2 < fuel by omega)
    (PADDING_DOWN addr PAGE_SIZE) (PADDING_DOWN addr PAGE_SIZE + PADDING_UP size PAGE_SIZE)
  by_cases h0 : rc = 0
  · subst h0
    obtain ⟨ret, mgr', T', hloop, hrm, hclear⟩ := doMunmapLockedLoop_spec wb _ _ fuel mgr1 T1 hs1.ok
      (inside_of_split (by omega) hb rfl) (show 2 * T1.ids.length < fuel by omega) (by omega)
    refine ⟨ret, mgr', T', ?_, hrm.ok, fun a ha => (hrm.outside a ha).trans (hs1.view a), hclear⟩
    simp only [hsplit, Option.bind_eq_bind, Option.bind_some, ne_eq, not_true_eq_false, if_false]
    exact hloop
  · refine ⟨enomemRet, mgr1, T1, ?_, hs1.ok, fun a _ => hs1.view a, fun h => absurd h (by decide)⟩
    simp only [hsplit, Option.bind_eq_bind, Option.bind_some, if_pos h0]

/-- do_munmap_detach_locked: when it returns 0 no VMA meets the rounded range and every address outside it keeps its
view; when it fails, every address keeps its view -/
theorem doMunmapDetachLocked_spec (hmalloc : MallocFresh malloc) (hok : VmaOk mgr T)
    (hfuel : 2 * T.ids.length + 4 < fuel) (hhdm addr size : Nat) :
    ∃ ret mgr' T' detached, doMunmapDetachLocked fuel malloc hhdm mgr addr size = some (ret, mgr', detached) ∧
      VmaOk mgr' T' ∧ T'.ids.length ≤ T.ids.length + 2 ∧
      (ret = 0 → Clear (vmaList mgr' T') (PADDING_DOWN addr PAGE_SIZE)
          (PADDING_DOWN addr PAGE_SIZE + PADDING_UP size PAGE_SIZE) ∧
        ∀ a, a < PADDING_DOWN addr PAGE_SIZE ∨ PADDING_DOWN addr PAGE_SIZE + PADDING_UP size PAGE_SIZE ≤ a →
          addrView mgr' T' a = addrView mgr T a) ∧
      (ret ≠ 0 → ∀ a, addrView mgr' T' a = addrView mgr T a) := by
  unfold doMunmapDetachLocked
  dsimp only
  by_cases hsz : PADDING_UP size PAGE_SIZE = 0
  · rw [if_pos hsz]
    exact ⟨_, mgr, T, [], rfl, hok, by omega, fun h => absurd h (by decide), fun _ _ => rfl⟩
  rw [if_neg hsz]
  by_cases hval : (!userRangeValid hhdm (PADDING_DOWN addr PAGE_SIZE) (PADDING_UP size PAGE_SIZE)) = true
  · rw [if_pos hval]
    exact ⟨_, mgr, T, [], rfl, hok, by omega, fun h => absurd h (by decide), fun _ _ => rfl⟩
  rw [if_neg hval]
  obtain ⟨rc, mgr1, T1, hsplit, hs1, hl1, hrc, hb⟩ := splitVmaBoundariesLocked_spec hmalloc hok
    (show 2 * T.ids.length + 2 < fuel by omega)
    (PADDING_DOWN addr PAGE_SIZE) (PADDING_DOWN addr PAGE_SIZE + PADDING_UP size PAGE_SIZE)
  by_cases h0 : rc = 0
  swap
  · refine ⟨enomemRet, mgr1, T1, [], ?_, hs1.ok, hl1, fun h => absurd h (by decide), fun _ => hs1.view⟩
    simp only [hsplit, Option.bind_eq_bind, Option.bind_some, if_pos h0]
  subst h0
  obtain ⟨needs, hneeds⟩ := needsWritebackLoop_some hs1.ok.tree (show T1.ids.length ≤ fuel by omega)
    (PADDING_DOWN addr PAGE_SIZE + PADDING_UP size PAGE_SIZE) fuel (PADDING_DOWN addr PAGE_SIZE)
    ((card_endingAbove_le mgr1 T1 _).trans_lt (by omega))
  cases needs with
  | true =>
    refine ⟨2 ^ 64 - EAGAIN, mgr1, T1, [], ?_, hs1.ok, hl1, fun h => absurd h (by decide), fun _ => hs1.view⟩
    simp only [hsplit, Option.bind_eq_bind, Option.bind_some, ne_eq, not_true_eq_false, if_false, hneeds,
      if_true]
  | false =>
    obtain ⟨mgr', T', head', hloop, hrm, hclear⟩ := doMunmapDetachLoop_spec _ _ fuel mgr1 T1 [] hs1.ok
      (inside_of_split (by omega) hb rfl) (show 2 * T1.ids.length < fuel by omega) (by omega)
    refine ⟨0, mgr', T', head', ?_, hrm.ok, hrm.length_le.trans hl1,
      fun _ => ⟨hclear, fun a ha => (hrm.outside a ha).trans (hs1.view a)⟩, fun h => absurd rfl h⟩
    simp only [hsplit, Option.bind_eq_bind, Option.bind_some, ne_eq, not_true_eq_false, if_false, hneeds,
      Bool.false_eq_true]
    exact hloop

end Paths

theorem paddingDown_of_aligned {x : Nat} (hx : x % PAGE_SIZE = 0) : PADDING_DOWN x PAGE_SIZE = x := by
  unfold PADDING_DOWN PAGE_SIZE at *
  omega

/-- sys_munmap keeps the invariant, and when it returns 0 no VMA meets `[addr, addr + PADDING_UP(size))` and every
address outside that range keeps its view, on either path -/
theorem sysMunmap_spec {fuel : Nat} {malloc : VmaManager → Option Nat} {mgr : VmaManager} {T : RBTree Nat}
    (hmalloc : MallocFresh malloc) (hok : VmaOk mgr T) (hfuel : 2 * T.ids.length + 8 < fuel)
    (wb : Nat → Nat → Nat → Int) (hhdm : Nat) (singleOwner : Bool) (addr size : Nat) :
    ∃ ret mgr' T', sysMunmap fuel malloc wb hhdm singleOwner mgr addr size = some (ret, mgr') ∧ VmaOk mgr' T' ∧
      (ret = 0 → Clear (vmaList mgr' T') addr (addr + PADDING_UP size PAGE_SIZE) ∧
        ∀ a, a < addr ∨ addr + PADDING_UP size PAGE_SIZE ≤ a → addrView mgr' T' a = addrView mgr T a) := by
  unfold sysMunmap
  by_cases hal : addr % PAGE_SIZE ≠ 0
  · rw [if_pos hal]
    exact ⟨_, mgr, T, rfl, hok, fun h => absurd h (by decide)⟩
  rw [if_neg hal]
  have hdown := paddingDown_of_aligned (not_not.1 hal)
  have hlocked : ∀ (mgr1 : VmaManager) (T1 : RBTree Nat), VmaOk mgr1 T1 → 2 * T1.ids.length + 4 < fuel →
      (∀ a, addrView mgr1 T1 a = addrView mgr T a) →
      ∃ ret mgr' T', doMunmapLocked fuel malloc wb hhdm mgr1 addr size = some (ret, mgr') ∧ VmaOk mgr' T' ∧
        (ret = 0 → Clear (vmaList mgr' T') addr (addr + PADDING_UP size PAGE_SIZE) ∧
          ∀ a, a < addr ∨ addr + PADDING_UP size PAGE_SIZE ≤ a → addrView mgr' T' a = addrView mgr T a) := by
    intro mgr1 T1 hok1 hfuel1 hview1
    obtain ⟨ret, mgr', T', hrun, hok', hout, hclear⟩ := doMunmapLocked_spec hmalloc hok1 hfuel1 wb hhdm addr size
    rw [hdown] at hout hclear
    exact ⟨ret, mgr', T', hrun, hok', fun h0 => ⟨hclear h0, fun a ha => (hout a ha).trans (hview1 a)⟩⟩
  cases singleOwner with
  | false => simpa using hlocked mgr T hok (by omega) fun _ => rfl
  | true =>
    obtain ⟨ret, mgr1, T1, det, hdet, hok1, hl1, hzero, hfail⟩ :=
      doMunmapDetachLocked_spec hmalloc hok (show 2 * T.ids.length + 4 < fuel by omega) hhdm addr size
    rw [hdown] at hzero
    by_cases hag : ret = 2 ^ 64 - EAGAIN
    · obtain ⟨ret', mgr', T', hrun, hok', h'⟩ := hlocked mgr1 T1 hok1 (by omega) (hfail (by rw [hag]; decide))
      refine ⟨ret', mgr', T', ?_, hok', h'⟩
      simp only [hdet, Option.bind_eq_bind, Option.bind_some, if_pos hag, ↓reduceIte]
      exact hrun
    · refine ⟨ret, mgr1, T1, ?_, hok1, hzero⟩
      simp only [hdet, Option.bind_eq_bind, Option.bind_some, if_neg hag, ↓reduceIte]

/-! ## munmap on a manager that keeps the invariant -/

section UnmapsRange

variable {fuel : Nat} {malloc : VmaManager → Option Nat} {mgr : VmaManager} {T : RBTree Nat}

theorem sys_munmap_unmaps_range (hmalloc : MallocFresh malloc) (hok : VmaOk mgr T)
    (hfuel : 2 * T.ids.length + 8 < fuel) :
    (∀ wb hhdm singleOwner addr size, ∃ ret mgr' T',
      sysMunmap fuel malloc wb hhdm singleOwner mgr addr size = some (ret, mgr') ∧ VmaOk mgr' T' ∧
        (ret = 0 → Clear (vmaList mgr' T') addr (addr + PADDING_UP size PAGE_SIZE) ∧
          ∀ a, a < addr ∨ addr + PADDING_UP size PAGE_SIZE ≤ a → addrView mgr' T' a = addrView mgr T a)) ∧
    (∀ start «end», start < «end» → ∃ rc mgr' T',
      splitVmaBoundariesLocked fuel malloc mgr start «end» = some (rc, mgr') ∧ VmaOk mgr' T' ∧
        (∀ a, addrView mgr' T' a = addrView mgr T a) ∧
        (rc = 0 → Boundary (vmaList mgr' T') start ∧ Boundary (vmaList mgr' T') «end»)) ∧
    (∀ hhdm addr size ret mgr' detached,
      doMunmapDetachLocked fuel malloc hhdm mgr addr size = some (ret, mgr', detached) → ret ≠ 0 →
        ∃ T', VmaOk mgr' T' ∧ ∀ a, addrView mgr' T' a = addrView mgr T a) := by
  refine ⟨fun wb hhdm singleOwner addr size => sysMunmap_spec hmalloc hok hfuel wb hhdm singleOwner addr size,
    fun start «end» hlt => ?_, fun hhdm addr size ret mgr' detached hdet hne => ?_⟩
  · obtain ⟨rc, mgr', T', hsplit, hs, -, -, hb⟩ :=
      splitVmaBoundariesLocked_spec hmalloc hok (show 2 * T.ids.length + 2 < fuel by omega) start «end»
    exact ⟨rc, mgr', T', hsplit, hs.ok, hs.view, fun h0 => hb h0 hlt⟩
  · obtain ⟨ret', mgr'', T', det', hdet', hok', -, -, hfail⟩ :=
      doMunmapDetachLocked_spec hmalloc hok (show 2 * T.ids.length + 4 < fuel by omega) hhdm addr size
    obtain ⟨rfl, rfl, -⟩ : ret = ret' ∧ mgr' = mgr'' ∧ detached = det' := by simpa [hdet] using hdet'
    exact ⟨T', hok', hfail hne⟩

/-- the manager with one VMA `[0x1000, 0x4000)`, the allocator of the first empty node, and eleven steps of fuel;
unmapping the middle page splits the VMA at both ends and leaves `[0x1000, 0x2000)` and `[0x3000, 0x4000)` -/
theorem sys_munmap_unmaps_range_pageVma :
    MallocFresh (firstEmptyVma 4) ∧ VmaOk pageVma (.node .leaf .black 1 .leaf) ∧
      (∀ wb hhdm singleOwner addr size, ∃ ret mgr' T',
        sysMunmap 11 (firstEmptyVma 4) wb hhdm singleOwner pageVma addr size = some (ret, mgr') ∧ VmaOk mgr' T' ∧
          (ret = 0 → Clear (vmaList mgr' T') addr (addr + PADDING_UP size PAGE_SIZE) ∧
            ∀ a, a < addr ∨ addr + PADDING_UP size PAGE_SIZE ≤ a →
              addrView mgr' T' a = addrView pageVma (.node .leaf .black 1 .leaf) a)) ∧
      (sysMunmap 11 (firstEmptyVma 4) (fun _ _ _ => 0) 0xffff800000000000 false pageVma 0x2000 0x1000).map
        (fun r => (r.1, r.2.vmUsed, (r.2.vmas 1).vmEnd, (r.2.vmas 3).vmStart)) = some (0, 0x2000, 0x2000, 0x3000) :=
  ⟨mallocFresh_firstEmptyVma 4, pageVma_ok,
    (sys_munmap_unmaps_range (mallocFresh_firstEmptyVma 4) pageVma_ok (by decide)).1, by decide⟩

end UnmapsRange

end Naos.Vmas
