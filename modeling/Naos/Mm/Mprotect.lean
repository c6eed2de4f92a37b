/-
sys_mprotect of mm/mm_syscall.c, and the guard calls of madvise: madvise_guard_install_range and
madvise_guard_remove_range.

Each checks the range, splits the VMAs at its two ends (split_vma_boundaries_locked, modelled in `Munmap`), rewrites
the flags of every VMA in it, has update_vma_pte_attrs_locked rewrite the page-table entries, and merges the VMAs of
the range with their neighbours (merge_vma_range_locked). A guard VMA keeps no access bits: its access is saved in bits
9 to 11 of vm_flags (VMA_GUARD_SAVED_MASK). update_vma_pte_attrs_locked writes only the page tables; `ptes` is what
it returns. The flag words are the `uint64_t` vm_flags, and `~mask` is its 64-bit complement (`uNot`). The cursor loops
move the cursor on by at least one byte each pass, so the length of the range bounds their passes.

The three calls share what they do under the lock once the range is known (`rewriteRangeLocked`), and differ in
the checks before it and in the flag rewrite they pass it.

Results:
- `mprotectFlags_of_not_guard`, `mprotectFlags_of_guard`, `guard_round_trip_flags`: what the flag rewrites do to
  the access bits, the guard bit and the saved access;
- `rangeFullyCoveredLoop_spec`, `madviseGuardValidateLoop_spec`: the two checks say whether every address of the
  range is mapped, and mapped by a private anonymous VMA;
- `rewriteFlagsLoop_spec`: a flag loop on a covered range whose VMAs lie inside it rewrites the flags of exactly
  those VMAs, so of exactly the addresses of the range (`addrView_of_rewriteIn`);
- `mergeVmaRangeLoop_spec`: the merge pass keeps the invariant and every address's view;
- `rewriteRangeLocked_spec`, `sysMprotect_spec`, `madviseGuardInstallRange_spec`, `guard_install_remove_spec`: the
  calls on a manager that keeps the invariant keep it, change no address outside the range, and rewrite the flags of
  every address inside it.
-/
import Mathlib
import Naos.Mm.Munmap

namespace Naos.Vmas

open RedBlack RBTree Naos.RbTree VmaManager
open Naos.Buddy (PAGE_SIZE PADDING_DOWN PADDING_UP)

/-! ## The model -/

def VMA_READ : Nat := 0x1
def VMA_EXEC : Nat := 0x4
def VMA_SHM : Nat := 0x20
def VMA_GUARD : Nat := 0x100
def VMA_GUARD_SAVED_SHIFT : Nat := 9
def VMA_GUARD_SAVED_MASK : Nat := 0x7 <<< VMA_GUARD_SAVED_SHIFT

def PROT_READ : Nat := 0x1
def PROT_WRITE : Nat := 0x2
def PROT_EXEC : Nat := 0x4

/-- `~mask` of a `uint64_t` -/
def uNot (mask : Nat) : Nat := (2 ^ 64 - 1) ^^^ mask

/-- vm_flags_access_bits -/
def vmFlagsAccessBits (vmFlags : Nat) : Nat := vmFlags &&& (VMA_READ ||| VMA_WRITE ||| VMA_EXEC)

/-- vma_guard_saved_access -/
def vmaGuardSavedAccess (vmFlags : Nat) : Nat := (vmFlags &&& VMA_GUARD_SAVED_MASK) >>> VMA_GUARD_SAVED_SHIFT

/-- vma_guard_set_saved_access, on the flags it rewrites -/
def vmaGuardSetSavedAccess (vmFlags access : Nat) : Nat :=
  let vmFlags := vmFlags &&& uNot VMA_GUARD_SAVED_MASK
  vmFlags ||| (access &&& (VMA_READ ||| VMA_WRITE ||| VMA_EXEC)) <<< VMA_GUARD_SAVED_SHIFT

/-- prot_to_vma_access_flags -/
def protToVmaAccessFlags (prot : Nat) : Nat :=
  let vmFlags := 0
  let vmFlags := if prot &&& PROT_READ ≠ 0 then vmFlags ||| VMA_READ else vmFlags
  let vmFlags := if prot &&& PROT_WRITE ≠ 0 then vmFlags ||| VMA_WRITE else vmFlags
  if prot &&& PROT_EXEC ≠ 0 then vmFlags ||| VMA_EXEC else vmFlags

/-- the loop of range_fully_covered_locked from `cursor` -/
def rangeFullyCoveredLoop (fuel : Nat) (mgr : VmaManager) («end» : Nat) : (cursor loopFuel : Nat) → Option Bool
  | _, 0 => none
  | cursor, loopFuel + 1 =>
    if cursor < «end» then do
      let found ← vmaFind fuel mgr cursor
      match found with
      | none => some false
      | some vma =>
        let v := mgr.vmas vma
        if v.vmEnd ≤ cursor then some false
        else rangeFullyCoveredLoop fuel mgr «end» (if v.vmEnd < «end» then v.vmEnd else «end») loopFuel
    else some true

/-- range_fully_covered_locked -/
def rangeFullyCoveredLocked (fuel : Nat) (mgr : VmaManager) (start «end» : Nat) : Option Bool :=
  rangeFullyCoveredLoop fuel mgr «end» start («end» - start + 1)

/-- the flag loops of sys_mprotect and of the guard calls: the VMA vma_find gives at the cursor gets its flags
rewritten by `update`, and the cursor moves to its end, clipped at `end` when `clip` is set (`MIN(vma->vm_end, end)`
in the guard calls, `vma->vm_end` in sys_mprotect) -/
def rewriteFlagsLoop (fuel : Nat) (update : Nat → Nat) (clip : Bool) («end» : Nat) :
    (mgr : VmaManager) → (cursor loopFuel : Nat) → Option (Nat × VmaManager)
  | _, _, 0 => none
  | mgr, cursor, loopFuel + 1 =>
    if cursor < «end» then do
      let found ← vmaFind fuel mgr cursor
      match found with
      | none => some (enomemRet, mgr)
      | some vma =>
        let v := mgr.vmas vma
        let mgr := mgr.setVma vma { v with vmFlags := update v.vmFlags }
        rewriteFlagsLoop fuel update clip «end» mgr (if clip then min v.vmEnd «end» else v.vmEnd) loopFuel
    else some (0, mgr)

/-- the loop of merge_vma_range_locked from `cursor` -/
def mergeVmaRangeLoop (fuel : Nat) («end» : Nat) : (mgr : VmaManager) → (cursor loopFuel : Nat) →
    Option (Nat × VmaManager)
  | _, _, 0 => none
  | mgr, cursor, loopFuel + 1 =>
    if cursor < «end» then do
      let found ← vmaFind fuel mgr cursor
      match found with
      | none => some (enomemRet, mgr)
      | some vma =>
        let nextCursor := min (mgr.vmas vma).vmEnd «end»
        let (mgr, vma) ← vmaTryMergeAround fuel mgr vma
        let nextCursor := if (mgr.vmas vma).vmEnd > nextCursor then (mgr.vmas vma).vmEnd else nextCursor
        mergeVmaRangeLoop fuel «end» mgr nextCursor loopFuel
    else some (0, mgr)

/-- merge_vma_range_locked -/
def mergeVmaRangeLocked (fuel : Nat) (mgr : VmaManager) (start «end» : Nat) : Option (Nat × VmaManager) :=
  mergeVmaRangeLoop fuel «end» mgr start («end» - start + 1)

/-- the flag rewrite of sys_mprotect -/
def mprotectFlags (newVmAccess vmFlags : Nat) : Nat :=
  if vmFlags &&& VMA_GUARD ≠ 0 then
    vmaGuardSetSavedAccess vmFlags newVmAccess &&& uNot (VMA_READ ||| VMA_WRITE ||| VMA_EXEC)
  else (vmFlags &&& uNot (VMA_READ ||| VMA_WRITE ||| VMA_EXEC)) ||| newVmAccess

/-- what sys_mprotect and the two guard calls do under mgr->lock on `[addr, addr + len)`: split its boundaries,
rewrite the flags of its VMAs by `update`, take `ptes` from update_vma_pte_attrs_locked, and merge the range -/
def rewriteRangeLocked (fuel : Nat) (malloc : VmaManager → Option Nat) (ptes : Nat) (update : Nat → Nat) (clip : Bool)
    (mgr : VmaManager) (addr len : Nat) : Option (Nat × VmaManager) := do
  let «end» := addr + len
  let (rc, mgr) ← splitVmaBoundariesLocked fuel malloc mgr addr «end»
  if rc ≠ 0 then some (enomemRet, mgr)
  else
    let (ret, mgr) ← rewriteFlagsLoop fuel update clip «end» mgr addr (len + 1)
    if ret ≠ 0 then some (ret, mgr)
    else if ptes ≠ 0 then some (ptes, mgr)
    else mergeVmaRangeLocked fuel mgr addr «end»

/-- sys_mprotect, under mgr->lock; `ptes` is what update_vma_pte_attrs_locked returns -/
def sysMprotect (fuel : Nat) (malloc : VmaManager → Option Nat) (hhdm ptes : Nat) (mgr : VmaManager)
    (addr len prot : Nat) : Option (Nat × VmaManager) :=
  if addr % PAGE_SIZE ≠ 0 then some (2 ^ 64 - EINVAL, mgr)
  else if prot &&& uNot (PROT_READ ||| PROT_WRITE ||| PROT_EXEC) ≠ 0 then some (2 ^ 64 - EINVAL, mgr)
  else
    let len := PADDING_UP len PAGE_SIZE
    if len = 0 then some (2 ^ 64 - EINVAL, mgr)
    else if !userRangeValid hhdm addr len then some (2 ^ 64 - EFAULT, mgr)
    else do
      let «end» := addr + len
      let newVmAccess := protToVmaAccessFlags prot
      let covered ← rangeFullyCoveredLocked fuel mgr addr «end»
      if !covered then some (enomemRet, mgr)
      else rewriteRangeLocked fuel malloc ptes (mprotectFlags newVmAccess) false mgr addr len

/-- the loop of madvise_guard_validate_vmas from `cursor` -/
def madviseGuardValidateLoop (fuel : Nat) (mgr : VmaManager) («end» : Nat) : (cursor loopFuel : Nat) → Option Int
  | _, 0 => none
  | cursor, loopFuel + 1 =>
    if cursor < «end» then do
      let found ← vmaFind fuel mgr cursor
      match found with
      | none => some (-(ENOMEM : Int))
      | some vma =>
        let v := mgr.vmas vma
        if v.vmType ≠ .anon ∨ v.vmFlags &&& (VMA_SHARED ||| VMA_SHM ||| VMA_DEVICE) ≠ 0 then some (-(EINVAL : Int))
        else madviseGuardValidateLoop fuel mgr «end» (min v.vmEnd «end») loopFuel
    else some 0

/-- madvise_guard_validate_vmas -/
def madviseGuardValidateVmas (fuel : Nat) (mgr : VmaManager) (addr «end» : Nat) : Option Int :=
  madviseGuardValidateLoop fuel mgr «end» addr («end» - addr + 1)

/-- the flag rewrite of madvise_guard_install_range -/
def guardInstallFlags (vmFlags : Nat) : Nat :=
  let vmFlags :=
    if vmFlags &&& VMA_GUARD = 0 then vmaGuardSetSavedAccess vmFlags (vmFlagsAccessBits vmFlags) ||| VMA_GUARD
    else vmFlags
  vmFlags &&& uNot (VMA_READ ||| VMA_WRITE ||| VMA_EXEC)

/-- the flag rewrite of madvise_guard_remove_range -/
def guardRemoveFlags (vmFlags : Nat) : Nat :=
  if vmFlags &&& VMA_GUARD ≠ 0 then
    let savedAccess := vmaGuardSavedAccess vmFlags
    (vmFlags &&& uNot (VMA_READ ||| VMA_WRITE ||| VMA_EXEC ||| VMA_GUARD ||| VMA_GUARD_SAVED_MASK)) ||| savedAccess
  else vmFlags

/-- madvise_guard_install_range; the check runs under its own hold of mgr->lock, and no other thread runs between
the two -/
def madviseGuardInstallRange (fuel : Nat) (malloc : VmaManager → Option Nat) (ptes : Nat) (mgr : VmaManager)
    (addr len : Nat) : Option (Nat × VmaManager) := do
  let checkRet ← madviseGuardValidateVmas fuel mgr addr (addr + len)
  if checkRet < 0 then some ((checkRet % 2 ^ 64).toNat, mgr)
  else rewriteRangeLocked fuel malloc ptes guardInstallFlags true mgr addr len

/-- madvise_guard_remove_range -/
def madviseGuardRemoveRange (fuel : Nat) (malloc : VmaManager → Option Nat) (ptes : Nat) (mgr : VmaManager)
    (addr len : Nat) : Option (Nat × VmaManager) :=
  rewriteRangeLocked fuel malloc ptes guardRemoveFlags true mgr addr len

/-- a manager with one private anonymous guard VMA `[0x1000, 0x4000)` at node 1, whose saved access is read and
write -/
def guardVma : VmaManager :=
  { pageVma with vmas := fun i => if i = 1 then { pageVma.vmas 1 with vmFlags := VMA_GUARD ||| 3 <<< 9 } else vmaZero }

/-! ## The flag rewrites -/

section FlagBits

variable {f a : Nat}

theorem access_mask_eq : VMA_READ ||| VMA_WRITE ||| VMA_EXEC = 7 := rfl

/-- the masks of vm_flags, as numbers, for simp to compute with -/
theorem flag_masks : VMA_READ = 1 ∧ VMA_WRITE = 2 ∧ VMA_EXEC = 4 ∧ VMA_GUARD = 0x100 ∧ VMA_GUARD_SAVED_SHIFT = 9 ∧
    VMA_GUARD_SAVED_MASK = 0xE00 :=
  ⟨rfl, rfl, rfl, rfl, rfl, rfl⟩

theorem and_of_access (ha : a &&& 7 = a) (m : Nat) : a &&& m = a &&& (7 &&& m) := by
  rw [← Nat.and_assoc, ha]

/-- the saved access, moved to bits 9 to 11 -/
theorem saved_shift_and (a m : Nat) : (a &&& 7) <<< VMA_GUARD_SAVED_SHIFT &&& m = a <<< 9 &&& (0xE00 &&& m) := by
  rw [Nat.shiftLeft_and_distrib, Nat.and_assoc]
  rfl

/-- what vma_guard_set_saved_access leaves in a mask that does not meet bits 9 to 11 -/
theorem vmaGuardSetSavedAccess_and (f a m : Nat) :
    vmaGuardSetSavedAccess f a &&& m = f &&& (uNot VMA_GUARD_SAVED_MASK &&& m) ||| a <<< 9 &&& (0xE00 &&& m) := by
  simp only [vmaGuardSetSavedAccess, access_mask_eq]
  rw [Nat.and_or_distrib_right, Nat.and_assoc, saved_shift_and]

/-- the access vma_guard_set_saved_access saves -/
theorem vmaGuardSavedAccess_set (f a : Nat) : vmaGuardSavedAccess (vmaGuardSetSavedAccess f a) = a &&& 7 := by
  unfold vmaGuardSavedAccess
  rw [vmaGuardSetSavedAccess_and]
  have : uNot VMA_GUARD_SAVED_MASK &&& VMA_GUARD_SAVED_MASK = 0 := by decide
  rw [this, Nat.and_zero, Nat.zero_or, show 0xE00 &&& VMA_GUARD_SAVED_MASK = 7 <<< 9 from rfl,
    ← Nat.shiftLeft_and_distrib]
  exact Nat.shiftLeft_shiftRight _ _

/-- sys_mprotect on a VMA that is no guard: the new access, and still no guard -/
theorem mprotectFlags_of_not_guard (ha : a &&& 7 = a) (hg : f &&& VMA_GUARD = 0) :
    vmFlagsAccessBits (mprotectFlags a f) = a ∧ mprotectFlags a f &&& VMA_GUARD = 0 := by
  simp only [mprotectFlags, hg, ne_eq, not_true_eq_false, if_false, vmFlagsAccessBits, access_mask_eq]
  constructor
  · rw [Nat.and_or_distrib_right, Nat.and_assoc, ha]
    simp [uNot]
  · rw [Nat.and_or_distrib_right, Nat.and_assoc, and_of_access ha]
    simpa [uNot, flag_masks] using hg

/-- sys_mprotect on a guard VMA: no access, still a guard, and the new access saved -/
theorem mprotectFlags_of_guard (ha : a &&& 7 = a) (hg : f &&& VMA_GUARD ≠ 0) :
    vmFlagsAccessBits (mprotectFlags a f) = 0 ∧ mprotectFlags a f &&& VMA_GUARD ≠ 0 ∧
      vmaGuardSavedAccess (mprotectFlags a f) = a := by
  simp only [mprotectFlags, hg, ne_eq, not_false_eq_true, if_true, vmFlagsAccessBits, access_mask_eq]
  refine ⟨?_, ?_, ?_⟩
  · rw [Nat.and_assoc]
    simp [uNot]
  · rw [Nat.and_assoc, vmaGuardSetSavedAccess_and]
    simpa [uNot, flag_masks] using hg
  · have : vmaGuardSetSavedAccess f a &&& uNot 7 &&& VMA_GUARD_SAVED_MASK =
        vmaGuardSetSavedAccess f a &&& VMA_GUARD_SAVED_MASK := by
      rw [Nat.and_assoc]
      rfl
    rw [vmaGuardSavedAccess, this, ← vmaGuardSavedAccess, vmaGuardSavedAccess_set, ha]

theorem vmaGuardSavedAccess_and_access (f : Nat) : vmaGuardSavedAccess f &&& 7 = vmaGuardSavedAccess f := by
  unfold vmaGuardSavedAccess
  rw [Nat.shiftRight_and_distrib, Nat.and_assoc]
  rfl

/-- the saved access after the write of the access bits or of the guard bit -/
theorem vmaGuardSavedAccess_and_not_access (f : Nat) :
    vmaGuardSavedAccess (f &&& uNot (VMA_READ ||| VMA_WRITE ||| VMA_EXEC)) = vmaGuardSavedAccess f := by
  unfold vmaGuardSavedAccess
  rw [Nat.and_assoc]
  rfl

/-- madvise guard install then remove: a VMA that was no guard gets its access bits back, a guard VMA gets the access
it had saved, and neither is a guard after -/
theorem guard_round_trip_flags (f : Nat) :
    vmFlagsAccessBits (guardRemoveFlags (guardInstallFlags f)) =
        (if f &&& VMA_GUARD = 0 then vmFlagsAccessBits f else vmaGuardSavedAccess f) ∧
      guardRemoveFlags (guardInstallFlags f) &&& VMA_GUARD = 0 := by
  have hinst : guardInstallFlags f &&& VMA_GUARD ≠ 0 ∧ vmaGuardSavedAccess (guardInstallFlags f) =
      if f &&& VMA_GUARD = 0 then vmFlagsAccessBits f else vmaGuardSavedAccess f := by
    unfold guardInstallFlags
    split_ifs with hg
    · refine ⟨?_, ?_⟩
      · rw [Nat.and_assoc, Nat.and_or_distrib_right]
        simp [uNot, flag_masks]
      · have hgm : VMA_GUARD &&& VMA_GUARD_SAVED_MASK = 0 := rfl
        rw [vmaGuardSavedAccess_and_not_access, vmaGuardSavedAccess, Nat.and_or_distrib_right, hgm, Nat.or_zero,
          ← vmaGuardSavedAccess, vmaGuardSavedAccess_set, vmFlagsAccessBits, access_mask_eq, Nat.and_assoc]
        rfl
    · refine ⟨?_, vmaGuardSavedAccess_and_not_access f⟩
      rw [Nat.and_assoc]
      simpa [uNot, flag_masks] using hg
  obtain ⟨hg, hsaved⟩ := hinst
  simp only [guardRemoveFlags, hg, ne_eq, not_false_eq_true, if_true, vmFlagsAccessBits, access_mask_eq]
  constructor
  · rw [Nat.and_or_distrib_right, Nat.and_assoc, vmaGuardSavedAccess_and_access, hsaved]
    simp [uNot, flag_masks, vmFlagsAccessBits]
  · rw [Nat.and_or_distrib_right, Nat.and_assoc, and_of_access (vmaGuardSavedAccess_and_access _)]
    simp [uNot, flag_masks]

end FlagBits
/-! ## Covered ranges and the flags of a range -/

/-- every address of `[s, e)` is mapped -/
def Covered (mgr : VmaManager) (T : RBTree Nat) (s e : Nat) : Prop := ∀ a, s ≤ a → a < e → addrView mgr T a ≠ none

/-- the VMA with its flags rewritten by `update` when it lies inside `[s, e)` -/
def rewriteIn (update : Nat → Nat) (s e : Nat) (v : Vma) : Vma :=
  if s ≤ v.vmStart ∧ v.vmEnd ≤ e then { v with vmFlags := update v.vmFlags } else v

/-- the view of an address with its flags rewritten by `update` when it lies in `[s, e)` -/
def AddrView.rewriteAt (update : Nat → Nat) (s e a : Nat) (w : AddrView) : AddrView :=
  if s ≤ a ∧ a < e then { w with flags := update w.flags } else w

section Cover

variable {fuel : Nat} {mgr : VmaManager} {T : RBTree Nat} {s e a : Nat}

/-- an address that a VMA of the tree holds is mapped -/
theorem addrView_ne_none {x : Nat} (hx : x ∈ T.ids) (ha : (mgr.vmas x).vmStart ≤ a ∧ a < (mgr.vmas x).vmEnd) :
    addrView mgr T a ≠ none := fun h =>
  Intervals.lookup_eq_none_iff.1 h _ (List.mem_map.2 ⟨x, hx, rfl⟩) ha

/-- an address that a VMA of the tree holds sees that VMA -/
theorem addrView_of_holds (hok : TreeOk mgr T) {x : Nat} (hx : x ∈ T.ids)
    (ha : (mgr.vmas x).vmStart ≤ a ∧ a < (mgr.vmas x).vmEnd) : addrView mgr T a = some ((mgr.vmas x).viewAt a) :=
  (Intervals.lookup_eq_some_iff hok.apart_vmaList).2 ⟨_, List.mem_map.2 ⟨x, hx, rfl⟩, ha, rfl⟩

/-- vma_find at a mapped address gives the VMA that holds it -/
theorem vmaFind_of_mapped (hok : TreeOk mgr T) (hfuel : T.ids.length ≤ fuel) (ha : addrView mgr T a ≠ none) :
    ∃ x, vmaFind fuel mgr a = some (some x) ∧ x ∈ T.ids ∧ (mgr.vmas x).vmStart ≤ a ∧ a < (mgr.vmas x).vmEnd := by
  obtain ⟨r, hfind, hnone, hsome⟩ := vmaFind_spec hok hfuel a
  cases r with
  | none =>
    refine absurd (Intervals.lookup_eq_none_iff.2 fun w hw => ?_) ha
    obtain ⟨y, hy, rfl⟩ := List.mem_map.1 hw
    exact hnone rfl y hy
  | some x => exact ⟨x, hfind, hsome x rfl⟩

theorem Covered.of_le_end {e' : Nat} (h : Covered mgr T s e) (he : e' ≤ e) : Covered mgr T s e' :=
  fun a ha hae => h a ha (by omega)

theorem Covered.mono {s' : Nat} (h : Covered mgr T s e) (hs : s ≤ s') : Covered mgr T s' e :=
  fun a ha hae => h a (hs.trans ha) hae

/-- a range is covered when the VMA that holds its start covers it up to some point, and it is covered from there -/
theorem Covered.of_vma {x n : Nat} (hx : x ∈ T.ids) (hs : (mgr.vmas x).vmStart ≤ s) (hn : n ≤ (mgr.vmas x).vmEnd)
    (h : Covered mgr T n e) : Covered mgr T s e := by
  intro a ha hae
  by_cases han : a < n
  · exact addrView_ne_none hx ⟨hs.trans ha, by omega⟩
  · exact h a (by omega) hae

/-- the loop of range_fully_covered_locked says whether `[cursor, end)` is covered -/
theorem rangeFullyCoveredLoop_spec (hok : TreeOk mgr T) (hfuel : T.ids.length ≤ fuel) («end» loopFuel : Nat) :
    ∀ cursor, «end» - cursor < loopFuel → ∃ b, rangeFullyCoveredLoop fuel mgr «end» cursor loopFuel = some b ∧
      (b = true ↔ Covered mgr T cursor «end») := by
  induction loopFuel with
  | zero => exact fun _ h => absurd h (Nat.not_lt_zero _)
  | succ n ih =>
    intro cursor hloop
    by_cases hc : cursor < «end»
    swap
    · exact ⟨true, by simp [rangeFullyCoveredLoop, hc], by simp only [true_iff]; exact fun a ha hae => by omega⟩
    obtain ⟨r, hfind, hnone, hsome⟩ := vmaFind_spec hok hfuel cursor
    cases r with
    | none =>
      refine ⟨false, by simp [rangeFullyCoveredLoop, hc, hfind], ?_⟩
      simp only [Bool.false_eq_true, false_iff]
      intro hcov
      obtain ⟨x, hx, -, hxc⟩ := vmaFind_of_mapped hok hfuel (hcov cursor le_rfl hc)
      exact absurd hx (by simp [hfind])
    | some x =>
      obtain ⟨hx, hxs, hxe⟩ := hsome x rfl
      obtain ⟨b, hb, hiff⟩ := ih (if (mgr.vmas x).vmEnd < «end» then (mgr.vmas x).vmEnd else «end») (by split_ifs <;> omega)
      refine ⟨b, ?_, hiff.trans ⟨fun h => h.of_vma hx hxs (by split_ifs <;> omega), fun h => h.mono (by split_ifs <;> omega)⟩⟩
      simp only [rangeFullyCoveredLoop, hc, hfind, if_true, Option.bind_eq_bind, Option.bind_some,
        show ¬(mgr.vmas x).vmEnd ≤ cursor by omega, if_false]
      exact hb

end Cover

section Rewrite

variable {fuel : Nat} {mgr mgr' : VmaManager} {T : RBTree Nat} {update : Nat → Nat} {s e a : Nat}

@[simp] theorem vmStart_rewriteIn (v : Vma) : (rewriteIn update s e v).vmStart = v.vmStart := by
  unfold rewriteIn
  split_ifs <;> rfl

@[simp] theorem vmEnd_rewriteIn (v : Vma) : (rewriteIn update s e v).vmEnd = v.vmEnd := by
  unfold rewriteIn
  split_ifs <;> rfl

/-- managers whose VMAs of the tree keep their ranges have the same mapped addresses -/
theorem Covered.of_ranges (h : Covered mgr T s e)
    (hr : ∀ y ∈ T.ids, (mgr'.vmas y).vmStart = (mgr.vmas y).vmStart ∧ (mgr'.vmas y).vmEnd = (mgr.vmas y).vmEnd) :
    Covered mgr' T s e := by
  intro a ha hae hnone
  refine h a ha hae (Intervals.lookup_eq_none_iff.2 fun w hw => ?_)
  obtain ⟨y, hy, rfl⟩ := List.mem_map.1 hw
  have := Intervals.lookup_eq_none_iff.1 hnone _ (List.mem_map.2 ⟨y, hy, rfl⟩)
  unfold Intervals.Holds at this ⊢
  rw [(hr y hy).1, (hr y hy).2] at this
  exact this

/-- the VMAs after the one at the cursor: lying inside the range from the cursor, and from that VMA's end on, are the
same -/
theorem inside_after (hok : TreeOk mgr T) {x y c : Nat} (hx : x ∈ T.ids) (hy : y ∈ T.ids) (hyx : y ≠ x)
    (hxs : (mgr.vmas x).vmStart = c) :
    (c ≤ (mgr.vmas y).vmStart ∧ (mgr.vmas y).vmEnd ≤ e) ↔
      ((mgr.vmas x).vmEnd ≤ (mgr.vmas y).vmStart ∧ (mgr.vmas y).vmEnd ≤ e) := by
  have hd := hok.disjoint hy hx hyx
  have hny := hok.nonempty y hy
  have hnx := hok.nonempty x hx
  unfold Disjoint Intervals.Apart at hd
  omega

/-- a flag loop on a covered range whose VMAs lie inside it: it returns 0, keeps the tree, and rewrites the flags of
exactly the VMAs inside the range -/
theorem rewriteFlagsLoop_spec (hfuel : T.ids.length ≤ fuel) (update : Nat → Nat) (clip : Bool) («end» loopFuel : Nat) :
    ∀ (mgr : VmaManager) cursor, TreeOk mgr T → Covered mgr T cursor «end» → Inside (vmaList mgr T) cursor «end» →
      «end» - cursor < loopFuel →
      ∃ mgr', rewriteFlagsLoop fuel update clip «end» mgr cursor loopFuel = some (0, mgr') ∧
        mgr'.vmaTree = mgr.vmaTree ∧ mgr'.vmUsed = mgr.vmUsed ∧
        ∀ y ∈ T.ids, mgr'.vmas y = rewriteIn update cursor «end» (mgr.vmas y) := by
  induction loopFuel with
  | zero => exact fun _ _ _ _ _ h => absurd h (Nat.not_lt_zero _)
  | succ n ih =>
    intro mgr cursor hok hcov hin hloop
    by_cases hc : cursor < «end»
    swap
    · refine ⟨mgr, by simp [rewriteFlagsLoop, hc], rfl, rfl, fun y hy => ?_⟩
      have := hok.nonempty y hy
      rw [rewriteIn, if_neg (by omega)]
    obtain ⟨x, hfind, hx, hxs, hxe⟩ := vmaFind_of_mapped hok hfuel (hcov cursor le_rfl hc)
    have hxin := hin _ (List.mem_map.2 ⟨x, hx, rfl⟩) (by omega) hxe
    have hxc : (mgr.vmas x).vmStart = cursor := by omega
    have hother : ∀ y, y ≠ x →
        (mgr.setVma x { mgr.vmas x with vmFlags := update (mgr.vmas x).vmFlags }).vmas y = mgr.vmas y :=
      fun y hy => by simp [setVma, Function.update_of_ne hy]
    have hself : (mgr.setVma x { mgr.vmas x with vmFlags := update (mgr.vmas x).vmFlags }).vmas x =
        { mgr.vmas x with vmFlags := update (mgr.vmas x).vmFlags } := by simp [setVma]
    have hranges : ∀ y ∈ T.ids,
        ((mgr.setVma x { mgr.vmas x with vmFlags := update (mgr.vmas x).vmFlags }).vmas y).vmStart =
          (mgr.vmas y).vmStart ∧
        ((mgr.setVma x { mgr.vmas x with vmFlags := update (mgr.vmas x).vmFlags }).vmas y).vmEnd =
          (mgr.vmas y).vmEnd := fun y _ => by
      by_cases hyx : y = x
      · subst hyx
        rw [hself]
        exact ⟨rfl, rfl⟩
      · rw [hother y hyx]
        exact ⟨rfl, rfl⟩
    have hin1 : Inside (vmaList (mgr.setVma x { mgr.vmas x with vmFlags := update (mgr.vmas x).vmFlags }) T)
        (mgr.vmas x).vmEnd «end» := by
      intro w hw hws hwe
      obtain ⟨y, hy, rfl⟩ := List.mem_map.1 hw
      by_cases hyx : y = x
      · subst hyx
        rw [hself] at hwe
        exact absurd hwe (lt_irrefl _)
      · rw [hother y hyx] at hws hwe ⊢
        have := hin _ (List.mem_map.2 ⟨y, hy, rfl⟩) hws (by omega)
        exact (inside_after hok hx hy hyx hxc).1 this
    obtain ⟨mgr', hrun, htree, hused, hvmas⟩ :=
      ih (mgr.setVma x { mgr.vmas x with vmFlags := update (mgr.vmas x).vmFlags }) (mgr.vmas x).vmEnd
        (hok.setVma_range rfl rfl)
      ((hcov.mono hxe.le).of_ranges hranges) hin1 (by omega)
    refine ⟨mgr', ?_, htree, hused, fun y hy => ?_⟩
    · have hnext : (if clip then min (mgr.vmas x).vmEnd «end» else (mgr.vmas x).vmEnd) = (mgr.vmas x).vmEnd := by
        split_ifs <;> omega
      simp only [rewriteFlagsLoop, if_pos hc, hfind, Option.bind_eq_bind, Option.bind_some, hnext]
      exact hrun
    · rw [hvmas y hy]
      by_cases hyx : y = x
      · subst hyx
        rw [hself, rewriteIn, if_neg (by simp; omega), rewriteIn, if_pos (by omega)]
      · rw [hother y hyx]
        simp only [rewriteIn, inside_after hok hx hy hyx hxc]

theorem vmaList_of_rewriteIn (hv : ∀ y ∈ T.ids, mgr'.vmas y = rewriteIn update s e (mgr.vmas y)) :
    vmaList mgr' T = (vmaList mgr T).map (rewriteIn update s e) := by
  simp only [vmaList, List.map_map]
  exact List.map_congr_left fun y hy => hv y hy

/-- a flag loop keeps the invariant: it changes nothing but flags -/
theorem VmaOk.of_rewriteIn (hok : VmaOk mgr T) (htree : mgr'.vmaTree = mgr.vmaTree) (hused : mgr'.vmUsed = mgr.vmUsed)
    (hv : ∀ y ∈ T.ids, mgr'.vmas y = rewriteIn update s e (mgr.vmas y)) : VmaOk mgr' T := by
  refine ⟨hok.tree.congr htree fun y hy => by simp [hv y hy], fun w hw => ?_, ?_⟩
  · rw [vmaList_of_rewriteIn hv] at hw
    obtain ⟨v, hv', rfl⟩ := List.mem_map.1 hw
    have hwf := hok.wf v hv'
    unfold rewriteIn
    split_ifs
    · exact ⟨hwf.end_lt, hwf.offset_lt, hwf.file_len_le, hwf.file_len_zero⟩
    · exact hwf
  · rw [hused, hok.used, vmaList_of_rewriteIn hv, List.map_map]
    congr 1
    exact List.map_congr_left fun v _ => by simp [vmaLen]

/-- a VMA that lies inside the range or apart from it: rewriting it rewrites what each of its addresses sees -/
theorem viewAt_rewriteIn {L : List Vma} {v : Vma} (hin : Inside L s e) (hv : v ∈ L) (ha : v.vmStart ≤ a ∧ a < v.vmEnd) :
    (rewriteIn update s e v).viewAt a = AddrView.rewriteAt update s e a (v.viewAt a) := by
  unfold rewriteIn AddrView.rewriteAt
  by_cases h : s ≤ v.vmStart ∧ v.vmEnd ≤ e
  · rw [if_pos h, if_pos (by omega)]
    rfl
  · rw [if_neg h, if_neg fun h' => h (hin v hv (by omega) (by omega))]

/-- the view after a flag loop: the flags of every address of the range rewritten, and nothing else -/
theorem addrView_of_rewriteIn (hin : Inside (vmaList mgr T) s e)
    (hv : ∀ y ∈ T.ids, mgr'.vmas y = rewriteIn update s e (mgr.vmas y)) (a : Nat) :
    addrView mgr' T a = (addrView mgr T a).map (AddrView.rewriteAt update s e a) := by
  rw [addrView, vmaList_of_rewriteIn hv, view, Intervals.lookup_map (show ∀ v, (rewriteIn update s e v).vmStart = v.vmStart from
    vmStart_rewriteIn) (show ∀ v, (rewriteIn update s e v).vmEnd = v.vmEnd from vmEnd_rewriteIn), addrView, view]
  exact Intervals.lookup_map_value fun v hv ha => viewAt_rewriteIn hin hv ha

end Rewrite

section Merge

variable {fuel : Nat} {mgr : VmaManager} {T : RBTree Nat} {s e : Nat}

theorem Covered.of_map {mgr' : VmaManager} {T' : RBTree Nat} {g : Nat → AddrView → AddrView}
    (h : Covered mgr T s e) (hv : ∀ a, addrView mgr' T' a = (addrView mgr T a).map (g a)) : Covered mgr' T' s e :=
  fun a ha hae hnone => h a ha hae (Option.map_eq_none_iff.1 ((hv a).symm.trans hnone))

theorem Covered.of_view {mgr' : VmaManager} {T' : RBTree Nat} (h : Covered mgr T s e)
    (hv : ∀ a, addrView mgr' T' a = addrView mgr T a) : Covered mgr' T' s e :=
  fun a ha hae => hv a ▸ h a ha hae

/-- the merge pass over a covered range: it returns 0, keeps the invariant and what every address sees -/
theorem mergeVmaRangeLoop_spec («end» loopFuel : Nat) :
    ∀ (mgr : VmaManager) (T : RBTree Nat) cursor, VmaOk mgr T → 2 * T.ids.length < fuel →
      Covered mgr T cursor «end» → «end» - cursor < loopFuel →
      ∃ mgr' T', mergeVmaRangeLoop fuel «end» mgr cursor loopFuel = some (0, mgr') ∧ VmaOk mgr' T' ∧
        (∀ a, addrView mgr' T' a = addrView mgr T a) ∧ T'.ids.length ≤ T.ids.length := by
  induction loopFuel with
  | zero => exact fun _ _ _ _ _ _ h => absurd h (Nat.not_lt_zero _)
  | succ n ih =>
    intro mgr T cursor hok hfuel hcov hloop
    by_cases hc : cursor < «end»
    swap
    · exact ⟨mgr, T, by simp [mergeVmaRangeLoop, hc], hok, fun _ => rfl, le_rfl⟩
    obtain ⟨x, hfind, hx, -, hxe⟩ := vmaFind_of_mapped hok.tree (show T.ids.length ≤ fuel by omega)
      (hcov cursor le_rfl hc)
    obtain ⟨mgr1, T1, x1, hmerge, hok1, -, hview1, -, hlen1⟩ :=
      vmaTryMergeAroundLoop_shrinks fuel fuel hok hx hfuel (by omega)
    have hnext : cursor < if (mgr1.vmas x1).vmEnd > min (mgr.vmas x).vmEnd «end» then (mgr1.vmas x1).vmEnd
        else min (mgr.vmas x).vmEnd «end» := by
      split_ifs <;> omega
    obtain ⟨mgr', T', hrun, hok', hview', hlen'⟩ := ih mgr1 T1 _ hok1 (by omega)
      ((hcov.mono hnext.le).of_view hview1) (by omega)
    refine ⟨mgr', T', ?_, hok', fun a => (hview' a).trans (hview1 a), hlen'.trans hlen1⟩
    simp only [mergeVmaRangeLoop, if_pos hc, hfind, vmaTryMergeAround, hmerge, Option.bind_eq_bind, Option.bind_some]
    exact hrun

end Merge

/-! ## The guard check -/

/-- every address of `[s, e)` lies in a private anonymous VMA, as madvise_guard_validate_vmas asks -/
def GuardableRange (mgr : VmaManager) (T : RBTree Nat) (s e : Nat) : Prop :=
  ∀ a, s ≤ a → a < e → ∃ w, addrView mgr T a = some w ∧ w.type = .anon ∧
    w.flags &&& (VMA_SHARED ||| VMA_SHM ||| VMA_DEVICE) = 0

section Validate

variable {fuel : Nat} {mgr : VmaManager} {T : RBTree Nat} {s e : Nat}

theorem GuardableRange.covered (h : GuardableRange mgr T s e) : Covered mgr T s e := fun a ha hae hnone => by
  obtain ⟨w, hw, -⟩ := h a ha hae
  rw [hnone] at hw
  cases hw

theorem GuardableRange.mono {s' : Nat} (h : GuardableRange mgr T s e) (hs : s ≤ s') : GuardableRange mgr T s' e :=
  fun a ha hae => h a (hs.trans ha) hae

/-- the check of madvise_guard_validate_vmas on the VMA at the cursor, and on the range from its end -/
theorem GuardableRange.of_vma (hok : TreeOk mgr T) {x n : Nat} (hx : x ∈ T.ids) (hs : (mgr.vmas x).vmStart ≤ s)
    (hn : n ≤ (mgr.vmas x).vmEnd) (hanon : (mgr.vmas x).vmType = .anon)
    (hflags : (mgr.vmas x).vmFlags &&& (VMA_SHARED ||| VMA_SHM ||| VMA_DEVICE) = 0) (h : GuardableRange mgr T n e) :
    GuardableRange mgr T s e := by
  intro a ha hae
  by_cases han : a < n
  · exact ⟨_, addrView_of_holds hok hx ⟨hs.trans ha, by omega⟩, hanon, hflags⟩
  · exact h a (by omega) hae

/-- the loop of madvise_guard_validate_vmas returns 0 when every address of `[cursor, end)` lies in a private
anonymous VMA, and -ENOMEM or -EINVAL otherwise -/
theorem madviseGuardValidateLoop_spec (hok : TreeOk mgr T) (hfuel : T.ids.length ≤ fuel) («end» loopFuel : Nat) :
    ∀ cursor, «end» - cursor < loopFuel → ∃ r, madviseGuardValidateLoop fuel mgr «end» cursor loopFuel = some r ∧
      (r = 0 ∨ r = -(ENOMEM : Int) ∨ r = -(EINVAL : Int)) ∧ (r = 0 ↔ GuardableRange mgr T cursor «end») := by
  induction loopFuel with
  | zero => exact fun _ h => absurd h (Nat.not_lt_zero _)
  | succ n ih =>
    intro cursor hloop
    by_cases hc : cursor < «end»
    swap
    · exact ⟨0, by simp [madviseGuardValidateLoop, hc], Or.inl rfl, iff_of_true rfl fun a ha hae => by omega⟩
    obtain ⟨r, hfind, hnone, hsome⟩ := vmaFind_spec hok hfuel cursor
    cases r with
    | none =>
      refine ⟨-(ENOMEM : Int), by simp [madviseGuardValidateLoop, hc, hfind], Or.inr (Or.inl rfl),
        iff_of_false (by decide) fun hg => ?_⟩
      obtain ⟨x, hx, -⟩ := vmaFind_of_mapped hok hfuel (hg.covered cursor le_rfl hc)
      exact absurd hx (by simp [hfind])
    | some x =>
      obtain ⟨hx, hxs, hxe⟩ := hsome x rfl
      by_cases hbad : (mgr.vmas x).vmType ≠ .anon ∨
          (mgr.vmas x).vmFlags &&& (VMA_SHARED ||| VMA_SHM ||| VMA_DEVICE) ≠ 0
      · refine ⟨-(EINVAL : Int), by simp [madviseGuardValidateLoop, hc, hfind, hbad], Or.inr (Or.inr rfl),
          iff_of_false (by decide) fun hg => ?_⟩
        obtain ⟨w, hw, hanon, hflags⟩ := hg cursor le_rfl hc
        rw [addrView_of_holds hok hx ⟨hxs, hxe⟩, Option.some_inj] at hw
        subst hw
        exact hbad.elim (· hanon) (· hflags)
      · rw [not_or, not_not, not_not] at hbad
        obtain ⟨r, hr, hrs, hiff⟩ := ih (min (mgr.vmas x).vmEnd «end») (by omega)
        refine ⟨r, ?_, hrs, hiff.trans ⟨fun h => h.of_vma hok hx hxs (by omega) hbad.1 hbad.2,
          fun h => h.mono (by omega)⟩⟩
        simp only [madviseGuardValidateLoop, hc, hfind, if_true, Option.bind_eq_bind, Option.bind_some, hbad.1,
          hbad.2, ne_eq, not_true_eq_false, or_self, if_false]
        exact hr

end Validate

/-! ## The three calls -/

section Calls

variable {fuel : Nat} {malloc : VmaManager → Option Nat} {mgr : VmaManager} {T : RBTree Nat}

theorem AddrView.rewriteAt_of_outside {update : Nat → Nat} {s e a : Nat} (h : a < s ∨ e ≤ a) (o : Option AddrView) :
    o.map (AddrView.rewriteAt update s e a) = o := by
  have : AddrView.rewriteAt update s e a = id := funext fun w => by
    rw [AddrView.rewriteAt, if_neg (by omega), id]
  rw [this, Option.map_id, id]

/-- the loops on an empty range do nothing -/
theorem rewriteFlagsLoop_of_le {update : Nat → Nat} {clip : Bool} {«end» cursor : Nat} (h : «end» ≤ cursor) (n : Nat) :
    rewriteFlagsLoop fuel update clip «end» mgr cursor (n + 1) = some (0, mgr) := by
  simp [rewriteFlagsLoop, show ¬cursor < «end» by omega]

/-- the locked part of the three calls on a covered range: it keeps the invariant, changes no address outside the
range, and when it returns 0 every address of the range has its flags rewritten by `update` -/
theorem rewriteRangeLocked_spec (hmalloc : MallocFresh malloc) (hok : VmaOk mgr T)
    (hfuel : 2 * T.ids.length + 4 < fuel) (ptes : Nat) (update : Nat → Nat) (clip : Bool) (addr len : Nat)
    (hcov : Covered mgr T addr (addr + len)) :
    ∃ ret mgr' T', rewriteRangeLocked fuel malloc ptes update clip mgr addr len = some (ret, mgr') ∧
      VmaOk mgr' T' ∧ T'.ids.length ≤ T.ids.length + 2 ∧
      (∀ a, a < addr ∨ addr + len ≤ a → addrView mgr' T' a = addrView mgr T a) ∧
      (ret = 0 → ∀ a, addrView mgr' T' a = (addrView mgr T a).map (AddrView.rewriteAt update addr (addr + len) a)) := by
  unfold rewriteRangeLocked
  obtain ⟨rc, mgr1, T1, hsplit, hs1, hl1, -, hb⟩ := splitVmaBoundariesLocked_spec hmalloc hok
    (show 2 * T.ids.length + 2 < fuel by omega) addr (addr + len)
  by_cases h0 : rc = 0
  swap
  · refine ⟨enomemRet, mgr1, T1, ?_, hs1.ok, hl1, fun a _ => hs1.view a, fun h => absurd h (by decide)⟩
    simp only [hsplit, Option.bind_eq_bind, Option.bind_some, if_pos h0]
  subst h0
  obtain ⟨mgr2, hloop, hok2, hcov2, hview2⟩ : ∃ mgr2,
      rewriteFlagsLoop fuel update clip (addr + len) mgr1 addr (len + 1) = some (0, mgr2) ∧ VmaOk mgr2 T1 ∧
        Covered mgr2 T1 addr (addr + len) ∧
        ∀ a, addrView mgr2 T1 a = (addrView mgr T a).map (AddrView.rewriteAt update addr (addr + len) a) := by
    by_cases hlen : len = 0
    · subst hlen
      exact ⟨mgr1, rewriteFlagsLoop_of_le (by omega) 0, hs1.ok, fun a ha hae => by omega,
        fun a => by rw [hs1.view, AddrView.rewriteAt_of_outside (by omega)]⟩
    have hin := inside_of_split (by omega) hb rfl
    obtain ⟨mgr2, hloop, htree, hused, hvmas⟩ := rewriteFlagsLoop_spec (show T1.ids.length ≤ fuel by omega) update
      clip (addr + len) (len + 1) mgr1 addr hs1.ok.tree (hcov.of_view hs1.view) hin (by omega)
    exact ⟨mgr2, hloop, hs1.ok.of_rewriteIn htree hused hvmas,
      (hcov.of_view hs1.view).of_ranges fun y hy => by simp [hvmas y hy],
      fun a => by rw [addrView_of_rewriteIn hin hvmas, hs1.view]⟩
  have hout2 : ∀ a, a < addr ∨ addr + len ≤ a → addrView mgr2 T1 a = addrView mgr T a :=
    fun a ha => by rw [hview2, AddrView.rewriteAt_of_outside ha]
  by_cases hp : ptes = 0
  swap
  · refine ⟨ptes, mgr2, T1, ?_, hok2, hl1, hout2, fun h => absurd h hp⟩
    simp only [hsplit, Option.bind_eq_bind, Option.bind_some, ne_eq, not_true_eq_false, if_false, hloop, hp,
      not_false_eq_true, if_true]
  obtain ⟨mgr3, T3, hmerge, hok3, hview3, hl3⟩ := mergeVmaRangeLoop_spec (addr + len) (addr + len - addr + 1) mgr2
    T1 addr hok2 (show 2 * T1.ids.length < fuel by omega) hcov2 (by omega)
  refine ⟨0, mgr3, T3, ?_, hok3, hl3.trans hl1, fun a ha => (hview3 a).trans (hout2 a ha),
    fun _ a => (hview3 a).trans (hview2 a)⟩
  simp only [hsplit, Option.bind_eq_bind, Option.bind_some, ne_eq, not_true_eq_false, if_false, hloop, hp,
    mergeVmaRangeLocked]
  exact hmerge

/-- sys_mprotect keeps the invariant and changes no address outside `[addr, addr + PADDING_UP(len))`; when it returns
0 the range was covered and every address of it has its flags rewritten for `prot` -/
theorem sysMprotect_spec (hmalloc : MallocFresh malloc) (hok : VmaOk mgr T) (hfuel : 2 * T.ids.length + 4 < fuel)
    (hhdm ptes addr len prot : Nat) :
    ∃ ret mgr' T', sysMprotect fuel malloc hhdm ptes mgr addr len prot = some (ret, mgr') ∧ VmaOk mgr' T' ∧
      (∀ a, a < addr ∨ addr + PADDING_UP len PAGE_SIZE ≤ a → addrView mgr' T' a = addrView mgr T a) ∧
      (ret = 0 → Covered mgr T addr (addr + PADDING_UP len PAGE_SIZE) ∧ ∀ a, addrView mgr' T' a =
        (addrView mgr T a).map (AddrView.rewriteAt (mprotectFlags (protToVmaAccessFlags prot)) addr
          (addr + PADDING_UP len PAGE_SIZE) a)) := by
  unfold sysMprotect
  dsimp only
  split_ifs with h1 h2 h3 h4
  · exact ⟨_, mgr, T, rfl, hok, fun _ _ => rfl, fun h => absurd h (by decide)⟩
  · exact ⟨_, mgr, T, rfl, hok, fun _ _ => rfl, fun h => absurd h (by decide)⟩
  · exact ⟨_, mgr, T, rfl, hok, fun _ _ => rfl, fun h => absurd h (by decide)⟩
  · exact ⟨_, mgr, T, rfl, hok, fun _ _ => rfl, fun h => absurd h (by decide)⟩
  obtain ⟨b, hb, hiff⟩ := rangeFullyCoveredLoop_spec hok.tree (show T.ids.length ≤ fuel by omega)
    (addr + PADDING_UP len PAGE_SIZE) (addr + PADDING_UP len PAGE_SIZE - addr + 1) addr (by omega)
  rw [Nat.add_sub_cancel_left] at hb
  cases b with
  | false =>
    refine ⟨enomemRet, mgr, T, ?_, hok, fun _ _ => rfl, fun h => absurd h (by decide)⟩
    simp [rangeFullyCoveredLocked, hb]
  | true =>
    have hcov := hiff.1 rfl
    obtain ⟨ret, mgr', T', hrun, hok', -, hout, hzero⟩ := rewriteRangeLocked_spec hmalloc hok hfuel ptes
      (mprotectFlags (protToVmaAccessFlags prot)) false addr (PADDING_UP len PAGE_SIZE) hcov
    refine ⟨ret, mgr', T', ?_, hok', hout, fun h0 => ⟨hcov, hzero h0⟩⟩
    simp only [rangeFullyCoveredLocked, Nat.add_sub_cancel_left, hb, Option.bind_eq_bind, Option.bind_some,
      Bool.not_true, Bool.false_eq_true, if_false]
    exact hrun

/-- sys_mprotect on a range that is not covered, once its checks pass: -ENOMEM, and nothing changes -/
theorem sysMprotect_of_not_covered (hok : TreeOk mgr T) (hfuel : T.ids.length ≤ fuel) (hhdm ptes addr len prot : Nat)
    (haddr : addr % PAGE_SIZE = 0) (hprot : prot &&& uNot (PROT_READ ||| PROT_WRITE ||| PROT_EXEC) = 0)
    (hvalid : userRangeValid hhdm addr (PADDING_UP len PAGE_SIZE) = true)
    (hcov : ¬Covered mgr T addr (addr + PADDING_UP len PAGE_SIZE)) :
    sysMprotect fuel malloc hhdm ptes mgr addr len prot = some (enomemRet, mgr) := by
  have hne : PADDING_UP len PAGE_SIZE ≠ 0 := fun h => by simp [userRangeValid, h] at hvalid
  obtain ⟨b, hb, hiff⟩ := rangeFullyCoveredLoop_spec hok hfuel (addr + PADDING_UP len PAGE_SIZE)
    (addr + PADDING_UP len PAGE_SIZE - addr + 1) addr (by omega)
  have hb' : b = false := by
    cases b
    · rfl
    · exact absurd (hiff.1 rfl) hcov
  subst hb'
  rw [Nat.add_sub_cancel_left] at hb
  simp [sysMprotect, haddr, hprot, hne, hvalid, rangeFullyCoveredLocked, hb]

/-- madvise_guard_install_range keeps the invariant and changes no address outside `[addr, addr + len)`; when it
returns 0 every address of the range lay in a private anonymous VMA and has its flags rewritten by the install -/
theorem madviseGuardInstallRange_spec (hmalloc : MallocFresh malloc) (hok : VmaOk mgr T)
    (hfuel : 2 * T.ids.length + 4 < fuel) (ptes addr len : Nat) :
    ∃ ret mgr' T', madviseGuardInstallRange fuel malloc ptes mgr addr len = some (ret, mgr') ∧ VmaOk mgr' T' ∧
      T'.ids.length ≤ T.ids.length + 2 ∧
      (∀ a, a < addr ∨ addr + len ≤ a → addrView mgr' T' a = addrView mgr T a) ∧
      (ret = 0 → GuardableRange mgr T addr (addr + len) ∧
        ∀ a, addrView mgr' T' a = (addrView mgr T a).map (AddrView.rewriteAt guardInstallFlags addr (addr + len) a)) := by
  obtain ⟨r, hr, hrs, hiff⟩ := madviseGuardValidateLoop_spec hok.tree (show T.ids.length ≤ fuel by omega)
    (addr + len) (addr + len - addr + 1) addr (by omega)
  unfold madviseGuardInstallRange madviseGuardValidateVmas
  by_cases h0 : r = 0
  · subst h0
    have hg := hiff.1 rfl
    obtain ⟨ret, mgr', T', hrun, hok', hl, hout, hzero⟩ := rewriteRangeLocked_spec hmalloc hok hfuel ptes
      guardInstallFlags true addr len hg.covered
    refine ⟨ret, mgr', T', ?_, hok', hl, hout, fun h0 => ⟨hg, hzero h0⟩⟩
    simp only [hr, Option.bind_eq_bind, Option.bind_some, lt_irrefl, if_false]
    exact hrun
  · have hneg : r < 0 := by rcases hrs with h | h | h <;> simp_all [ENOMEM, EINVAL]
    refine ⟨(r % 2 ^ 64).toNat, mgr, T, ?_, hok, by omega, fun _ _ => rfl, fun h => ?_⟩
    · simp only [hr, Option.bind_eq_bind, Option.bind_some, if_pos hneg]
    · rcases hrs with h' | h' | h' <;> simp [h', ENOMEM, EINVAL] at h0 h

/-- guard install then guard remove over `[addr, addr + len)`: every address of the range lay in a private anonymous
VMA and has its flags rewritten by the install and then the remove, and no address outside it changes -/
theorem guard_install_remove_spec (hmalloc : MallocFresh malloc) (hok : VmaOk mgr T)
    (hfuel : 2 * T.ids.length + 8 < fuel) (ptes ptes' addr len : Nat) {mgr1 : VmaManager}
    (hinst : madviseGuardInstallRange fuel malloc ptes mgr addr len = some (0, mgr1)) :
    ∃ ret mgr2 T2, madviseGuardRemoveRange fuel malloc ptes' mgr1 addr len = some (ret, mgr2) ∧ VmaOk mgr2 T2 ∧
      (∀ a, a < addr ∨ addr + len ≤ a → addrView mgr2 T2 a = addrView mgr T a) ∧
      (ret = 0 → ∀ a, addr ≤ a → a < addr + len → ∃ w, addrView mgr T a = some w ∧ w.type = .anon ∧
        w.flags &&& (VMA_SHARED ||| VMA_SHM ||| VMA_DEVICE) = 0 ∧
        addrView mgr2 T2 a = some { w with flags := guardRemoveFlags (guardInstallFlags w.flags) }) := by
  obtain ⟨ret1, mgr1', T1, hrun1, hok1, hl1, hout1, hzero1⟩ :=
    madviseGuardInstallRange_spec hmalloc hok (show 2 * T.ids.length + 4 < fuel by omega) ptes addr len
  obtain ⟨rfl, rfl⟩ : ret1 = 0 ∧ mgr1' = mgr1 := by simpa [hinst] using hrun1.symm
  obtain ⟨hg, hview1⟩ := hzero1 rfl
  obtain ⟨ret, mgr2, T2, hrun2, hok2, -, hout2, hzero2⟩ := rewriteRangeLocked_spec hmalloc hok1
    (show 2 * T1.ids.length + 4 < fuel by omega) ptes' guardRemoveFlags true addr len (hg.covered.of_map hview1)
  refine ⟨ret, mgr2, T2, hrun2, hok2, fun a ha => (hout2 a ha).trans (hout1 a ha), fun h0 a ha hae => ?_⟩
  obtain ⟨w, hw, hanon, hflags⟩ := hg a ha hae
  refine ⟨w, hw, hanon, hflags, ?_⟩
  rw [hzero2 h0, hview1, hw]
  simp [AddrView.rewriteAt, ha, hae]

end Calls

/-! ## sys_mprotect and the guard round trip on a manager that keeps the invariant -/

section RangeAccess

variable {fuel : Nat} {malloc : VmaManager → Option Nat} {mgr : VmaManager} {T : RBTree Nat}

/-- a protection of read, write and execute only: the check passes, and its access bits are its own bits -/
theorem prot_of_lt {prot : Nat} (h : prot < 8) : prot &&& uNot (PROT_READ ||| PROT_WRITE ||| PROT_EXEC) = 0 ∧
    protToVmaAccessFlags prot = prot ∧ prot &&& 7 = prot := by
  have key : ∀ p < 8, p &&& uNot (PROT_READ ||| PROT_WRITE ||| PROT_EXEC) = 0 ∧ protToVmaAccessFlags p = p ∧
      p &&& 7 = p := by decide
  exact key prot h

/-- a 64-bit length that PADDING_UP does not wrap to 0 rounds up -/
theorem le_paddingUp {len : Nat} (h64 : len < 2 ^ 64) (hne : PADDING_UP len PAGE_SIZE ≠ 0) :
    len ≤ PADDING_UP len PAGE_SIZE := by
  by_cases hw : len + PAGE_SIZE - 1 < 2 ^ 64
  · rw [paddingUp_eq_round hw]
    unfold PADDING_DOWN PAGE_SIZE at *
    omega
  · exact absurd (paddingUp_eq_zero (by omega) h64) hne

theorem sys_mprotect_sets_range_access (hmalloc : MallocFresh malloc) (hok : VmaOk mgr T)
    (hfuel : 2 * T.ids.length + 8 < fuel) :
    (∀ hhdm ptes addr len prot, addr % PAGE_SIZE = 0 → 0 < len → len < 2 ^ 64 → prot < 8 →
      userRangeValid hhdm addr (PADDING_UP len PAGE_SIZE) = true → ¬Covered mgr T addr (addr + len) →
        sysMprotect fuel malloc hhdm ptes mgr addr len prot = some (enomemRet, mgr)) ∧
    (∀ hhdm ptes addr len prot, prot < 8 → ∃ ret mgr' T',
      sysMprotect fuel malloc hhdm ptes mgr addr len prot = some (ret, mgr') ∧ VmaOk mgr' T' ∧
        (∀ a, a < addr ∨ addr + PADDING_UP len PAGE_SIZE ≤ a → addrView mgr' T' a = addrView mgr T a) ∧
        (ret = 0 → ∀ a, addr ≤ a → a < addr + PADDING_UP len PAGE_SIZE → ∃ w w', addrView mgr T a = some w ∧
          addrView mgr' T' a = some w' ∧ w' = { w with flags := w'.flags } ∧
          (w.flags &&& VMA_GUARD = 0 → vmFlagsAccessBits w'.flags = prot ∧ w'.flags &&& VMA_GUARD = 0) ∧
          (w.flags &&& VMA_GUARD ≠ 0 → vmFlagsAccessBits w'.flags = 0 ∧ w'.flags &&& VMA_GUARD ≠ 0 ∧
            vmaGuardSavedAccess w'.flags = prot))) ∧
    (∀ ptes ptes' addr len mgr1, madviseGuardInstallRange fuel malloc ptes mgr addr len = some (0, mgr1) →
      ∃ ret mgr2 T2, madviseGuardRemoveRange fuel malloc ptes' mgr1 addr len = some (ret, mgr2) ∧ VmaOk mgr2 T2 ∧
        (∀ a, a < addr ∨ addr + len ≤ a → addrView mgr2 T2 a = addrView mgr T a) ∧
        (ret = 0 → ∀ a, addr ≤ a → a < addr + len → ∃ w w', addrView mgr T a = some w ∧
          addrView mgr2 T2 a = some w' ∧ w.type = .anon ∧ w.flags &&& (VMA_SHARED ||| VMA_SHM ||| VMA_DEVICE) = 0 ∧
          w' = { w with flags := w'.flags } ∧ w'.flags &&& VMA_GUARD = 0 ∧
          vmFlagsAccessBits w'.flags =
            if w.flags &&& VMA_GUARD = 0 then vmFlagsAccessBits w.flags else vmaGuardSavedAccess w.flags)) := by
  refine ⟨fun hhdm ptes addr len prot haddr _ hlen64 hprot hvalid hcov => ?_,
    fun hhdm ptes addr len prot hprot => ?_, fun ptes ptes' addr len mgr1 hinst => ?_⟩
  · have hne : PADDING_UP len PAGE_SIZE ≠ 0 := fun h => by simp [userRangeValid, h] at hvalid
    exact sysMprotect_of_not_covered hok.tree (by omega) hhdm ptes addr len prot haddr (prot_of_lt hprot).1 hvalid
      fun h => hcov (h.of_le_end (by have := le_paddingUp hlen64 hne; omega))
  · obtain ⟨hcheck, hacc, hbits⟩ := prot_of_lt hprot
    obtain ⟨ret, mgr', T', hrun, hok', hout, hzero⟩ :=
      sysMprotect_spec hmalloc hok (show 2 * T.ids.length + 4 < fuel by omega) hhdm ptes addr len prot
    refine ⟨ret, mgr', T', hrun, hok', hout, fun h0 a ha hae => ?_⟩
    obtain ⟨hcov, hview⟩ := hzero h0
    obtain ⟨w, hw⟩ := Option.ne_none_iff_exists'.1 (hcov a ha hae)
    refine ⟨w, { w with flags := mprotectFlags prot w.flags }, hw, ?_, rfl, fun hg => ?_, fun hg => ?_⟩
    · rw [hview, hw, hacc]
      simp [AddrView.rewriteAt, ha, hae]
    · exact mprotectFlags_of_not_guard hbits hg
    · exact mprotectFlags_of_guard hbits hg
  · obtain ⟨ret, mgr2, T2, hrun, hok2, hout, hzero⟩ :=
      guard_install_remove_spec hmalloc hok hfuel ptes ptes' addr len hinst
    refine ⟨ret, mgr2, T2, hrun, hok2, hout, fun h0 a ha hae => ?_⟩
    obtain ⟨w, hw, hanon, hflags, hw2⟩ := hzero h0 a ha hae
    obtain ⟨hacc, hg⟩ := guard_round_trip_flags w.flags
    exact ⟨w, _, hw, hw2, hanon, hflags, rfl, hg, hacc⟩

/-- the manager with one read and write VMA `[0x1000, 0x4000)`, the allocator of the first empty node, and eleven
steps of fuel; making the middle page read-only splits the VMA at both ends -/
theorem sys_mprotect_sets_range_access_pageVma :
    MallocFresh (firstEmptyVma 4) ∧ VmaOk pageVma (.node .leaf .black 1 .leaf) ∧
      (∀ hhdm ptes addr len prot, prot < 8 → ∃ ret mgr' T',
        sysMprotect 11 (firstEmptyVma 4) hhdm ptes pageVma addr len prot = some (ret, mgr') ∧ VmaOk mgr' T' ∧
          (∀ a, a < addr ∨ addr + PADDING_UP len PAGE_SIZE ≤ a →
            addrView mgr' T' a = addrView pageVma (.node .leaf .black 1 .leaf) a) ∧
          (ret = 0 → ∀ a, addr ≤ a → a < addr + PADDING_UP len PAGE_SIZE → ∃ w w',
            addrView pageVma (.node .leaf .black 1 .leaf) a = some w ∧
            addrView mgr' T' a = some w' ∧ w' = { w with flags := w'.flags } ∧
            (w.flags &&& VMA_GUARD = 0 → vmFlagsAccessBits w'.flags = prot ∧ w'.flags &&& VMA_GUARD = 0) ∧
            (w.flags &&& VMA_GUARD ≠ 0 → vmFlagsAccessBits w'.flags = 0 ∧ w'.flags &&& VMA_GUARD ≠ 0 ∧
              vmaGuardSavedAccess w'.flags = prot))) ∧
      (sysMprotect 11 (firstEmptyVma 4) 0xffff800000000000 0 pageVma 0x2000 0x1000 PROT_READ).map
        (fun r => (r.1, (r.2.vmas 1).vmEnd, (r.2.vmas 2).vmStart, (r.2.vmas 2).vmEnd, (r.2.vmas 2).vmFlags,
          (r.2.vmas 3).vmStart)) = some (0, 0x2000, 0x2000, 0x3000, VMA_READ, 0x3000) :=
  ⟨mallocFresh_firstEmptyVma 4, pageVma_ok,
    (sys_mprotect_sets_range_access (mallocFresh_firstEmptyVma 4) pageVma_ok (by decide)).2.1, by decide⟩

theorem guardVma_ok : VmaOk guardVma (.node .leaf .black 1 .leaf) where
  tree := pageVma_ok.tree.congr rfl fun y hy => by
    simp only [ids_node, ids_leaf, List.nil_append, List.mem_singleton] at hy
    subst hy
    exact ⟨rfl, rfl⟩
  wf := by
    simp only [vmaList, ids_node, ids_leaf, List.nil_append, List.map_cons, List.map_nil, List.mem_singleton,
      forall_eq]
    exact ⟨by decide, by decide, fun h => (by cases h), fun _ => rfl⟩
  used := rfl

/-- sys_mprotect on a page of the kernel half returns -EFAULT although no VMA covers it; and a guard install then
remove over a private anonymous guard VMA with no access leaves it the read and write access it had saved -/
theorem mprotect_efault_and_saved_guard_access :
    (¬Covered noVmas .leaf 0xffff800000000000 (0xffff800000000000 + 4096) ∧
      sysMprotect 5 (fun _ => none) 0xffff800000000000 0 noVmas 0xffff800000000000 4096 0 =
        some (2 ^ 64 - EFAULT, noVmas)) ∧
    (VmaOk guardVma (.node .leaf .black 1 .leaf) ∧ (guardVma.vmas 1).vmType = .anon ∧
      (guardVma.vmas 1).vmFlags &&& (VMA_SHARED ||| VMA_SHM ||| VMA_DEVICE) = 0 ∧
      (addrView guardVma (.node .leaf .black 1 .leaf) 0x1000).map (fun w => vmFlagsAccessBits w.flags) = some 0 ∧
      ((madviseGuardInstallRange 5 (fun _ => none) 0 guardVma 0x1000 0x3000).bind fun r =>
        madviseGuardRemoveRange 5 (fun _ => none) 0 r.2 0x1000 0x3000).map
          (fun r => (r.1, (addrView r.2 (.node .leaf .black 1 .leaf) 0x1000).map fun w => vmFlagsAccessBits w.flags)) =
        some (0, some 3)) :=
  ⟨⟨fun h => h 0xffff800000000000 le_rfl (by norm_num) rfl, rfl⟩,
    guardVma_ok, by decide, by decide, by decide, by decide⟩

end RangeAccess

end Naos.Vmas
