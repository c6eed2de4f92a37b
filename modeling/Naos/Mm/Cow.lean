/-
Lean model of private mappings across `fork` on x86-64: the leaf page-table entries, the frames they map, and the
calls that rewrite them (`mm/page_table.c`, `mm/fault.c`, `mm/mm_syscall.c`, `arch/x86_64/mm/arch.{c,h}`).

A leaf entry is the 64-bit word of `arch/x86_64/mm/arch.h`: the frame address under `ARCH_ADDR_MASK`, the hardware
bits VALID, WRITEABLE, USER, PWT, PCD and NX, and the software bit COW (bit 56). The upper levels of the page table
are left out: an address space is the list of its leaf entries by virtual page, with the `vm_flags` of the VMA over
each page. Frames hold one word each, which is enough to tell whose write a read sees.

Isolation after `fork` rests on one rule: a frame that two entries map is never mapped writable. The copy in
`copy_page_table_recursive` takes a reference and downgrades every writable private entry to COW in both tables, and
the COW fault (`map_cow_fault_page_snapshot`) makes an entry writable in place only when the frame's count is 1.
`mremap` keeps the rule (`mremap_target_pt_flags` re-applies `arch_page_table_flags_make_cow` to a COW entry);
`mprotect` does not: its leaf rewrite in `map_change_attribute_present_range` is
`ARCH_MAKE_PTE(paddr, arch_flags | (old_flags & ARCH_PT_SOFT_FLAGS))`, which keeps COW and takes WRITEABLE from the
new protection.

Results:
- `mprotect_leaks_parent_write`: after `fork`, `mprotect(PROT_READ | PROT_WRITE)` in the parent and a write by the
  parent, the child reads the parent's value.
-/
import Mathlib
import Naos.Lib.BitFlags

namespace Naos.Cow

/-! ## Leaf entries -/

abbrev Pte := BitVec 64

def ARCH_PT_FLAG_VALID : Pte := 1#64 <<< 0
def ARCH_PT_FLAG_WRITEABLE : Pte := 1#64 <<< 1
def ARCH_PT_FLAG_USER : Pte := 1#64 <<< 2
def ARCH_PT_FLAG_PWT : Pte := 1#64 <<< 3
def ARCH_PT_FLAG_PCD : Pte := 1#64 <<< 4
def ARCH_PT_FLAG_COW : Pte := 1#64 <<< 56
def ARCH_PT_FLAG_NX : Pte := 1#64 <<< 63
def ARCH_PT_SOFT_FLAGS : Pte := ARCH_PT_FLAG_COW
def ARCH_ADDR_MASK : Pte := 0x00007FFFFFFFF000#64

def ARCH_READ_PTE (pte : Pte) : Pte := pte &&& ARCH_ADDR_MASK

def ARCH_MAKE_PTE (paddr flags : Pte) : Pte := (paddr &&& ARCH_ADDR_MASK) ||| flags

def ARCH_READ_PTE_FLAG (pte : Pte) : Pte := pte &&& ~~~ARCH_ADDR_MASK

/-- the generic flags of `mm/page_table_flags.h` -/
def PT_FLAG_R : BitVec 64 := 1#64 <<< 0
def PT_FLAG_W : BitVec 64 := 1#64 <<< 1
def PT_FLAG_X : BitVec 64 := 1#64 <<< 2
def PT_FLAG_U : BitVec 64 := 1#64 <<< 3
def PT_FLAG_COW : BitVec 64 := 1#64 <<< 4
def PT_FLAG_UNCACHEABLE : BitVec 64 := 1#64 <<< 5
def PT_FLAG_DEVICE : BitVec 64 := 1#64 <<< 6

def getArchPageTableFlags (flags : BitVec 64) : Pte :=
  let result := ARCH_PT_FLAG_VALID
  let result := if flags &&& PT_FLAG_W != 0 then result ||| ARCH_PT_FLAG_WRITEABLE else result
  let result := if flags &&& PT_FLAG_U != 0 then result ||| ARCH_PT_FLAG_USER else result
  let result := if flags &&& PT_FLAG_X = 0 then result ||| ARCH_PT_FLAG_NX else result
  let result := if flags &&& PT_FLAG_UNCACHEABLE != 0 || flags &&& PT_FLAG_DEVICE != 0 then
      result ||| (ARCH_PT_FLAG_PCD ||| ARCH_PT_FLAG_PWT) else result
  if flags &&& PT_FLAG_COW != 0 then result ||| ARCH_PT_FLAG_COW else result

def archPageTableFlagsWritable (flags : Pte) : Bool := flags &&& ARCH_PT_FLAG_WRITEABLE != 0

def archPageTableFlagsMakeCow (flags : Pte) : Pte := (flags ||| ARCH_PT_FLAG_COW) &&& ~~~ARCH_PT_FLAG_WRITEABLE

def archPageTableFlagsMakeWritable (flags : Pte) : Pte :=
  (flags ||| ARCH_PT_FLAG_WRITEABLE) &&& ~~~ARCH_PT_FLAG_COW

/-- the entry maps a frame -/
def isValid (pte : Pte) : Bool := pte &&& ARCH_PT_FLAG_VALID != 0

/-- the hardware lets a store through the entry -/
def isWritable (pte : Pte) : Bool := isValid pte && archPageTableFlagsWritable pte

def isCow (pte : Pte) : Bool := pte &&& ARCH_PT_FLAG_COW != 0

/-- the frame an entry maps -/
def frameOf (pte : Pte) : Nat := (ARCH_READ_PTE pte).toNat

/-! ## VMA flags and protections -/

def VMA_READ : BitVec 64 := 0x1
def VMA_WRITE : BitVec 64 := 0x2
def VMA_EXEC : BitVec 64 := 0x4
def VMA_SHARED : BitVec 64 := 0x8
def VMA_ANON : BitVec 64 := 0x10
def VMA_SHM : BitVec 64 := 0x20
def VMA_DEVICE : BitVec 64 := 0x40
def VMA_GUARD : BitVec 64 := 0x100
def VMA_GUARD_SAVED_SHIFT : Nat := 9
def VMA_GUARD_SAVED_MASK : BitVec 64 := 0x7#64 <<< VMA_GUARD_SAVED_SHIFT

def PROT_READ : BitVec 64 := 0x1
def PROT_WRITE : BitVec 64 := 0x2
def PROT_EXEC : BitVec 64 := 0x4

def PAGE_SIZE : Nat := 4096

def EINVAL : Int := 22
def EFAULT : Int := 14
def ENOMEM : Int := 12

def protToVmaAccessFlags (prot : BitVec 64) : BitVec 64 :=
  let vmFlags := 0#64
  let vmFlags := if prot &&& PROT_READ != 0 then vmFlags ||| VMA_READ else vmFlags
  let vmFlags := if prot &&& PROT_WRITE != 0 then vmFlags ||| VMA_WRITE else vmFlags
  if prot &&& PROT_EXEC != 0 then vmFlags ||| VMA_EXEC else vmFlags

def vmFlagsAccessBits (vmFlags : BitVec 64) : BitVec 64 := vmFlags &&& (VMA_READ ||| VMA_WRITE ||| VMA_EXEC)

def vmFlagsHasAccess (vmFlags : BitVec 64) : Bool := vmFlags &&& (VMA_READ ||| VMA_WRITE ||| VMA_EXEC) != 0

/-- `vm_flags_to_pt_flags` of `mm_syscall.c` (the user bit only for an accessible VMA) -/
def vmFlagsToPtFlags (vmFlags : BitVec 64) : BitVec 64 :=
  let ptFlags := if vmFlagsHasAccess vmFlags then PT_FLAG_U else 0#64
  let ptFlags := if vmFlags &&& VMA_READ != 0 then ptFlags ||| PT_FLAG_R else ptFlags
  let ptFlags := if vmFlags &&& VMA_WRITE != 0 then ptFlags ||| PT_FLAG_W else ptFlags
  if vmFlags &&& VMA_EXEC != 0 then ptFlags ||| PT_FLAG_X else ptFlags

/-- `vma_is_private_mapping`, on the flags of the VMA `vma_find` returns (`none` is no VMA) -/
def vmaIsPrivateMapping (vma : Option (BitVec 64)) : Bool :=
  match vma with
  | none => false
  | some vmFlags => vmFlags &&& (VMA_SHARED ||| VMA_SHM ||| VMA_DEVICE) = 0

def faultVmaCanResolveCow (vmFlags : BitVec 64) : Bool :=
  vmFlags &&& VMA_WRITE != 0 && vmFlags &&& (VMA_SHARED ||| VMA_SHM ||| VMA_DEVICE) = 0

def vmaGuardSetSavedAccess (vmFlags access : BitVec 64) : BitVec 64 :=
  (vmFlags &&& ~~~VMA_GUARD_SAVED_MASK) ||| ((access <<< VMA_GUARD_SAVED_SHIFT) &&& VMA_GUARD_SAVED_MASK)

/-- the flags `mremap` gives the entry it maps at the new address -/
def mremapTargetPtFlags (oldFlags targetVmFlags : Pte) : Pte :=
  let flags := getArchPageTableFlags (vmFlagsToPtFlags targetVmFlags)
  if oldFlags &&& ARCH_PT_FLAG_COW != 0 then archPageTableFlagsMakeCow flags else flags

/-- the leaf case of `map_change_attribute_present_range`: a valid entry keeps its frame and its software bits and
takes the rest from `archFlags` -/
def changeAttributeLeaf (entry archFlags : Pte) : Pte :=
  if entry &&& ARCH_PT_FLAG_VALID = 0 then entry
  else
    let oldFlags := ARCH_READ_PTE_FLAG entry
    let keepFlags := oldFlags &&& ARCH_PT_SOFT_FLAGS
    let paddr := ARCH_READ_PTE entry
    ARCH_MAKE_PTE paddr (archFlags ||| keepFlags)

/-! ## Address spaces and frames -/

/-- an address space: the leaf entry of each virtual page that has one (page address first), and the `vm_flags`
of the VMA over each page -/
structure Space where
  ptes : List (Nat × Pte)
  vma : Nat → Option (BitVec 64)

/-- the entry of a page; 0 where there is none, as in the table -/
def Space.pteAt (sp : Space) (va : Nat) : Pte := ((sp.ptes.find? fun p => p.1 = va).map Prod.snd).getD 0

/-- the table with the entry of `va` replaced -/
def Space.setPte (sp : Space) (va : Nat) (e : Pte) : Space :=
  { sp with ptes := sp.ptes.map fun p => if p.1 = va then (va, e) else p }

structure Sys where
  spaces : Nat → Space
  /-- the word each frame holds -/
  mem : Nat → Nat
  refcount : Nat → Nat
  /-- `address_is_managed` -/
  managed : Nat → Bool
  /-- the start of the higher-half direct map, the end of user addresses -/
  hhdm : Nat

def Sys.setSpace (s : Sys) (i : Nat) (sp : Space) : Sys :=
  { s with spaces := Function.update s.spaces i sp }

/-! ## `fork`: the leaf loop of `copy_page_table_recursive` -/

/-- `address_ref`: an unmanaged address needs no reference; a managed one is taken only while it is referenced -/
def addressRef (s : Sys) (paddr : Nat) : Option Sys :=
  if !s.managed paddr then some s
  else if 0 < s.refcount paddr then
    some { s with refcount := Function.update s.refcount paddr (s.refcount paddr + 1) }
  else none

/-- one leaf entry: the source entry after the copy, the child's entry, and the frame counts; `none` when a
reference cannot be taken (the copy is then abandoned) -/
def copyPageTableLeaf (s : Sys) (vma : Nat → Option (BitVec 64)) (va : Nat) (entry : Pte) :
    Option (Pte × Pte × Sys) :=
  let flags := ARCH_READ_PTE_FLAG entry
  if flags &&& ARCH_PT_FLAG_VALID = 0 then some (entry, entry, s)
  else
    let paddr := ARCH_READ_PTE entry
    let managed := paddr != 0 && s.managed paddr.toNat
    let s' := if managed then addressRef s paddr.toNat else some s
    match s' with
    | none => none
    | some s =>
      if managed && vmaIsPrivateMapping (vma va) && archPageTableFlagsWritable flags then
        let flags := archPageTableFlagsMakeCow flags
        some (ARCH_MAKE_PTE paddr flags, ARCH_MAKE_PTE paddr flags, s)
      else some (entry, ARCH_MAKE_PTE paddr flags, s)

/-- the loop over the source's entries -/
def copyPageTableLeaves (vma : Nat → Option (BitVec 64)) :
    Sys → List (Nat × Pte) → Option (List (Nat × Pte) × List (Nat × Pte) × Sys)
  | s, [] => some ([], [], s)
  | s, (va, entry) :: rest =>
    match copyPageTableLeaf s vma va entry with
    | none => none
    | some (src, child, s) =>
      match copyPageTableLeaves vma s rest with
      | none => none
      | some (srcs, childs, s) => some ((va, src) :: srcs, (va, child) :: childs, s)

/-- `clone` without `CLONE_VM`: the child `c` gets a copy of the parent's table and of its VMAs -/
def fork (s : Sys) (p c : Nat) : Option Sys :=
  match copyPageTableLeaves (s.spaces p).vma s (s.spaces p).ptes with
  | none => none
  | some (srcs, childs, s') =>
    some ((s'.setSpace p { s'.spaces p with ptes := srcs }).setSpace c ⟨childs, (s.spaces p).vma⟩)

/-! ## User accesses and the COW fault -/

/-- a user store: through a writable entry it reaches the frame; otherwise the CPU faults (`none`) -/
def userWrite (s : Sys) (i va v : Nat) : Option Sys :=
  let e := (s.spaces i).pteAt va
  if isWritable e then some { s with mem := Function.update s.mem (frameOf e) v } else none

def userRead (s : Sys) (i va : Nat) : Option Nat :=
  let e := (s.spaces i).pteAt va
  if isValid e then some (s.mem (frameOf e)) else none

/-- `map_cow_fault_page_snapshot` for a write fault on a COW entry; `newPaddr` is the frame `alloc_frames(1)`
returns, which holds a count of 1 -/
def mapCowFaultPageSnapshot (s : Sys) (i va newPaddr : Nat) : Option Sys :=
  let sp := s.spaces i
  match sp.vma va with
  | none => none
  | some vmFlags =>
    if !faultVmaCanResolveCow vmFlags then none
    else
      let currentEntry := sp.pteAt va
      if currentEntry &&& ARCH_PT_FLAG_COW = 0 then none
      else
        let oldPaddr := ARCH_READ_PTE currentEntry
        let flags := archPageTableFlagsMakeWritable (ARCH_READ_PTE_FLAG currentEntry)
        if s.managed oldPaddr.toNat && s.refcount oldPaddr.toNat = 1 then
          some (s.setSpace i (sp.setPte va (ARCH_MAKE_PTE oldPaddr flags)))
        else
          -- copy the frame, map the copy, and drop the reference to the old frame
          let s := { s with mem := Function.update s.mem newPaddr (s.mem oldPaddr.toNat),
                            refcount := Function.update s.refcount newPaddr 1 }
          let s := s.setSpace i (sp.setPte va (ARCH_MAKE_PTE (BitVec.ofNat 64 newPaddr) flags))
          some (if s.managed oldPaddr.toNat then
              { s with refcount := Function.update s.refcount oldPaddr.toNat (s.refcount oldPaddr.toNat - 1) }
            else s)

/-! ## `mprotect` -/

/-- the pages of `[addr, addr + len)` -/
def pagesOf (addr len : Nat) : List Nat := (List.range (len / PAGE_SIZE)).map fun k => addr + k * PAGE_SIZE

/-- `check_user_overflow` -/
def checkUserOverflow (hhdm addr size : Nat) : Bool :=
  addr ≥ 2 ^ 64 - 1 - size || addr + size ≥ hhdm || (0 < size && addr + size - 1 ≥ hhdm)

/-- `sys_mprotect` on page granularity: the VMA split and flag update give every page of the range the new access
(saved instead for a guard page), and `update_vma_pte_attrs_locked` rewrites each of its entries -/
def sysMprotect (s : Sys) (i addr len prot : Nat) : Int × Sys :=
  let prot := BitVec.ofNat 64 prot
  if addr % PAGE_SIZE ≠ 0 then (-EINVAL, s)
  else if prot &&& ~~~(PROT_READ ||| PROT_WRITE ||| PROT_EXEC) != 0 then (-EINVAL, s)
  else
    let len := (len + PAGE_SIZE - 1) / PAGE_SIZE * PAGE_SIZE
    if len = 0 then (-EINVAL, s)
    else if checkUserOverflow s.hhdm addr len then (-EFAULT, s)
    else
      let sp := s.spaces i
      let pages := pagesOf addr len
      if !pages.all fun va => (sp.vma va).isSome then (-ENOMEM, s)
      else
        let newVmAccess := protToVmaAccessFlags prot
        let vma := fun va =>
          if va ∈ pages then (sp.vma va).map fun vmFlags =>
            if vmFlags &&& VMA_GUARD != 0 then
              vmaGuardSetSavedAccess vmFlags newVmAccess &&& ~~~(VMA_READ ||| VMA_WRITE ||| VMA_EXEC)
            else (vmFlags &&& ~~~(VMA_READ ||| VMA_WRITE ||| VMA_EXEC)) ||| newVmAccess
          else sp.vma va
        let effective := fun va => match vma va with
          | none => 0#64
          | some vmFlags => if vmFlags &&& VMA_GUARD != 0 then 0#64 else vmFlagsAccessBits vmFlags
        let ptes := sp.ptes.map fun p => (p.1,
          if p.1 ∈ pages then changeAttributeLeaf p.2 (getArchPageTableFlags (vmFlagsToPtFlags (effective p.1)))
          else p.2)
        (0, s.setSpace i ⟨ptes, vma⟩)

/-! ## The failing run -/

/-- a process 0 with one private anonymous read-write page at `0x1000`, in frame `0x200000`, which holds 0 -/
def forkParent : Sys where
  spaces i := if i = 0 then
      ⟨[(0x1000, ARCH_MAKE_PTE 0x200000#64 (getArchPageTableFlags (vmFlagsToPtFlags (VMA_READ ||| VMA_WRITE))))],
        fun va => if va = 0x1000 then some (VMA_READ ||| VMA_WRITE ||| VMA_ANON) else none⟩
    else ⟨[], fun _ => none⟩
  mem _ := 0
  refcount p := if p = 0x200000 then 1 else 0
  managed _ := true
  hhdm := 0xffff800000000000

/-- after `fork` into process 1 the child reads 0 and a store by the parent faults; after the parent's
`mprotect(0x1000, PAGE_SIZE, PROT_READ | PROT_WRITE)` the parent's store of 1 goes through, and the child reads 1 -/
theorem mprotect_leaks_parent_write :
    ((fork forkParent 0 1).bind fun t => userRead t 1 0x1000) = some 0 ∧
    ((fork forkParent 0 1).bind fun t => userWrite t 0 0x1000 1) = none ∧
    (((fork forkParent 0 1).bind fun t => userWrite (sysMprotect t 0 0x1000 PAGE_SIZE 3).2 0 0x1000 1).bind
      fun u => userRead u 1 0x1000) = some 1 := by
  refine ⟨?_, ?_, ?_⟩ <;> decide

end Naos.Cow
