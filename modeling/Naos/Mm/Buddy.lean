/-
Lean model of the binary buddy allocator of `mm/buddy.c`, on its one zone (`ZONE_NORMAL`).

The state is the page array `page_maps` (indexed by page frame number), the zone with its `free_area[order]` list
heads and counts, and the per-CPU page lists `pcp_pages[cpu]`. Free blocks of order `k` are linked through
`prev_pfn` / `next_pfn` of their head pages; the per-CPU lists hold single pages linked through `next_pfn` only.
Every entry point runs under the zone lock or a per-CPU lock, and the model takes each call as one atomic step.

Loops of the source are functions on an explicit fuel that the loop's own bound never lets run out
(`MAX_ORDER` for the order loops, `PCP_BATCH` for the batch loops, the page count for `add_memory_region`). A void
function that can return early (`buddy_free_zone` and the other frees) returns `none` exactly when it returned
before changing anything.

Out of the model: the zone type (there is one), `zone_id`, `slab_cache`, `freelist` and `slab_state` of a page
(written, never read here), the locks, and the reclaim calls between the allocation attempts of `alloc_frames`
(they are frees of other code, i.e. further operations of a run).
-/
import Mathlib

namespace Naos.Buddy

/-! ## Constants and the state -/

def PAGE_SIZE : Nat := 4096
def MAX_ORDER : Nat := 19
def PCP_HIGH : Nat := 64
def PCP_BATCH : Nat := 16
def MAX_CPU_NUM : Nat := 128

def PAGE_FLAG_BUDDY : BitVec 8 := 0x01
def PAGE_FLAG_SLAB : BitVec 8 := 0x02
def PAGE_FLAG_LARGE : BitVec 8 := 0x04
def PAGE_FLAG_PCP : BitVec 8 := 0x08
def PAGE_FLAG_FREEING : BitVec 8 := 0x10

/-- `UINT64_MAX` -/
def PAGE_LIST_NONE : Nat := 2 ^ 64 - 1

/-- the fields of `page_t` the allocator reads -/
structure Page where
  refcount : Nat
  flags : BitVec 8
  order : Nat
  prevPfn : Nat
  nextPfn : Nat
deriving DecidableEq, Repr

/-- a page as `page_init` leaves it (`memset` to zero) -/
def Page.zero : Page := ⟨0, 0, 0, 0, 0⟩

structure FreeArea where
  headPfn : Nat
  nrFree : Nat
deriving DecidableEq, Repr

structure Zone where
  freeArea : Nat → FreeArea
  zoneStartPfn : Nat
  zoneEndPfn : Nat
  managedPages : Nat

/-- `per_cpu_pages_t`; `count` is a `uint16_t` -/
structure PerCpuPages where
  headPfn : Nat
  count : Nat
deriving DecidableEq, Repr

/-- `page_maps`, `memory_size`, the Normal zone, `pcp_pages`, `cpu_count` and the `usable_regions` bitmap -/
structure BuddyState where
  pageMaps : Nat → Page
  memorySize : Nat
  zone : Zone
  pcpPages : Nat → PerCpuPages
  cpuCount : Nat
  usableRegions : Nat → Bool
  usableLength : Nat

namespace BuddyState

def setPage (s : BuddyState) (pfn : Nat) (f : Page → Page) : BuddyState :=
  { s with pageMaps := fun q => if q = pfn then f (s.pageMaps pfn) else s.pageMaps q }

def setArea (s : BuddyState) (order : Nat) (f : FreeArea → FreeArea) : BuddyState :=
  { s with zone := { s.zone with
      freeArea := fun o => if o = order then f (s.zone.freeArea order) else s.zone.freeArea o } }

def setPcp (s : BuddyState) (cpu : Nat) (f : PerCpuPages → PerCpuPages) : BuddyState :=
  { s with pcpPages := fun c => if c = cpu then f (s.pcpPages cpu) else s.pcpPages c }

@[simp] theorem setPage_pageMaps (s : BuddyState) (pfn : Nat) (f : Page → Page) (q : Nat) :
    (s.setPage pfn f).pageMaps q = if q = pfn then f (s.pageMaps pfn) else s.pageMaps q := rfl
@[simp] theorem setPage_zone (s : BuddyState) (pfn : Nat) (f : Page → Page) : (s.setPage pfn f).zone = s.zone := rfl
@[simp] theorem setPage_pcpPages (s : BuddyState) (pfn : Nat) (f : Page → Page) :
    (s.setPage pfn f).pcpPages = s.pcpPages := rfl
@[simp] theorem setPage_memorySize (s : BuddyState) (pfn : Nat) (f : Page → Page) :
    (s.setPage pfn f).memorySize = s.memorySize := rfl
@[simp] theorem setPage_cpuCount (s : BuddyState) (pfn : Nat) (f : Page → Page) :
    (s.setPage pfn f).cpuCount = s.cpuCount := rfl

@[simp] theorem setArea_freeArea (s : BuddyState) (order : Nat) (f : FreeArea → FreeArea) (o : Nat) :
    (s.setArea order f).zone.freeArea o = if o = order then f (s.zone.freeArea order) else s.zone.freeArea o := rfl
@[simp] theorem setArea_pageMaps (s : BuddyState) (order : Nat) (f : FreeArea → FreeArea) :
    (s.setArea order f).pageMaps = s.pageMaps := rfl
@[simp] theorem setArea_pcpPages (s : BuddyState) (order : Nat) (f : FreeArea → FreeArea) :
    (s.setArea order f).pcpPages = s.pcpPages := rfl
@[simp] theorem setArea_zoneStartPfn (s : BuddyState) (order : Nat) (f : FreeArea → FreeArea) :
    (s.setArea order f).zone.zoneStartPfn = s.zone.zoneStartPfn := rfl
@[simp] theorem setArea_zoneEndPfn (s : BuddyState) (order : Nat) (f : FreeArea → FreeArea) :
    (s.setArea order f).zone.zoneEndPfn = s.zone.zoneEndPfn := rfl
@[simp] theorem setArea_memorySize (s : BuddyState) (order : Nat) (f : FreeArea → FreeArea) :
    (s.setArea order f).memorySize = s.memorySize := rfl
@[simp] theorem setArea_managedPages (s : BuddyState) (order : Nat) (f : FreeArea → FreeArea) :
    (s.setArea order f).zone.managedPages = s.zone.managedPages := rfl
@[simp] theorem setArea_cpuCount (s : BuddyState) (order : Nat) (f : FreeArea → FreeArea) :
    (s.setArea order f).cpuCount = s.cpuCount := rfl

@[simp] theorem setPcp_pcpPages (s : BuddyState) (cpu : Nat) (f : PerCpuPages → PerCpuPages) (c : Nat) :
    (s.setPcp cpu f).pcpPages c = if c = cpu then f (s.pcpPages cpu) else s.pcpPages c := rfl
@[simp] theorem setPcp_pageMaps (s : BuddyState) (cpu : Nat) (f : PerCpuPages → PerCpuPages) :
    (s.setPcp cpu f).pageMaps = s.pageMaps := rfl
@[simp] theorem setPcp_zone (s : BuddyState) (cpu : Nat) (f : PerCpuPages → PerCpuPages) :
    (s.setPcp cpu f).zone = s.zone := rfl
@[simp] theorem setPcp_memorySize (s : BuddyState) (cpu : Nat) (f : PerCpuPages → PerCpuPages) :
    (s.setPcp cpu f).memorySize = s.memorySize := rfl
@[simp] theorem setPcp_cpuCount (s : BuddyState) (cpu : Nat) (f : PerCpuPages → PerCpuPages) :
    (s.setPcp cpu f).cpuCount = s.cpuCount := rfl

end BuddyState

open BuddyState

/-! ## Helpers -/

def orderToPages (order : Nat) : Nat := 1 <<< order

def orderValid (order : Nat) : Bool := order < MAX_ORDER

def physToPfn (phys : Nat) : Nat := phys / PAGE_SIZE

def pfnToPhys (pfn : Nat) : Nat := pfn * PAGE_SIZE

def zonePhysStart (zone : Zone) : Nat := zone.zoneStartPfn * PAGE_SIZE

def zonePhysEnd (zone : Zone) : Nat := zone.zoneEndPfn * PAGE_SIZE

def zoneContainsPfn (zone : Zone) (pfn : Nat) : Bool := pfn ≥ zone.zoneStartPfn && pfn < zone.zoneEndPfn

/-- `phys_to_page`, as the frame number of the page it returns -/
def physToPage (s : BuddyState) (phys : Nat) : Option Nat :=
  if phys ≥ s.memorySize then none else some (phys / PAGE_SIZE)

/-- `page_mark_free`; `page_detach` and `page_clear_owner` are inlined -/
def pageMarkFree (page : Page) (order : Nat) : Page :=
  { page with refcount := 0, flags := PAGE_FLAG_BUDDY, order := order,
              prevPfn := PAGE_LIST_NONE, nextPfn := PAGE_LIST_NONE }

def pageMarkAllocated (page : Page) (order : Nat) : Page :=
  { page with refcount := 0, flags := 0, order := order, prevPfn := PAGE_LIST_NONE, nextPfn := PAGE_LIST_NONE }

def pageMarkPcp (page : Page) : Page :=
  { page with refcount := 0, flags := PAGE_FLAG_PCP, order := 0,
              prevPfn := PAGE_LIST_NONE, nextPfn := PAGE_LIST_NONE }

def pageIsBuddy (page : Page) (order : Nat) : Bool := (page.flags &&& PAGE_FLAG_BUDDY) != 0 && page.order == order

/-- the `while (pages < count)` loop of `count_to_order` -/
def countToOrderLoop (count order pages : Nat) : (fuel : Nat) → Option (Nat × Nat)
  | 0 => none
  | fuel + 1 =>
    if pages < count then
      if orderValid (order + 1) then countToOrderLoop count (order + 1) (pages <<< 1) fuel else none
    else some (order, pages)

/-- the order and page count of the smallest block holding `count` pages -/
def countToOrder (count : Nat) : Option (Nat × Nat) :=
  if count = 0 then none else countToOrderLoop count 0 1 MAX_ORDER

def zoneBlockValid (zone : Zone) (addr order : Nat) : Bool :=
  if !orderValid order then false
  else
    let bytes := orderToPages order * PAGE_SIZE
    let blockEnd := (addr + bytes) % 2 ^ 64
    if blockEnd < addr then false
    else if (addr &&& (bytes - 1)) != 0 then false
    else addr ≥ zonePhysStart zone && blockEnd ≤ zonePhysEnd zone

/-- `zone_free_pages_locked` -/
def zoneFreePagesLocked (s : BuddyState) : Nat :=
  (List.range MAX_ORDER).foldl (fun pages order => pages + (s.zone.freeArea order).nrFree * orderToPages order) 0

/-- `zone_free_pages`: the buddy lists plus every per-CPU list -/
def zoneFreePages (s : BuddyState) : Nat :=
  (List.range MAX_CPU_NUM).foldl (fun pages cpu => pages + (s.pcpPages cpu).count) (zoneFreePagesLocked s)

/-! ## The free lists -/

def freeAreaAdd (s : BuddyState) (order pfn : Nat) : BuddyState :=
  let area := s.zone.freeArea order
  let s := s.setPage pfn (pageMarkFree · order)
  let s :=
    if area.headPfn ≠ PAGE_LIST_NONE then
      let s := s.setPage area.headPfn fun head => { head with prevPfn := pfn }
      s.setPage pfn fun page => { page with nextPfn := area.headPfn }
    else s
  s.setArea order fun area => { area with headPfn := pfn, nrFree := area.nrFree + 1 }

def freeAreaDel (s : BuddyState) (order pfn : Nat) : BuddyState :=
  let page := s.pageMaps pfn
  let s :=
    if page.prevPfn ≠ PAGE_LIST_NONE then
      s.setPage page.prevPfn fun prev => { prev with nextPfn := (s.pageMaps pfn).nextPfn }
    else s.setArea order fun area => { area with headPfn := (s.pageMaps pfn).nextPfn }
  -- the C code reads `page->next_pfn` and `page->prev_pfn` again after the first write
  let page := s.pageMaps pfn
  let s :=
    if page.nextPfn ≠ PAGE_LIST_NONE then
      s.setPage page.nextPfn fun next => { next with prevPfn := (s.pageMaps pfn).prevPfn }
    else s
  -- `if (area->nr_free) area->nr_free--`
  let s := s.setArea order fun area => { area with nrFree := area.nrFree - 1 }
  s.setPage pfn (pageMarkAllocated · order)

/-- the frame number of the page popped, and the state after -/
def freeAreaPop (s : BuddyState) (order : Nat) : Option (Nat × BuddyState) :=
  let area := s.zone.freeArea order
  if area.headPfn = PAGE_LIST_NONE then none else some (area.headPfn, freeAreaDel s order area.headPfn)

/-! ## Per-CPU lists -/

/-- `pcp_current_cpu`: the CPU of the current task (`none` when there is no current task) if it is a valid one -/
def pcpCurrentCpu (s : BuddyState) (taskCpu : Option Nat) : Option Nat :=
  match taskCpu with
  | none => none
  | some cpu => if cpu ≥ s.cpuCount || cpu ≥ MAX_CPU_NUM then none else some cpu

def pcpPushLocked (s : BuddyState) (cpu pfn : Nat) : BuddyState :=
  let s := s.setPage pfn pageMarkPcp
  let s := s.setPage pfn fun page => { page with nextPfn := (s.pcpPages cpu).headPfn }
  s.setPcp cpu fun pcp => { pcp with headPfn := pfn, count := (pcp.count + 1) % 2 ^ 16 }

def pcpPopLocked (s : BuddyState) (cpu : Nat) : Option (Nat × BuddyState) :=
  let pcp := s.pcpPages cpu
  if pcp.headPfn = PAGE_LIST_NONE then none
  else
    let pfn := pcp.headPfn
    let s := s.setPcp cpu fun pcp => { pcp with headPfn := (s.pageMaps pfn).nextPfn, count := pcp.count - 1 }
    some (pfn, s.setPage pfn (pageMarkAllocated · 0))

def pcpPageEligible (page : Page) : Bool :=
  page.order == 0 && page.refcount == 0 &&
    (page.flags &&& (PAGE_FLAG_BUDDY ||| PAGE_FLAG_SLAB ||| PAGE_FLAG_LARGE ||| PAGE_FLAG_PCP ||| PAGE_FLAG_FREEING)) == 0

/-- whether a free block of order at least `order` already covers the block at `pfn` -/
def blockAlreadyFree (s : BuddyState) (pfn order : Nat) : Bool :=
  let endPfn := (pfn + orderToPages order) % 2 ^ 64
  if endPfn < pfn then true
  else
    (List.range' order (MAX_ORDER - order)).any fun freeOrder =>
      let freePages := orderToPages freeOrder
      -- `pfn & ~(free_pages - 1)`
      let headPfn := pfn / freePages * freePages
      zoneContainsPfn s.zone headPfn && endPfn ≤ headPfn + freePages &&
        pageIsBuddy (s.pageMaps headPfn) freeOrder

/-! ## Allocation -/

/-- the search loop of `buddy_alloc_order_locked`: pop from the first non-empty list of order `order` or above;
the fuel is `MAX_ORDER - order`, so it runs out exactly when `order < MAX_ORDER` fails -/
def buddyAllocSearch (s : BuddyState) (order : Nat) : (fuel : Nat) → Option (Nat × Nat × BuddyState)
  | 0 => none
  | fuel + 1 =>
    if order < MAX_ORDER then
      match freeAreaPop s order with
      | some (pfn, s) => some (order, pfn, s)
      | none => buddyAllocSearch s (order + 1) fuel
    else none

/-- the split loop: `while (order > target_order)` hands the upper half back at each order -/
def buddyAllocSplit (s : BuddyState) (pfn targetOrder : Nat) : (order : Nat) → BuddyState
  | 0 => s
  | order + 1 =>
    if order + 1 > targetOrder then
      let s := freeAreaAdd s order (pfn + orderToPages order)
      let s := s.setPage pfn (pageMarkAllocated · order)
      buddyAllocSplit s pfn targetOrder order
    else s

/-- the physical address of the block taken (`0` when there is none), and the state after -/
def buddyAllocOrderLocked (s : BuddyState) (targetOrder : Nat) : Nat × BuddyState :=
  match buddyAllocSearch s targetOrder (MAX_ORDER - targetOrder) with
  | none => (0, s)
  | some (order, pfn, s) =>
    let s := buddyAllocSplit s pfn targetOrder order
    (pfnToPhys pfn, s.setPage pfn (pageMarkAllocated · targetOrder))

/-- the batch loop of `pcp_alloc_order0`: up to `PCP_BATCH` order-0 pages from the zone, in allocation order -/
def pcpBatchFill (s : BuddyState) : (fuel : Nat) → List Nat × BuddyState
  | 0 => ([], s)
  | fuel + 1 =>
    let (phys, s) := buddyAllocOrderLocked s 0
    if phys = 0 then ([], s)
    else
      let (rest, s) := pcpBatchFill s fuel
      (physToPfn phys :: rest, s)

def pcpAllocOrder0 (s : BuddyState) (taskCpu : Option Nat) : Nat × BuddyState :=
  match pcpCurrentCpu s taskCpu with
  | none => (0, s)
  | some cpu =>
    match pcpPopLocked s cpu with
    | some (pfn, s) => (pfnToPhys pfn, s)
    | none =>
      let (batch, s) := pcpBatchFill s PCP_BATCH
      -- `page = batch[--nr]`, then `batch[--nr]` is pushed until `nr` reaches 0
      match batch.reverse with
      | [] => (0, s)
      | page :: rest =>
        let s := rest.foldl (fun s pfn => pcpPushLocked s cpu pfn) s
        (pfnToPhys page, s.setPage page (pageMarkAllocated · 0))

/-! ## Freeing -/

/-- the merge loop of `buddy_free_order_locked`; the fuel `MAX_ORDER` outlasts `order + 1 < MAX_ORDER` -/
def buddyFreeMerge (s : BuddyState) (pfn order : Nat) : (fuel : Nat) → BuddyState × Nat × Nat
  | 0 => (s, pfn, order)
  | fuel + 1 =>
    if order + 1 < MAX_ORDER then
      let buddyPfn := pfn ^^^ orderToPages order
      let buddyPhys := pfnToPhys buddyPfn
      if !zoneContainsPfn s.zone buddyPfn || !zoneBlockValid s.zone buddyPhys order then (s, pfn, order)
      else if !pageIsBuddy (s.pageMaps buddyPfn) order then (s, pfn, order)
      else
        let s := freeAreaDel s order buddyPfn
        let pfn := if buddyPfn < pfn then buddyPfn else pfn
        buddyFreeMerge s pfn (order + 1) fuel
    else (s, pfn, order)

/-- the head frame number of the block put on a list, and the state after -/
def buddyFreeOrderLocked (s : BuddyState) (addr order : Nat) : Nat × BuddyState :=
  let (s, pfn, order) := buddyFreeMerge s (physToPfn addr) order MAX_ORDER
  (pfn, freeAreaAdd s order pfn)

/-- the drain loop of `pcp_free_order0`: pop up to `PCP_BATCH` pages -/
def pcpDrain (s : BuddyState) (cpu : Nat) : (fuel : Nat) → List Nat × BuddyState
  | 0 => ([], s)
  | fuel + 1 =>
    match pcpPopLocked s cpu with
    | none => ([], s)
    | some (pfn, s) =>
      let (rest, s) := pcpDrain s cpu fuel
      (pfn :: rest, s)

/-- `none` when the page is not taken by a per-CPU list (`return false`) -/
def pcpFreeOrder0 (s : BuddyState) (taskCpu : Option Nat) (pfn : Nat) : Option BuddyState :=
  if !pcpPageEligible (s.pageMaps pfn) then none
  else
    match pcpCurrentCpu s taskCpu with
    | none => none
    | some cpu =>
      let s := pcpPushLocked s cpu pfn
      let (drain, s) := if (s.pcpPages cpu).count > PCP_HIGH then pcpDrain s cpu PCP_BATCH else ([], s)
      some (drain.foldl (fun s pfn => (buddyFreeOrderLocked s (pfnToPhys pfn) 0).2) s)

def buddyFreeZone (s : BuddyState) (taskCpu : Option Nat) (addr order : Nat) : Option BuddyState :=
  if !zoneBlockValid s.zone addr order then none
  else
    match physToPage s addr with
    | none => none
    | some head =>
      if ((s.pageMaps head).flags &&& (PAGE_FLAG_BUDDY ||| PAGE_FLAG_PCP ||| PAGE_FLAG_SLAB |||
          PAGE_FLAG_LARGE ||| PAGE_FLAG_FREEING)) != 0 then none
      else if blockAlreadyFree s (physToPfn addr) order then none
      else
        match (if order = 0 then pcpFreeOrder0 s taskCpu head else none) with
        | some s => some s
        | none => some (buddyFreeOrderLocked s addr order).2

def buddyFreeZoneClaimed (s : BuddyState) (addr order : Nat) : Option BuddyState :=
  if !zoneBlockValid s.zone addr order then none
  else
    match physToPage s addr with
    | none => none
    | some claimed =>
      if ((s.pageMaps claimed).flags &&& PAGE_FLAG_FREEING) = 0 then none
      else
        let (head, s) := buddyFreeOrderLocked s addr order
        some (if head ≠ claimed && ((s.pageMaps claimed).flags &&& PAGE_FLAG_FREEING) != 0 then
            s.setPage claimed (pageMarkAllocated · 0)
          else s)

/-- the address returned, the value stored through `allocated_pages` (if any), and the state after -/
def buddyAllocZonePages (s : BuddyState) (taskCpu : Option Nat) (count : Nat) : Nat × Option Nat × BuddyState :=
  if count = 0 then (0, none, s)
  else
    match countToOrder count with
    | none => (0, none, s)
    | some (order, pages) =>
      let (addr, s) := if order = 0 then pcpAllocOrder0 s taskCpu else (0, s)
      if addr ≠ 0 then (addr, some pages, s)
      else
        let (addr, s) := buddyAllocOrderLocked s order
        (addr, if addr ≠ 0 then some pages else none, s)

def buddyAllocZone (s : BuddyState) (taskCpu : Option Nat) (count : Nat) : Nat × BuddyState :=
  let (addr, _, s) := buddyAllocZonePages s taskCpu count
  (addr, s)

/-! ## Seeding, and the frame interface -/

def floorOrderLoop (pages order : Nat) : (fuel : Nat) → Nat
  | 0 => order
  | fuel + 1 =>
    if order + 1 < MAX_ORDER && 1 <<< (order + 1) ≤ pages then floorOrderLoop pages (order + 1) fuel else order

def floorOrderForPages (pages : Nat) : Nat := floorOrderLoop pages 0 MAX_ORDER

/-- `__builtin_ctzll`, for the non-zero arguments it is called on -/
def ctzll (x : Nat) : Nat := ((List.range 64).find? fun i => x.testBit i).getD 64

def PADDING_DOWN (size align : Nat) : Nat := size / align * align

def PADDING_UP (size align : Nat) : Nat := PADDING_DOWN ((size + align - 1) % 2 ^ 64) align

/-- the seeding loop of `add_memory_region`; each pass moves `pfn` on by at least one page -/
def addMemoryLoop (s : BuddyState) (pfn endPfn : Nat) : (fuel : Nat) → BuddyState
  | 0 => s
  | fuel + 1 =>
    if pfn < endPfn then
      let orderBySize := floorOrderForPages (endPfn - pfn)
      let orderByAlign := ctzll pfn
      let orderByAlign := if orderByAlign ≥ MAX_ORDER then MAX_ORDER - 1 else orderByAlign
      let order := if orderBySize < orderByAlign then orderBySize else orderByAlign
      let s := (buddyFreeOrderLocked s (pfnToPhys pfn) order).2
      let s := { s with zone := { s.zone with managedPages := s.zone.managedPages + orderToPages order } }
      addMemoryLoop s (pfn + orderToPages order) endPfn fuel
    else s

def addMemoryRegion (s : BuddyState) (start endAddr : Nat) : BuddyState :=
  if start ≥ endAddr then s
  else
    let start := PADDING_UP start PAGE_SIZE
    let endAddr := PADDING_DOWN endAddr PAGE_SIZE
    let start := if start = 0 then PAGE_SIZE else start
    if start ≥ endAddr then s
    else
      let start := if start < zonePhysStart s.zone then zonePhysStart s.zone else start
      let endAddr := if endAddr > zonePhysEnd s.zone then zonePhysEnd s.zone else endAddr
      if start ≥ endAddr then s
      else
        let pfn := physToPfn start
        let endPfn := physToPfn endAddr
        addMemoryLoop s pfn endPfn (endPfn - pfn)

def pageRef (page : Page) : Page := { page with refcount := page.refcount + 1 }

/-- `none` is the `ASSERT(!"Out of memory")` -/
def allocFrames (s : BuddyState) (taskCpu : Option Nat) (count : Nat) : Option (Nat × BuddyState) :=
  if count = 0 then some (0, s)
  else
    match countToOrder count with
    | none => some (0, s)
    | some (order, pages) =>
      let (addr, s) := buddyAllocZone s taskCpu count
      if addr = 0 then none
      else
        let s := (List.range pages).foldl (fun s offset =>
          match physToPage s (addr + offset * PAGE_SIZE) with
          | none => s
          | some pfn => s.setPage pfn fun page => pageRef (pageMarkAllocated page 0)) s
        let s := match physToPage s addr with
          | none => s
          | some head => s.setPage head fun page => { page with order := order }
        some (addr, s)

/-- `page_try_release_last` on every page; on a failure the C code takes back the references it released, which
leaves the state as it was, so the model answers `none` (`claimLastPageRefsLoop` is the loop with its rollback, and
`freeFrames_released` says what it does) -/
def claimLastPageRefs (s : BuddyState) (addr pages : Nat) : Option BuddyState :=
  (List.range pages).foldlM (fun s offset =>
    match physToPage s (addr + offset * PAGE_SIZE) with
    | none => none
    | some pfn => if (s.pageMaps pfn).refcount = 1 then some (s.setPage pfn fun page => { page with refcount := 0 })
                  else none) s

/-- the rollback of `claim_last_page_refs`: `page_ref` on the pages at offsets `[0, offset)` -/
def claimRollback (s : BuddyState) (addr offset : Nat) : BuddyState :=
  (List.range offset).foldl (fun s rollback =>
    match physToPage s (addr + rollback * PAGE_SIZE) with
    | none => s
    | some pfn => s.setPage pfn pageRef) s

/-- `claim_last_page_refs` as the C code runs it, from `offset` on: at the first page that is missing or does not
hold exactly one reference, the references released so far are taken back and the answer is `false` -/
def claimLastPageRefsLoop (addr pages : Nat) (s : BuddyState) (offset : Nat) : Bool × BuddyState :=
  if offset < pages then
    match physToPage s (addr + offset * PAGE_SIZE) with
    | some pfn =>
      -- `page_try_release_last`: the compare-and-swap of the count from 1 to 0
      if (s.pageMaps pfn).refcount = 1 then
        claimLastPageRefsLoop addr pages (s.setPage pfn fun page => { page with refcount := 0 }) (offset + 1)
      else (false, claimRollback s addr offset)
    | none => (false, claimRollback s addr offset)
  else (true, s)
termination_by pages - offset

def pagesAreUnreferenced (s : BuddyState) (addr pages : Nat) : Bool :=
  (List.range pages).all fun offset =>
    match physToPage s (addr + offset * PAGE_SIZE) with
    | none => false
    | some pfn => (s.pageMaps pfn).refcount == 0

def freeFramesCommon (s : BuddyState) (taskCpu : Option Nat) (addr count : Nat) (refsAlreadyReleased : Bool) :
    Option BuddyState :=
  if addr = 0 || count = 0 || (addr &&& (PAGE_SIZE - 1)) != 0 then none
  else
    match countToOrder count with
    | none => none
    | some (order, pages) =>
      if !zoneBlockValid s.zone addr order then none
      else
        let startPage := addr / PAGE_SIZE
        if startPage + pages > s.usableLength then none
        else if !(List.range pages).all (fun offset => s.usableRegions (startPage + offset)) then none
        else
          match physToPage s addr with
          | none => none
          | some head =>
            if ((s.pageMaps head).flags &&& (PAGE_FLAG_BUDDY ||| PAGE_FLAG_SLAB ||| PAGE_FLAG_LARGE |||
                PAGE_FLAG_PCP ||| PAGE_FLAG_FREEING)) != 0 then none
            else
              let claimed :=
                if refsAlreadyReleased then (if pagesAreUnreferenced s addr pages then some s else none)
                else claimLastPageRefs s addr pages
              match claimed with
              | none => none
              | some s =>
                match (if order = 0 then pcpFreeOrder0 s taskCpu head else none) with
                | some s => some s
                | none => some (buddyFreeOrderLocked s addr order).2

def freeFrames (s : BuddyState) (taskCpu : Option Nat) (addr count : Nat) : Option BuddyState :=
  freeFramesCommon s taskCpu addr count false

def freeFramesReleased (s : BuddyState) (taskCpu : Option Nat) (addr count : Nat) : Option BuddyState :=
  freeFramesCommon s taskCpu addr count true

/-- `page_init` and `buddy_init`: zeroed pages, empty lists, the zone `[0, memory_size / PAGE_SIZE)` -/
def buddyInit (memorySize cpuCount : Nat) (usableRegions : Nat → Bool) (usableLength : Nat) : BuddyState where
  pageMaps _ := Page.zero
  memorySize := memorySize
  zone := { freeArea := fun _ => ⟨PAGE_LIST_NONE, 0⟩, zoneStartPfn := 0, zoneEndPfn := memorySize / PAGE_SIZE,
            managedPages := 0 }
  pcpPages _ := ⟨PAGE_LIST_NONE, 0⟩
  cpuCount := cpuCount
  usableRegions := usableRegions
  usableLength := usableLength

end Naos.Buddy
