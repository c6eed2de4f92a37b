/-
Runs of the buddy allocator: the zone's operations as a state machine over the allocator state and the blocks
handed out, and what holds in every state a run reaches.

The operations are those the rest of the kernel calls on the Normal zone: `add_memory_region`, `buddy_alloc_zone_pages`
and `buddy_alloc_zone`, `buddy_free_zone`, `buddy_free_zone_claimed` (after the caller claims the head page with
`PAGE_FLAG_FREEING`, as `large_free` does), `alloc_frames`, `free_frames` and `free_frames_released`. Next to the
state the run keeps the list of blocks handed out and not yet freed. The contract of the callers (`Allowed`): a free
names a block handed out, with the order (or page count) it was handed out with; `add_memory_region` covers only
frames that are neither free nor handed out.

Results:
- `runInv_step`, `runInv_run`: one operation, and so every run from a state with `RunInv`, keeps the representation
  invariant, the per-CPU bound and the ownership of the blocks handed out;
- `buddy_run_invariant`: every run from `buddy_init` that keeps the contract reaches only states with `Inv`;
- `buddy_top_order_uncoalesced`: seeding a region of two top-order blocks leaves two buddies on the order-18 list,
  and adding the same region twice puts a page on that list twice;
- `buddy_alloc_zone_pages_contract`: what `buddy_alloc_zone_pages` returns, from any state with the invariant.
-/
import Naos.Mm.BuddyAlloc

namespace Naos.Buddy

open LinkedStore AlignedBlock BuddyState

/-! ## The initial state -/

section Init
variable (memorySize cpuCount : Nat) (usableRegions : Nat → Bool) (usableLength : Nat)

@[simp] theorem freeList_buddyInit (k : Nat) :
    freeList (buddyInit memorySize cpuCount usableRegions usableLength) k = [] := rfl

@[simp] theorem pcpList_buddyInit (c : Nat) :
    pcpList (buddyInit memorySize cpuCount usableRegions usableLength) c = [] := rfl

theorem freeBlocks_buddyInit : freeBlocks (buddyInit memorySize cpuCount usableRegions usableLength) = [] := by
  simp [freeBlocks]

theorem nodes_buddyInit : nodes (buddyInit memorySize cpuCount usableRegions usableLength) = [] := by
  simp [nodes, List.flatMap_eq_nil_iff]

theorem inv_buddyInit (hmem : memorySize < 2 ^ 64) :
    Inv (buddyInit memorySize cpuCount usableRegions usableLength) where
  lists := ⟨fun _ _ => by rw [freeList_buddyInit]; exact .nil, fun _ _ => rfl,
    fun _ _ => by rw [pcpList_buddyInit]; exact .nil, fun _ _ => rfl, by rw [nodes_buddyInit]; exact List.nodup_nil⟩
  listed _ _ _ hb := by simp at hb
  buddy_listed _ hq := absurd (BitVec.zero_and) hq
  blocks _ hb := by simp [freeBlocks_buddyInit] at hb
  disjoint := by rw [freeBlocks_buddyInit]; exact List.Pairwise.nil
  coalesced _ _ _ hb := by simp at hb
  pcp_flagged _ _ _ hp := by simp at hp
  zone_end := Nat.div_mul_le_self _ _
  memory_lt := hmem

theorem pcpBounded_buddyInit : PcpBounded (buddyInit memorySize cpuCount usableRegions usableLength) :=
  fun _ _ => Nat.zero_le _

theorem freeSet_buddyInit : freeSet (buddyInit memorySize cpuCount usableRegions usableLength) = ∅ := by
  rw [freeSet, freeBlocks_buddyInit]
  ext q
  simp

end Init

/-! ## Operations, the contract, runs -/

/-- the operations on the Normal zone -/
inductive Op where
  | addMemoryRegion (start endAddr : Nat)
  | allocZonePages (taskCpu : Option Nat) (count : Nat)
  | allocZone (taskCpu : Option Nat) (count : Nat)
  | freeZone (taskCpu : Option Nat) (addr order : Nat)
  | freeZoneClaimed (addr order : Nat)
  | allocFrames (taskCpu : Option Nat) (count : Nat)
  | freeFrames (taskCpu : Option Nat) (addr count : Nat)
  | freeFramesReleased (taskCpu : Option Nat) (addr count : Nat)
  deriving DecidableEq, Repr

/-- the order `count_to_order` gives a page count, as the blocks handed out record it -/
def orderOfCount (count : Nat) : Nat := ((countToOrder count).map Prod.fst).getD 0

/-- the caller's claim before `buddy_free_zone_claimed`: the head page's flags become `PAGE_FLAG_FREEING` -/
def claimHead (s : BuddyState) (addr : Nat) : BuddyState :=
  match physToPage s addr with
  | none => s
  | some pfn => s.setPage pfn fun page => { page with flags := PAGE_FLAG_FREEING }

/-- the state and the blocks handed out -/
abbrev Ghost := BuddyState × List (Nat × Nat)

/-- a block is handed out by an allocation that returns a non-zero address -/
def handOut (live : List (Nat × Nat)) (addr order : Nat) : List (Nat × Nat) :=
  if addr = 0 then live else (physToPfn addr, order) :: live

/-- a free that went ahead takes its block back -/
def takeBack (g : Ghost) (r : Option BuddyState) (addr order : Nat) : Ghost :=
  match r with
  | none => g
  | some s => (s, g.2.erase (physToPfn addr, order))

def gstep (g : Ghost) : Op → Ghost
  | .addMemoryRegion start endAddr => (addMemoryRegion g.1 start endAddr, g.2)
  | .allocZonePages taskCpu count =>
    let (addr, _, s) := buddyAllocZonePages g.1 taskCpu count
    (s, handOut g.2 addr (orderOfCount count))
  | .allocZone taskCpu count =>
    let (addr, s) := buddyAllocZone g.1 taskCpu count
    (s, handOut g.2 addr (orderOfCount count))
  | .freeZone taskCpu addr order => takeBack g (buddyFreeZone g.1 taskCpu addr order) addr order
  | .freeZoneClaimed addr order =>
    takeBack (claimHead g.1 addr, g.2) (buddyFreeZoneClaimed (claimHead g.1 addr) addr order) addr order
  | .allocFrames taskCpu count =>
    match allocFrames g.1 taskCpu count with
    | none => g
    | some (addr, s) => (s, handOut g.2 addr (orderOfCount count))
  | .freeFrames taskCpu addr count => takeBack g (freeFrames g.1 taskCpu addr count) addr (orderOfCount count)
  | .freeFramesReleased taskCpu addr count =>
    takeBack g (freeFramesReleased g.1 taskCpu addr count) addr (orderOfCount count)

/-- a block handed out, at the address `addr` -/
def IsLive (g : Ghost) (addr order : Nat) : Prop := ∃ pfn, addr = pfnToPhys pfn ∧ (pfn, order) ∈ g.2

/-- the callers' contract -/
def Allowed (g : Ghost) : Op → Prop
  | .addMemoryRegion start endAddr =>
    ∀ q, physToPfn (PADDING_UP start PAGE_SIZE) ≤ q → q < physToPfn endAddr → q ∉ freeSet g.1 ∪ cover g.2
  | .allocZonePages _ _ => True
  | .allocZone _ _ => True
  | .freeZone _ addr order => IsLive g addr order
  | .freeZoneClaimed addr order => IsLive g addr order
  | .allocFrames _ _ => True
  | .freeFrames _ addr count => IsLive g addr (orderOfCount count)
  | .freeFramesReleased _ addr count => IsLive g addr (orderOfCount count)

def grun (g : Ghost) (ops : List Op) : Ghost := ops.foldl gstep g

/-- every operation of the run keeps the contract in the state it runs in -/
def RunAllowed : Ghost → List Op → Prop
  | _, [] => True
  | g, op :: ops => Allowed g op ∧ RunAllowed (gstep g op) ops

/-- the invariant of runs -/
structure RunInv (g : Ghost) : Prop where
  inv : Inv g.1
  bound : PcpBounded g.1
  owned : OwnedOk g.1 g.2

/-! ## One step -/

section Step
variable {g : Ghost}

theorem orderOfCount_eq {count order pages : Nat} (h : countToOrder count = some (order, pages)) :
    orderOfCount count = order := by
  simp [orderOfCount, h]

/-- a free of a block handed out: the block goes to the front of the list of blocks, and a free that went ahead
keeps `RunInv` with the block taken back -/
theorem RunInv.after_free {addr order : Nat} {r : Option BuddyState} (h : RunInv g) (hlive : IsLive g addr order)
    (hr : ∀ pfn t, addr = pfnToPhys pfn → r = some t →
      OwnedOk g.1 ((pfn, order) :: g.2.erase (pfn, order)) →
        Conserves g.1 ((pfn, order) :: g.2.erase (pfn, order)) t (g.2.erase (pfn, order)) ∧ PcpBounded t) :
    RunInv (takeBack g r addr order) := by
  obtain ⟨pfn, rfl, hmem⟩ := hlive
  have hown := h.owned.perm (List.perm_cons_erase hmem)
  rcases hrc : r with _ | t
  · exact h
  · obtain ⟨hc, hbound⟩ := hr pfn t rfl hrc hown
    rw [takeBack, physToPfn_pfnToPhys]
    exact ⟨hc.inv, hbound, hc.own⟩

/-- an allocation that returned `addr` took the block at `addr`, or returned 0 and changed nothing -/
theorem RunInv.after_alloc {t : BuddyState} {addr order : Nat} (h : RunInv g)
    (hr : (addr = 0 ∧ t = g.1) ∨
      ∃ pfn, addr = pfnToPhys pfn ∧ Conserves g.1 g.2 t ((pfn, order) :: g.2) ∧ PcpBounded t) :
    RunInv (t, handOut g.2 addr order) := by
  rcases hr with ⟨rfl, rfl⟩ | ⟨pfn, rfl, hc, hbound⟩
  · exact h
  · have hpos := (hc.own.blocks _ List.mem_cons_self).pos
    rw [handOut, if_neg (pfnToPhys_ne_zero hpos), physToPfn_pfnToPhys]
    exact ⟨hc.inv, hbound, hc.own⟩

theorem allocZonePages_result (h : RunInv g) (taskCpu : Option Nat) (count : Nat) :
    ((buddyAllocZonePages g.1 taskCpu count).1 = 0 ∧ (buddyAllocZonePages g.1 taskCpu count).2.2 = g.1) ∨
      ∃ pfn, (buddyAllocZonePages g.1 taskCpu count).1 = pfnToPhys pfn ∧
        Conserves g.1 g.2 (buddyAllocZonePages g.1 taskCpu count).2.2 ((pfn, orderOfCount count) :: g.2) ∧
        PcpBounded (buddyAllocZonePages g.1 taskCpu count).2.2 := by
  rcases horder : countToOrder count with _ | ⟨order, pages⟩
  · left
    unfold buddyAllocZonePages
    split_ifs
    · exact ⟨rfl, rfl⟩
    · rw [horder]
      exact ⟨rfl, rfl⟩
  · rw [orderOfCount_eq horder]
    rcases buddyAllocZonePages_spec h.inv h.bound h.owned horder rfl with ⟨h₁, -, h₃, -⟩ |
      ⟨pfn, h₁, -, h₃, h₄, -⟩
    · exact .inl ⟨h₁, h₃⟩
    · exact .inr ⟨pfn, h₁, h₃, h₄⟩

theorem freeing_and_buddy : PAGE_FLAG_FREEING &&& PAGE_FLAG_BUDDY = 0 := by decide

theorem pcpPages_claimHead (s : BuddyState) (addr : Nat) : (claimHead s addr).pcpPages = s.pcpPages := by
  unfold claimHead
  split <;> rfl

theorem claimHead_conserves {addr order : Nat} (h : RunInv g) (hlive : IsLive g addr order) :
    Conserves g.1 g.2 (claimHead g.1 addr) g.2 := by
  obtain ⟨pfn, rfl, hmem⟩ := hlive
  have hb := h.owned.blocks _ hmem
  unfold claimHead
  rw [h.inv.physToPage_pfnToPhys (Nat.lt_of_lt_of_le (Nat.lt_add_of_pos_right (Nat.two_pow_pos _)) hb.le_hi)]
  exact conserves_setPage_owned _ h.inv h.owned hmem (mem_self (pfn, order)) freeing_and_buddy

/-- one operation under the contract keeps `RunInv` -/
theorem runInv_step (h : RunInv g) (op : Op) (hop : Allowed g op) : RunInv (gstep g op) := by
  cases op with
  | addMemoryRegion start endAddr =>
    obtain ⟨hinv, hbound, hown, -⟩ := addMemoryRegion_spec h.inv h.bound h.owned hop
    exact ⟨hinv, hbound, hown⟩
  | allocZonePages taskCpu count =>
    exact h.after_alloc (allocZonePages_result h taskCpu count)
  | allocZone taskCpu count =>
    exact h.after_alloc (allocZonePages_result h taskCpu count)
  | freeZone taskCpu addr order =>
    exact h.after_free hop fun pfn t haddr hr hown => by
      subst haddr
      exact buddyFreeZone_spec h.inv h.bound hown hr
  | freeZoneClaimed addr order =>
    have hclaim := claimHead_conserves h hop
    have h₁ : RunInv (claimHead g.1 addr, g.2) :=
      ⟨hclaim.inv, fun c hc => (pcpPages_claimHead g.1 addr).symm ▸ h.bound c hc, hclaim.own⟩
    obtain ⟨pfn, haddr, hmem⟩ := hop
    refine h₁.after_free ⟨pfn, haddr, hmem⟩ fun pfn t haddr hr hown => ?_
    subst haddr
    exact buddyFreeZoneClaimed_spec h₁.inv h₁.bound hown hr
  | allocFrames taskCpu count =>
    show RunInv (match allocFrames g.1 taskCpu count with
      | none => g
      | some (addr, s) => (s, handOut g.2 addr (orderOfCount count)))
    rcases hr : allocFrames g.1 taskCpu count with _ | ⟨addr, t⟩
    · exact h
    · refine h.after_alloc ?_
      by_cases h0 : addr = 0
      · exact .inl ⟨h0, allocFrames_eq_none_or hr h0⟩
      · rcases horder : countToOrder count with _ | ⟨order, pages⟩
        · unfold allocFrames at hr
          split_ifs at hr
          · simp_all
          · rw [horder] at hr
            simp_all
        · rw [orderOfCount_eq horder]
          exact .inr (allocFrames_spec h.inv h.bound h.owned horder hr)
  | freeFrames taskCpu addr count =>
    refine h.after_free hop fun pfn t haddr hr hown => ?_
    subst haddr
    rcases horder : countToOrder count with _ | ⟨order, pages⟩
    · unfold freeFrames freeFramesCommon at hr
      rw [horder] at hr
      simp at hr
    · rw [orderOfCount_eq horder] at hown ⊢
      exact freeFramesCommon_spec h.inv h.bound horder hown hr
  | freeFramesReleased taskCpu addr count =>
    refine h.after_free hop fun pfn t haddr hr hown => ?_
    subst haddr
    rcases horder : countToOrder count with _ | ⟨order, pages⟩
    · unfold freeFramesReleased freeFramesCommon at hr
      rw [horder] at hr
      simp at hr
    · rw [orderOfCount_eq horder] at hown ⊢
      exact freeFramesCommon_spec h.inv h.bound horder hown hr

end Step

/-- every run under the contract keeps `RunInv`, by induction on the operations -/
theorem runInv_run : ∀ (ops : List Op) (g : Ghost), RunInv g → RunAllowed g ops → RunInv (grun g ops)
  | [], _, h, _ => h
  | op :: ops, g, h, ⟨hop, hrest⟩ => runInv_run ops (gstep g op) (runInv_step h op hop) hrest

/-! ## The representation invariant along runs -/

theorem runInv_buddyInit (memorySize cpuCount : Nat) (usableRegions : Nat → Bool) (usableLength : Nat)
    (hmem : memorySize < 2 ^ 64) : RunInv (buddyInit memorySize cpuCount usableRegions usableLength, []) :=
  ⟨inv_buddyInit _ _ _ _ hmem, pcpBounded_buddyInit _ _ _ _, ownedOk_nil (inv_buddyInit _ _ _ _ hmem)⟩

/-- from `buddy_init`, every run that keeps the contract reaches only states with the representation invariant, with
the per-CPU lists at or below `PCP_HIGH` -/
theorem buddy_run_invariant (memorySize cpuCount : Nat) (usableRegions : Nat → Bool) (usableLength : Nat)
    (hmem : memorySize < 2 ^ 64) (ops : List Op)
    (hallowed : RunAllowed (buddyInit memorySize cpuCount usableRegions usableLength, []) ops) :
    Inv (grun (buddyInit memorySize cpuCount usableRegions usableLength, []) ops).1 ∧
      PcpBounded (grun (buddyInit memorySize cpuCount usableRegions usableLength, []) ops).1 := by
  have h := runInv_run ops _ (runInv_buddyInit memorySize cpuCount usableRegions usableLength hmem) hallowed
  exact ⟨h.inv, h.bound⟩

/-- a run that seeds 63 pages and takes one -/
theorem buddy_run_invariant_seeded :
    (64 * PAGE_SIZE < 2 ^ 64 ∧
      RunAllowed (buddyInit (64 * PAGE_SIZE) 1 (fun _ => true) 64, [])
        [.addMemoryRegion PAGE_SIZE (64 * PAGE_SIZE), .allocZonePages (some 0) 1]) ∧
    Inv (grun (buddyInit (64 * PAGE_SIZE) 1 (fun _ => true) 64, [])
        [.addMemoryRegion PAGE_SIZE (64 * PAGE_SIZE), .allocZonePages (some 0) 1]).1 ∧
      PcpBounded (grun (buddyInit (64 * PAGE_SIZE) 1 (fun _ => true) 64, [])
        [.addMemoryRegion PAGE_SIZE (64 * PAGE_SIZE), .allocZonePages (some 0) 1]).1 := by
  have hallowed : RunAllowed (buddyInit (64 * PAGE_SIZE) 1 (fun _ => true) 64, [])
      [.addMemoryRegion PAGE_SIZE (64 * PAGE_SIZE), .allocZonePages (some 0) 1] :=
    ⟨fun q _ _ => by simp [freeSet_buddyInit, cover], trivial, trivial⟩
  exact ⟨⟨by decide, hallowed⟩, buddy_run_invariant _ _ _ _ (by decide) _ hallowed⟩

/-- the top list is never coalesced: seeding `[2^19, 2^20)` puts the buddies `2^19` and `3 * 2^18` on the order-18
list; and seeding it twice, against the contract, puts `2^19` on that list twice -/
theorem buddy_top_order_uncoalesced :
    (RunAllowed (buddyInit (2 ^ 20 * PAGE_SIZE) 1 (fun _ => true) 0, [])
        [.addMemoryRegion (2 ^ 19 * PAGE_SIZE) (2 ^ 20 * PAGE_SIZE)] ∧
      2 ^ 19 ∈ freeList (grun (buddyInit (2 ^ 20 * PAGE_SIZE) 1 (fun _ => true) 0, [])
        [.addMemoryRegion (2 ^ 19 * PAGE_SIZE) (2 ^ 20 * PAGE_SIZE)]).1 18 ∧
      2 ^ 19 ^^^ 2 ^ 18 ∈ freeList (grun (buddyInit (2 ^ 20 * PAGE_SIZE) 1 (fun _ => true) 0, [])
        [.addMemoryRegion (2 ^ 19 * PAGE_SIZE) (2 ^ 20 * PAGE_SIZE)]).1 18) ∧
    ¬ (freeList (grun (buddyInit (2 ^ 20 * PAGE_SIZE) 1 (fun _ => true) 0, [])
        [.addMemoryRegion (2 ^ 19 * PAGE_SIZE) (2 ^ 20 * PAGE_SIZE),
          .addMemoryRegion (2 ^ 19 * PAGE_SIZE) (2 ^ 20 * PAGE_SIZE)]).1 18).Nodup := by
  refine ⟨⟨⟨fun q _ _ => by simp [freeSet_buddyInit, cover], trivial⟩, ?_, ?_⟩, ?_⟩ <;> decide

/-! ## `buddy_alloc_zone_pages` -/

/-- from any state with the invariant, for `1 ≤ count` with `ceil (log2 count) < MAX_ORDER`: either 0 and every list
of that order or above is empty, or the address of a block of that order, aligned and inside the zone, that was free
and is not any more, with `n = 2 ^ order`, the free-page count down by `2 ^ order`, the invariant kept, and a
`buddy_free_zone` of the block with that order that restores the count -/
theorem buddy_alloc_zone_pages_contract {s : BuddyState} (hinv : Inv s) (hbound : PcpBounded s)
    (taskCpu : Option Nat) {count : Nat} (hcount : 1 ≤ count) (horder : Nat.clog 2 count < MAX_ORDER) :
    ((buddyAllocZonePages s taskCpu count).1 = 0 ∧ (buddyAllocZonePages s taskCpu count).2 = (none, s) ∧
      ∀ j, Nat.clog 2 count ≤ j → j < MAX_ORDER → freeList s j = []) ∨
    ∃ pfn, (buddyAllocZonePages s taskCpu count).1 = pfnToPhys pfn ∧
      (buddyAllocZonePages s taskCpu count).2.1 = some (2 ^ Nat.clog 2 count) ∧
      BlockOk s.zone.zoneStartPfn s.zone.zoneEndPfn (pfn, Nat.clog 2 count) ∧
      toSet (pfn, Nat.clog 2 count) ⊆ freeSet s ∧
      (∀ q ∈ toSet (pfn, Nat.clog 2 count), q ∉ freeSet (buddyAllocZonePages s taskCpu count).2.2) ∧
      zoneFreePages s = zoneFreePages (buddyAllocZonePages s taskCpu count).2.2 + 2 ^ Nat.clog 2 count ∧
      Inv (buddyAllocZonePages s taskCpu count).2.2 ∧
      ∃ t, buddyFreeZone (buddyAllocZonePages s taskCpu count).2.2 taskCpu
          (buddyAllocZonePages s taskCpu count).1 (Nat.clog 2 count) = some t ∧
        zoneFreePages t = zoneFreePages s := by
  have hco : countToOrder count = some (Nat.clog 2 count, 2 ^ Nat.clog 2 count) := by
    rw [countToOrder_eq, if_neg (by omega)]
  rcases hr : buddyAllocZonePages s taskCpu count with ⟨addr, n, t⟩
  rcases buddyAllocZonePages_spec hinv hbound (ownedOk_nil hinv) hco hr with ⟨rfl, rfl, rfl, hempty⟩ |
    ⟨pfn, rfl, rfl, hc, hbound', hflags⟩
  · exact .inl ⟨rfl, rfl, hempty⟩
  have hown := hc.own
  have hpages := hc.pages
  simp only [pagesOf_cons, pagesOf_nil] at hpages
  obtain ⟨u, hu⟩ : ∃ u, buddyFreeZone t taskCpu (pfnToPhys pfn) (Nat.clog 2 count) = some u :=
    buddyFreeZone_isSome hc.inv hown hflags
  have hpages' := (buddyFreeZone_spec hc.inv hbound' hown hu).1.pages
  simp only [pagesOf_cons, pagesOf_nil] at hpages'
  have hsub : toSet (pfn, Nat.clog 2 count) ⊆ freeSet s := by
    rw [hc.freeSet_of_take (ownedOk_nil hinv)]
    exact Set.subset_union_left
  refine .inr ⟨pfn, rfl, rfl, hinv.blockOk_of_subset (hown.blocks _ List.mem_cons_self) hsub, hsub,
    fun q hq => hown.not_mem_freeSet List.mem_cons_self hq, ?_, hc.inv, u, hu, ?_⟩
  · rw [zoneFreePages_eq_freePages hinv.lists, zoneFreePages_eq_freePages hc.inv.lists]
    omega
  · rw [zoneFreePages_eq_freePages (buddyFreeZone_spec hc.inv hbound' hown hu).1.inv.lists,
      zoneFreePages_eq_freePages hinv.lists]
    omega

/-- one page from a zone seeded with the frames `[1, 64)` -/
theorem buddy_alloc_zone_pages_contract_seeded :
    Inv (addMemoryRegion (buddyInit (64 * PAGE_SIZE) 1 (fun _ => true) 64) PAGE_SIZE (64 * PAGE_SIZE)) ∧
    PcpBounded (addMemoryRegion (buddyInit (64 * PAGE_SIZE) 1 (fun _ => true) 64) PAGE_SIZE (64 * PAGE_SIZE)) ∧
    1 ≤ 1 ∧ Nat.clog 2 1 < MAX_ORDER ∧
    (((buddyAllocZonePages (addMemoryRegion (buddyInit (64 * PAGE_SIZE) 1 (fun _ => true) 64) PAGE_SIZE
        (64 * PAGE_SIZE)) (some 0) 1).1 = 0 ∧
      (buddyAllocZonePages (addMemoryRegion (buddyInit (64 * PAGE_SIZE) 1 (fun _ => true) 64) PAGE_SIZE
        (64 * PAGE_SIZE)) (some 0) 1).2 =
        (none, addMemoryRegion (buddyInit (64 * PAGE_SIZE) 1 (fun _ => true) 64) PAGE_SIZE (64 * PAGE_SIZE)) ∧
      ∀ j, Nat.clog 2 1 ≤ j → j < MAX_ORDER →
        freeList (addMemoryRegion (buddyInit (64 * PAGE_SIZE) 1 (fun _ => true) 64) PAGE_SIZE (64 * PAGE_SIZE))
          j = []) ∨
    ∃ pfn, (buddyAllocZonePages (addMemoryRegion (buddyInit (64 * PAGE_SIZE) 1 (fun _ => true) 64) PAGE_SIZE
        (64 * PAGE_SIZE)) (some 0) 1).1 = pfnToPhys pfn ∧
      (buddyAllocZonePages (addMemoryRegion (buddyInit (64 * PAGE_SIZE) 1 (fun _ => true) 64) PAGE_SIZE
        (64 * PAGE_SIZE)) (some 0) 1).2.1 = some (2 ^ Nat.clog 2 1) ∧
      BlockOk (addMemoryRegion (buddyInit (64 * PAGE_SIZE) 1 (fun _ => true) 64) PAGE_SIZE
        (64 * PAGE_SIZE)).zone.zoneStartPfn
        (addMemoryRegion (buddyInit (64 * PAGE_SIZE) 1 (fun _ => true) 64) PAGE_SIZE
          (64 * PAGE_SIZE)).zone.zoneEndPfn (pfn, Nat.clog 2 1) ∧
      toSet (pfn, Nat.clog 2 1) ⊆
        freeSet (addMemoryRegion (buddyInit (64 * PAGE_SIZE) 1 (fun _ => true) 64) PAGE_SIZE (64 * PAGE_SIZE)) ∧
      (∀ q ∈ toSet (pfn, Nat.clog 2 1), q ∉ freeSet (buddyAllocZonePages (addMemoryRegion
        (buddyInit (64 * PAGE_SIZE) 1 (fun _ => true) 64) PAGE_SIZE (64 * PAGE_SIZE)) (some 0) 1).2.2) ∧
      zoneFreePages (addMemoryRegion (buddyInit (64 * PAGE_SIZE) 1 (fun _ => true) 64) PAGE_SIZE
          (64 * PAGE_SIZE)) =
        zoneFreePages (buddyAllocZonePages (addMemoryRegion (buddyInit (64 * PAGE_SIZE) 1 (fun _ => true) 64)
          PAGE_SIZE (64 * PAGE_SIZE)) (some 0) 1).2.2 + 2 ^ Nat.clog 2 1 ∧
      Inv (buddyAllocZonePages (addMemoryRegion (buddyInit (64 * PAGE_SIZE) 1 (fun _ => true) 64) PAGE_SIZE
        (64 * PAGE_SIZE)) (some 0) 1).2.2 ∧
      ∃ t, buddyFreeZone (buddyAllocZonePages (addMemoryRegion (buddyInit (64 * PAGE_SIZE) 1 (fun _ => true) 64)
          PAGE_SIZE (64 * PAGE_SIZE)) (some 0) 1).2.2 (some 0)
          (buddyAllocZonePages (addMemoryRegion (buddyInit (64 * PAGE_SIZE) 1 (fun _ => true) 64) PAGE_SIZE
            (64 * PAGE_SIZE)) (some 0) 1).1 (Nat.clog 2 1) = some t ∧
        zoneFreePages t = zoneFreePages (addMemoryRegion (buddyInit (64 * PAGE_SIZE) 1 (fun _ => true) 64)
          PAGE_SIZE (64 * PAGE_SIZE))) := by
  have hinit := inv_buddyInit (64 * PAGE_SIZE) 1 (fun _ => true) 64 (by decide)
  obtain ⟨hinv, hbound, -⟩ := addMemoryRegion_spec hinit (pcpBounded_buddyInit _ _ _ _) (ownedOk_nil hinit)
    (fun q _ _ => by simp [freeSet_buddyInit, cover])
  exact ⟨hinv, hbound, le_refl 1, by decide,
    buddy_alloc_zone_pages_contract hinv hbound (some 0) (le_refl 1) (by decide)⟩

end Naos.Buddy
