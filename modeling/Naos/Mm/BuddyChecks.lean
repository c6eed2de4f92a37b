/-
The checks of the buddy free paths: the double-free test of `buddy_free_zone` and the reference claim of
`free_frames`.

`block_already_free` scans, for every order from the block's up to the top, the aligned head that would contain the
block, and answers `true` when that head is marked free with that order. Under the representation invariant a page
marked `PAGE_FLAG_BUDDY` heads a block of its order on the lists, so the scan sees exactly the listed blocks that
contain the range; besides those it answers `true` when `pfn + 2^order` overflows 64 bits, before any scan.

`claim_last_page_refs` drops the last reference of each page of the block in turn and, at the first page that is
missing or holds another count, takes back the references it dropped. The pages at distinct offsets are distinct
frames, so the rollback restores every page it touched: the loop either releases all of them or leaves the state as
it was, which is what the model of `free_frames_common` uses.

Results:
- `blockAlreadyFree_iff`: what the scan answers, from any state with the invariant;
- `buddyFreeZone_already_free`: a block whose head is listed, or that lies in a listed block, is left alone;
- `freeFrames_released`: a call of `free_frames` that changes anything released every page of the block first.
-/
import Naos.Mm.BuddyRun

namespace Naos.Buddy

open LinkedStore AlignedBlock BuddyState

/-! ## The double-free test -/

/-- `[pfn, pfn + 2^order)` lies inside a block on a buddy free list -/
def InBuddyBlock (s : BuddyState) (pfn order : Nat) : Prop :=
  ∃ k < MAX_ORDER, ∃ b ∈ freeList s k, b ≤ pfn ∧ pfn + 2 ^ order ≤ b + 2 ^ k

/-- the block at `addr` is free: its head is on a buddy list or a per-CPU list, or it lies inside a listed block -/
def AlreadyFree (s : BuddyState) (addr order : Nat) : Prop :=
  (∃ k < MAX_ORDER, physToPfn addr ∈ freeList s k) ∨ (∃ c < MAX_CPU_NUM, physToPfn addr ∈ pcpList s c) ∨
    InBuddyBlock s (physToPfn addr) order

section AlreadyFree
variable {s : BuddyState} {pfn order : Nat}

/-- a listed block ends below `2^64`: it lies in the zone, which lies in memory -/
theorem block_end_lt (hinv : Inv s) {k b : Nat} (hk : k < MAX_ORDER) (hb : b ∈ freeList s k) :
    b + 2 ^ k < 2 ^ 64 := by
  have hblk := hinv.blocks (b, k) (mem_freeBlocks_of_freeList hk hb)
  have hend := hinv.zone_end
  have hmem := hinv.memory_lt
  have hle := hblk.le_hi
  dsimp only at hle
  unfold PAGE_SIZE at hend
  omega

/-- the aligned head of order `k` over a frame of an aligned block of order `k` is that block's head -/
theorem round_eq_head {b k : Nat} (hal : 2 ^ k ∣ b) (hlo : b ≤ pfn) (hhi : pfn < b + 2 ^ k) :
    pfn / 2 ^ k * 2 ^ k = b := by
  have hb := eq_round_of_mem hal ⟨hlo, hhi⟩
  have hdiv := Nat.div_add_mod pfn (2 ^ k)
  rw [Nat.mul_comm] at hdiv
  omega

/-- without overflow the test is the scan alone -/
theorem blockAlreadyFree_eq_scan (hw : pfn + 2 ^ order < 2 ^ 64) :
    blockAlreadyFree s pfn order = (List.range' order (MAX_ORDER - order)).any fun freeOrder =>
      zoneContainsPfn s.zone (pfn / 2 ^ freeOrder * 2 ^ freeOrder) &&
        decide (pfn + 2 ^ order ≤ pfn / 2 ^ freeOrder * 2 ^ freeOrder + 2 ^ freeOrder) &&
        pageIsBuddy (s.pageMaps (pfn / 2 ^ freeOrder * 2 ^ freeOrder)) freeOrder := by
  unfold blockAlreadyFree
  rw [orderToPages_eq, Nat.mod_eq_of_lt hw, if_neg (Nat.not_lt.mpr (Nat.le_add_right _ _))]
  simp only [orderToPages_eq]

theorem blockAlreadyFree_of_inBuddyBlock (hinv : Inv s) (h : InBuddyBlock s pfn order) :
    blockAlreadyFree s pfn order = true := by
  obtain ⟨k, hk, b, hb, hlo, hhi⟩ := h
  have hblk := hinv.blocks (b, k) (mem_freeBlocks_of_freeList hk hb)
  have hlt := block_end_lt hinv hk hb
  have hpos := Nat.two_pow_pos order
  have hko : order ≤ k := by
    have : 2 ^ order ≤ 2 ^ k := by omega
    exact (Nat.pow_le_pow_iff_right (by decide)).mp this
  have hhead : pfn / 2 ^ k * 2 ^ k = b := round_eq_head hblk.aligned hlo (by omega)
  obtain ⟨hflags, horder⟩ := hinv.listed k hk b hb
  rw [blockAlreadyFree_eq_scan (by omega)]
  refine List.any_eq_true.mpr ⟨k, List.mem_range'_1.mpr ⟨hko, by omega⟩, ?_⟩
  have hlo' := hblk.lo_le
  have hhi' := hblk.le_hi
  dsimp only at hlo' hhi'
  have hkpos := Nat.two_pow_pos k
  simp only [hhead, zoneContainsPfn, pageIsBuddy, hflags, horder, Bool.and_eq_true, decide_eq_true_eq]
  exact ⟨⟨⟨hlo', by omega⟩, hhi⟩, by decide, beq_self_eq_true k⟩

/-- a head the scan finds marked free with its order is on the list of that order -/
theorem inBuddyBlock_of_blockAlreadyFree (hinv : Inv s) (hw : pfn + 2 ^ order < 2 ^ 64)
    (h : blockAlreadyFree s pfn order = true) : InBuddyBlock s pfn order := by
  rw [blockAlreadyFree_eq_scan hw] at h
  obtain ⟨k, -, hscan⟩ := List.any_eq_true.mp h
  simp only [zoneContainsPfn, pageIsBuddy, Bool.and_eq_true, decide_eq_true_eq, bne_iff_ne, ne_eq,
    beq_iff_eq] at hscan
  obtain ⟨⟨-, hend⟩, hbuddy, hk⟩ := hscan
  obtain ⟨hlt, hmem⟩ := hinv.buddy_listed _ hbuddy
  rw [hk] at hlt hmem
  exact ⟨k, hlt, _, hmem, Nat.div_mul_le_self pfn _, hend⟩

/-- the scan answers `true` exactly on a range that overflows 64 bits or lies in a listed block (for a `uint64_t`
frame number and an order the shift `1ULL << order` is defined for) -/
theorem blockAlreadyFree_iff (hinv : Inv s) (hpfn : pfn < 2 ^ 64) (hord : order < 64) :
    blockAlreadyFree s pfn order = true ↔ 2 ^ 64 ≤ pfn + 2 ^ order ∨ InBuddyBlock s pfn order := by
  constructor
  · intro h
    by_cases hw : 2 ^ 64 ≤ pfn + 2 ^ order
    · exact .inl hw
    · exact .inr (inBuddyBlock_of_blockAlreadyFree hinv (by omega) h)
  · rintro (hw | hin)
    · have hpow : 2 ^ order < 2 ^ 64 := Nat.pow_lt_pow_right (by decide) hord
      have hmod : (pfn + 2 ^ order) % 2 ^ 64 = pfn + 2 ^ order - 2 ^ 64 := by
        rw [Nat.mod_eq_sub_mod hw, Nat.mod_eq_of_lt (by omega)]
      unfold blockAlreadyFree
      rw [orderToPages_eq, hmod, if_pos (by omega)]
    · exact blockAlreadyFree_of_inBuddyBlock hinv hin

theorem flags_guard_buddy : (PAGE_FLAG_BUDDY &&& (PAGE_FLAG_BUDDY ||| PAGE_FLAG_PCP ||| PAGE_FLAG_SLAB |||
    PAGE_FLAG_LARGE ||| PAGE_FLAG_FREEING)) != 0 := by decide

theorem flags_guard_pcp : (PAGE_FLAG_PCP &&& (PAGE_FLAG_BUDDY ||| PAGE_FLAG_PCP ||| PAGE_FLAG_SLAB |||
    PAGE_FLAG_LARGE ||| PAGE_FLAG_FREEING)) != 0 := by decide

/-- freeing a block that is already free returns before any change -/
theorem buddyFreeZone_already_free (hinv : Inv s) (taskCpu : Option Nat) {addr : Nat}
    (h : AlreadyFree s addr order) : buddyFreeZone s taskCpu addr order = none := by
  unfold buddyFreeZone
  cases hvalid : zoneBlockValid s.zone addr order
  · rfl
  rw [if_neg (by simp)]
  rcases hhead : physToPage s addr with _ | head
  · rfl
  obtain rfl := physToPage_eq_some hhead
  dsimp only
  rcases h with ⟨k, hk, hb⟩ | ⟨c, hc, hp⟩ | hin
  · rw [(hinv.listed k hk _ hb).1, if_pos flags_guard_buddy]
  · rw [hinv.pcp_flagged c hc _ hp, if_pos flags_guard_pcp]
  · rw [blockAlreadyFree_of_inBuddyBlock hinv hin, if_pos rfl]
    exact ite_self none

/-- the double-free checks of `buddy_free_zone`, from any state with the representation invariant; the frame
number of a 64-bit physical address is below `2^52`, so the end of its range never wraps -/
theorem buddy_free_already_free {s : BuddyState} (hinv : Inv s) :
    (∀ (taskCpu : Option Nat) (addr order : Nat), AlreadyFree s addr order →
      buddyFreeZone s taskCpu addr order = none) ∧
    ∀ pfn order, pfn < 2 ^ 52 → order < 64 → (blockAlreadyFree s pfn order = true ↔ InBuddyBlock s pfn order) := by
  refine ⟨fun taskCpu _ _ h => buddyFreeZone_already_free hinv taskCpu h, fun pfn order hpfn hord => ?_⟩
  have hpow : 2 ^ order ≤ 2 ^ 63 := Nat.pow_le_pow_right (by decide) (by omega)
  have hnowrap : ¬ 2 ^ 64 ≤ pfn + 2 ^ order := by omega
  rw [blockAlreadyFree_iff hinv (by omega) hord, or_iff_right hnowrap]

/-- after seeding `[1, 64)`, the frame 2 lies in the listed block `(2, 1)`: freeing it is refused, and the scan
sees it -/
theorem buddy_free_already_free_seeded :
    Inv (grun (buddyInit (64 * PAGE_SIZE) 1 (fun _ => true) 64, []) [.addMemoryRegion PAGE_SIZE (64 * PAGE_SIZE)]).1 ∧
    buddyFreeZone (grun (buddyInit (64 * PAGE_SIZE) 1 (fun _ => true) 64, [])
      [.addMemoryRegion PAGE_SIZE (64 * PAGE_SIZE)]).1 (some 0) (2 * PAGE_SIZE) 0 = none ∧
    (blockAlreadyFree (grun (buddyInit (64 * PAGE_SIZE) 1 (fun _ => true) 64, [])
      [.addMemoryRegion PAGE_SIZE (64 * PAGE_SIZE)]).1 2 0 = true ↔
      InBuddyBlock (grun (buddyInit (64 * PAGE_SIZE) 1 (fun _ => true) 64, [])
        [.addMemoryRegion PAGE_SIZE (64 * PAGE_SIZE)]).1 2 0) := by
  have hallowed : RunAllowed (buddyInit (64 * PAGE_SIZE) 1 (fun _ => true) 64, [])
      [.addMemoryRegion PAGE_SIZE (64 * PAGE_SIZE)] :=
    ⟨fun q _ _ => by simp [freeSet_buddyInit, cover], trivial⟩
  have hinv := (buddy_run_invariant _ _ _ _ (by decide) _ hallowed).1
  have hin : InBuddyBlock (grun (buddyInit (64 * PAGE_SIZE) 1 (fun _ => true) 64, [])
      [.addMemoryRegion PAGE_SIZE (64 * PAGE_SIZE)]).1 2 0 := ⟨1, by decide, 2, by decide, le_refl 2, by decide⟩
  exact ⟨hinv, (buddy_free_already_free hinv).1 (some 0) (2 * PAGE_SIZE) 0 (.inr (.inr hin)),
    (buddy_free_already_free hinv).2 2 0 (by decide) (by decide)⟩

end AlreadyFree

/-! ## The reference claim of `free_frames` -/

/-- `f` on the pages of the frames `[pfn, pfn + n)` -/
def mapPages (s : BuddyState) (pfn n : Nat) (f : Page → Page) : BuddyState :=
  { s with pageMaps := fun q => if pfn ≤ q ∧ q < pfn + n then f (s.pageMaps q) else s.pageMaps q }

/-- the last reference of a page dropped, as `page_try_release_last` leaves it -/
def releaseRef (page : Page) : Page := { page with refcount := 0 }

/-- every page at the offsets `[0, pages)` from `addr` is in memory and holds exactly one reference -/
def LastRefs (s : BuddyState) (addr pages : Nat) : Prop :=
  ∀ i < pages, addr + i * PAGE_SIZE < s.memorySize ∧ (s.pageMaps (physToPfn addr + i)).refcount = 1

instance (s : BuddyState) (addr pages : Nat) : Decidable (LastRefs s addr pages) :=
  inferInstanceAs (Decidable (∀ i < pages, _))

/-- the block handed back: to a per-CPU list when it is one page and a list takes it, else to the buddy lists -/
def returnBlock (s : BuddyState) (taskCpu : Option Nat) (addr order : Nat) : BuddyState :=
  match (if order = 0 then pcpFreeOrder0 s taskCpu (physToPfn addr) else none) with
  | some s => s
  | none => (buddyFreeOrderLocked s addr order).2

section ClaimLastPageRefs
variable {s u : BuddyState} {addr pfn n : Nat} {f g : Page → Page}

@[simp] theorem mapPages_memorySize : (mapPages s pfn n f).memorySize = s.memorySize := rfl

@[simp] theorem mapPages_pageMaps (q : Nat) :
    (mapPages s pfn n f).pageMaps q = if pfn ≤ q ∧ q < pfn + n then f (s.pageMaps q) else s.pageMaps q := rfl

/-- the page just past the range is untouched -/
theorem mapPages_pageMaps_end : (mapPages s pfn n f).pageMaps (pfn + n) = s.pageMaps (pfn + n) := by
  rw [mapPages_pageMaps, if_neg (by omega)]

theorem mapPages_zero : mapPages s pfn 0 f = s := by
  cases s
  simp only [mapPages, BuddyState.mk.injEq, and_true]
  funext q
  rw [if_neg (by omega)]

theorem mapPages_succ : mapPages s pfn (n + 1) f = (mapPages s pfn n f).setPage (pfn + n) f := by
  cases s
  simp only [mapPages, setPage, BuddyState.mk.injEq, and_true]
  funext q
  by_cases hq : q = pfn + n
  · subst hq
    simp
  · rw [if_neg hq]
    by_cases hin : pfn ≤ q ∧ q < pfn + n
    · rw [if_pos ⟨hin.1, by omega⟩, if_pos hin]
    · rw [if_neg (by omega), if_neg hin]

theorem mapPages_mapPages : mapPages (mapPages s pfn n f) pfn n g = mapPages s pfn n (g ∘ f) := by
  cases s
  simp only [mapPages, BuddyState.mk.injEq, and_true]
  funext q
  split_ifs <;> rfl

/-- a map that fixes every page of the range changes nothing -/
theorem mapPages_eq_self (h : ∀ i < n, f (s.pageMaps (pfn + i)) = s.pageMaps (pfn + i)) : mapPages s pfn n f = s := by
  cases s
  simp only [mapPages, BuddyState.mk.injEq, and_true]
  funext q
  split_ifs with hq
  · have := h (q - pfn) (by omega)
    rwa [Nat.add_sub_cancel' hq.1] at this
  · rfl

theorem physToPfn_add_mul (addr i : Nat) : physToPfn (addr + i * PAGE_SIZE) = physToPfn addr + i := by
  unfold physToPfn
  rw [Nat.add_mul_div_right _ _ (by decide)]

theorem physToPage_offset {i : Nat} (h : addr + i * PAGE_SIZE < s.memorySize) :
    physToPage s (addr + i * PAGE_SIZE) = some (physToPfn addr + i) := by
  unfold physToPage
  rw [if_neg (by omega), ← physToPfn_add_mul]
  rfl

theorem physToPage_offset_none {i : Nat} (h : ¬ addr + i * PAGE_SIZE < s.memorySize) :
    physToPage s (addr + i * PAGE_SIZE) = none := by
  unfold physToPage
  rw [if_pos (by omega)]

theorem lastRefs_zero : LastRefs s addr 0 := fun _ hi => absurd hi (Nat.not_lt_zero _)

theorem lastRefs_succ : LastRefs s addr (n + 1) ↔
    LastRefs s addr n ∧ addr + n * PAGE_SIZE < s.memorySize ∧ (s.pageMaps (physToPfn addr + n)).refcount = 1 := by
  constructor
  · intro h
    exact ⟨fun i hi => h i (by omega), h n (by omega)⟩
  · rintro ⟨h, hn⟩ i hi
    rcases Nat.lt_succ_iff_lt_or_eq.mp hi with hi | rfl
    · exact h i hi
    · exact hn

/-- the rollback refs the pages of the range, all of them in memory -/
theorem claimRollback_eq (h : ∀ i < n, addr + i * PAGE_SIZE < u.memorySize) :
    claimRollback u addr n = mapPages u (physToPfn addr) n pageRef := by
  induction n with
  | zero => exact (mapPages_zero).symm
  | succ n ih =>
    have hrest := ih fun i hi => h i (by omega)
    unfold claimRollback at hrest ⊢
    rw [List.range_succ, List.foldl_append, hrest, List.foldl_cons, List.foldl_nil,
      physToPage_offset (by rw [mapPages_memorySize]; exact h n (by omega)), mapPages_succ]

/-- the abstract claim: all the pages released, or nothing -/
theorem claimLastPageRefs_eq (s : BuddyState) (addr pages : Nat) :
    claimLastPageRefs s addr pages =
      if LastRefs s addr pages then some (mapPages s (physToPfn addr) pages releaseRef) else none := by
  induction pages with
  | zero => rw [if_pos lastRefs_zero, mapPages_zero]; rfl
  | succ n ih =>
    unfold claimLastPageRefs at ih ⊢
    rw [List.range_succ, List.foldlM_append, ih]
    by_cases hl : LastRefs s addr n
    swap
    · rw [if_neg hl, if_neg fun h => hl ((lastRefs_succ).mp h).1]
      rfl
    rw [if_pos hl]
    simp only [Option.pure_def, Option.bind_eq_bind, Option.bind_some, List.foldlM_cons, List.foldlM_nil]
    by_cases hmem : addr + n * PAGE_SIZE < s.memorySize
    swap
    · rw [physToPage_offset_none (by rw [mapPages_memorySize]; exact hmem),
        if_neg fun h => hmem ((lastRefs_succ).mp h).2.1]
      rfl
    rw [physToPage_offset (by rw [mapPages_memorySize]; exact hmem)]
    dsimp only
    rw [mapPages_pageMaps_end]
    by_cases hone : (s.pageMaps (physToPfn addr + n)).refcount = 1
    · rw [if_pos hone, if_pos ((lastRefs_succ).mpr ⟨hl, hmem, hone⟩), mapPages_succ]
      rfl
    · rw [if_neg hone, if_neg fun h => hone ((lastRefs_succ).mp h).2.2]
      rfl

/-- the rollback after a prefix of released pages gives back the state the loop started from -/
theorem claimRollback_released {offset : Nat} (h : LastRefs s addr offset) :
    claimRollback (mapPages s (physToPfn addr) offset releaseRef) addr offset = s := by
  rw [claimRollback_eq (u := mapPages s (physToPfn addr) offset releaseRef) fun i hi => (h i hi).1,
    mapPages_mapPages]
  apply mapPages_eq_self
  intro i hi
  show { s.pageMaps (physToPfn addr + i) with refcount := 0 + 1 } = s.pageMaps (physToPfn addr + i)
  rw [Nat.zero_add, ← (h i hi).2]

/-- the loop from `offset`, with the pages before it released: all released, or the state it started from.
Induction on the offsets left; the invariant is that the prefix was released page by page -/
theorem claimLastPageRefsLoop_released (s : BuddyState) (addr pages : Nat) :
    ∀ k offset, offset + k = pages → LastRefs s addr offset →
      claimLastPageRefsLoop addr pages (mapPages s (physToPfn addr) offset releaseRef) offset =
        if LastRefs s addr pages then (true, mapPages s (physToPfn addr) pages releaseRef) else (false, s) := by
  intro k
  induction k with
  | zero =>
    intro offset hk hl
    obtain rfl : pages = offset := by omega
    rw [claimLastPageRefsLoop, if_neg (Nat.lt_irrefl _), if_pos hl]
  | succ k ih =>
    intro offset hk hl
    rw [claimLastPageRefsLoop, if_pos (by omega)]
    by_cases hmem : addr + offset * PAGE_SIZE < s.memorySize
    swap
    · rw [physToPage_offset_none (by rw [mapPages_memorySize]; exact hmem), claimRollback_released hl,
        if_neg fun h => hmem (h offset (by omega)).1]
    rw [physToPage_offset (by rw [mapPages_memorySize]; exact hmem)]
    dsimp only
    rw [mapPages_pageMaps_end]
    by_cases hone : (s.pageMaps (physToPfn addr + offset)).refcount = 1
    · have hnext : (mapPages s (physToPfn addr) offset releaseRef).setPage (physToPfn addr + offset)
          (fun page => { page with refcount := 0 }) = mapPages s (physToPfn addr) (offset + 1) releaseRef :=
        (mapPages_succ).symm
      rw [if_pos hone, hnext]
      exact ih (offset + 1) (by omega) ((lastRefs_succ).mpr ⟨hl, hmem, hone⟩)
    · rw [if_neg hone, claimRollback_released hl, if_neg fun h => hone (h offset (by omega)).2]

/-- a call of `free_frames` that returns a state has released every page of the block and handed the block back -/
theorem freeFrames_eq_some {taskCpu : Option Nat} {count : Nat} {t : BuddyState}
    (hr : freeFrames s taskCpu addr count = some t) :
    ∃ order, countToOrder count = some (order, 2 ^ order) ∧ LastRefs s addr (2 ^ order) ∧
      t = returnBlock (mapPages s (physToPfn addr) (2 ^ order) releaseRef) taskCpu addr order := by
  unfold freeFrames freeFramesCommon at hr
  split at hr
  · exact absurd hr (by simp)
  rcases horder : countToOrder count with _ | ⟨order, pages⟩
  · rw [horder] at hr
    exact absurd hr (by simp)
  rw [horder] at hr
  obtain ⟨-, -, -, rfl⟩ := countToOrder_eq_some horder
  dsimp only at hr
  iterate 3
    split at hr
    · exact absurd hr (by simp)
  rcases hhead : physToPage s addr with _ | head
  · rw [hhead] at hr
    exact absurd hr (by simp)
  rw [hhead] at hr
  obtain rfl := physToPage_eq_some hhead
  dsimp only at hr
  split at hr
  · exact absurd hr (by simp)
  rw [if_neg Bool.false_ne_true, claimLastPageRefs_eq] at hr
  by_cases hl : LastRefs s addr (2 ^ order)
  · rw [if_pos hl] at hr
    refine ⟨order, rfl, hl, ?_⟩
    unfold returnBlock
    rcases hp : (if order = 0 then pcpFreeOrder0 (mapPages s (physToPfn addr) (2 ^ order) releaseRef) taskCpu
        (physToPfn addr) else none) with _ | u
    · simp only [hp, Option.some.injEq] at hr ⊢
      exact hr.symm
    · simp only [hp, Option.some.injEq] at hr ⊢
      exact hr.symm
  · rw [if_neg hl] at hr
    exact absurd hr (by simp)

end ClaimLastPageRefs

/-- `free_frames` is atomic in the page references: the claim loop releases every page of the block or, taking back
what it released, none; and the call either changes nothing or, every page having held exactly one reference, hands
the released block back to the allocator -/
theorem freeFrames_released (s : BuddyState) (taskCpu : Option Nat) (addr count : Nat) :
    (∀ pages, claimLastPageRefsLoop addr pages s 0 =
      if LastRefs s addr pages then (true, mapPages s (physToPfn addr) pages releaseRef) else (false, s)) ∧
    (freeFrames s taskCpu addr count = none ∨
      ∃ order, countToOrder count = some (order, 2 ^ order) ∧ LastRefs s addr (2 ^ order) ∧
        freeFrames s taskCpu addr count =
          some (returnBlock (mapPages s (physToPfn addr) (2 ^ order) releaseRef) taskCpu addr order)) := by
  refine ⟨fun pages => ?_, ?_⟩
  · have h := claimLastPageRefsLoop_released s addr pages pages 0 (Nat.zero_add _) lastRefs_zero
    rwa [mapPages_zero] at h
  · rcases hr : freeFrames s taskCpu addr count with _ | t
    · exact .inl rfl
    · obtain ⟨order, horder, hl, rfl⟩ := freeFrames_eq_some hr
      exact .inr ⟨order, horder, hl, rfl⟩

end Naos.Buddy
